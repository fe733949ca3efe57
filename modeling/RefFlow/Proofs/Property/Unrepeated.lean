import RefFlow.Proofs.Property.Closure

/-!
# The property reads of a value, each once

A property read that is found twice would be reported twice, and a memory that answers for the same
place again is a way to get there.  It does not happen as long as every type operator has one
operand (`OneOperand`), as all of them have that the conversion knows.  Then a node that a value
gets to from a variable is got to from one read of one variable (`eq_of_within`, `eq_of_near`), so
that runs from different reads, and from different variables, keep apart (`Fresh`).

`Runs.unrepeated` is the induction on runs, and `Runs.nodup` its case for a fresh extractor.
-/

namespace RefFlow

open Fallible

namespace Property

open Trace (Carrier)
open RefObject (Rebinds)

variable {p : Program} {c d : Carrier} {e q t : Node} {u v : VariableId}

/-! ## Ways lead back to one read -/

/-- Type operators that the conversion does not know have one operand at most. -/
def OneOperand (p : Program) : Prop :=
  ∀ q, p.Has q → IsWrapper q → q.shape.IsGeneric → q.children.length ≤ 1

lemma OneOperand.length_children (h : OneOperand p) (hq : p.Has q) (hwrapper : IsWrapper q) :
    q.children.length ≤ 1 := by
  rcases hq.conforms with hparts | hgeneric
  · have hkind : q.shape.kind.parts = [(.expression, .one)] := by
      rcases hwrapper with hkind | hkind <;>
        · have hkind : q.shape.kind = _ := hkind
          rw [hkind]
          rfl
    rw [hkind] at hparts
    obtain ⟨⟨g, value⟩, rest, ⟨-, hfits⟩, hrest, hfields⟩ := List.forall₂_cons_left_iff.1 hparts
    obtain rfl := List.forall₂_nil_left_iff.1 hrest
    rw [Tree.children, Shape.children, hfields]
    cases value <;> simp_all [Slot.children, Slot.Fits]
  · exact h q hq hwrapper hgeneric

lemma Rebinds.parent_target (h : Rebinds p e (some t)) (he : p.Has e) :
    ∃ q, p.parent? t = some q ∧ p.parent? e = some q ∧
      (q.kind = .variableDeclarator ∧ q.child .init = .ok (some e) ∨
        q.kind = .assignmentExpression ∧ q.child .right = .ok (some e)) := by
  cases h with
  | declarator parent isDeclarator init id =>
    have hq := (he.parent parent).1
    exact ⟨_, hq.parent?_of_mem_children (Shape.mem_children_of_child id), parent,
      .inl ⟨isDeclarator, init⟩⟩
  | assignment parent isAssignment _ right left =>
    have hq := (he.parent parent).1
    exact ⟨_, hq.parent?_of_mem_children (Shape.mem_children_of_child left), parent,
      .inr ⟨isAssignment, right⟩⟩

/-- A target is bound to one expression. -/
lemma eq_of_rebinds {e' : Node} (he : p.Has e) (he' : p.Has e') (h : Rebinds p e (some t))
    (h' : Rebinds p e' (some t)) : e = e' := by
  obtain ⟨q, hq, -, hparts⟩ := Rebinds.parent_target h he
  obtain ⟨q', hq', -, hparts'⟩ := Rebinds.parent_target h' he'
  obtain rfl := Option.some.inj (hq.symm.trans hq')
  rcases hparts with ⟨hkind, hchild⟩ | ⟨hkind, hchild⟩ <;>
    rcases hparts' with ⟨hkind', hchild'⟩ | ⟨hkind', hchild'⟩
  · exact Option.some.inj (Except.ok.inj (hchild.symm.trans hchild'))
  · cases hkind.symm.trans hkind'
  · cases hkind.symm.trans hkind'
  · exact Option.some.inj (Except.ok.inj (hchild.symm.trans hchild'))

lemma eq_of_length_le_one {α : Type} {as : List α} (h : as.length ≤ 1) {a b : α} (ha : a ∈ as)
    (hb : b ∈ as) : a = b := by
  cases as with
  | nil => cases ha
  | cons x xs =>
    obtain rfl : xs = [] := by simpa using h
    rw [List.mem_singleton.1 ha, List.mem_singleton.1 hb]

/-- The value goes to the one node from the other, which is one of the program, in one step. -/
def Between (p : Program) (d c : Carrier) : Prop := Leads p c d ∧ c.IsNode ∧ d.IsNode ∧ c.In p

/-- A node is got to from one other node at most. -/
lemma rightUnique_between (h : OneOperand p) : Relator.RightUnique (Between p) := by
  rintro d c c' ⟨hc, hnode, hd, hin⟩ ⟨hc', hnode', -, hin'⟩
  cases hc with
  | read => cases hnode
  | name => cases hd
  | bound rebinds =>
    cases hc' with
    | bound rebinds' => rw [eq_of_rebinds hin hin' rebinds rebinds']
  | wrapped parent isWrapper =>
    cases hc' with
    | read => cases hnode'
    | wrapped parent' =>
      obtain ⟨hq, hmem⟩ := Program.Has.parent hin parent
      obtain ⟨-, hmem'⟩ := Program.Has.parent hin' parent'
      rw [eq_of_length_le_one (h.length_children hq isWrapper) hmem hmem']

lemma Within.between (h : Within p c d) (hin : c.In p) (hnode : d.IsNode) :
    Relation.ReflTransGen (Between p) d c := by
  induction h with
  | refl => exact .refl
  | tail hway hstep ih =>
    exact .head ⟨hstep.1, hstep.2, hnode, Within.in_program hway hin⟩ (ih hstep.2)

/-- No node is got to before the place where a variable is read. -/
lemma not_between_read (hread : Leads p (.holder v) c) : ¬Between p c d := by
  rintro ⟨hleads, hnode, -⟩
  obtain ⟨e, rfl, hkind⟩ : ∃ e : Node, c = .expression e ∧ e.kind = .identifier := by
    cases hread with
    | read reference => exact ⟨_, rfl, (Program.has_of_mem_referencesTo reference).2⟩
  cases hleads with
  | read => cases hnode
  | wrapped _ isWrapper =>
    rcases isWrapper with hwrapper | hwrapper
    · cases hkind.symm.trans hwrapper
    · cases hkind.symm.trans hwrapper

/-- A node that is got to from two reads is got to from one. -/
lemma eq_of_within (h : OneOperand p) {c' : Carrier} (hread : Leads p (.holder u) c)
    (hread' : Leads p (.holder v) c') (hnode : d.IsNode) (hc : Within p c d)
    (hc' : Within p c' d) : c = c' := by
  have hin := in_of_mem_readsOf (mem_readsOf_iff.2 hread)
  have hin' := in_of_mem_readsOf (mem_readsOf_iff.2 hread')
  rcases Relation.ReflTransGen.total_of_right_unique (rightUnique_between h)
    (hc.between hin hnode) (hc'.between hin' hnode) with hway | hway
  · rcases hway.cases_head with rfl | ⟨b, hb, -⟩
    · rfl
    · exact absurd hb (not_between_read hread)
  · rcases hway.cases_head with rfl | ⟨b, hb, -⟩
    · rfl
    · exact absurd hb (not_between_read hread')

/-- The place where a variable is read belongs to no other variable. -/
lemma eq_of_leads_holder (h : Leads p (.holder u) c) (h' : Leads p (.holder v) c) : u = v := by
  cases h with
  | @read _ r reference =>
    generalize hc : Carrier.expression r.identifier = c at h'
    cases h' with
    | @read _ r' reference' =>
      obtain ⟨hr, hresolved⟩ := Program.mem_referencesTo_iff.1 reference
      obtain ⟨hr', hresolved'⟩ := Program.mem_referencesTo_iff.1 reference'
      have hidentifier := Carrier.expression.inj hc
      obtain rfl := List.inj_on_of_nodup_map p.nodup_identifiers hr hr' hidentifier
      exact Option.some.inj (hresolved.symm.trans hresolved')

/-- A variable is not read twice at the same place. -/
lemma nodup_readsOf (v : VariableId) : (readsOf p v).Nodup := by
  have hreads : (((p.referencesTo v).filter (·.access.reads)).map (·.identifier)).Nodup :=
    (Program.nodup_referencesTo v).sublist (List.filter_sublist.map _)
  have hmap := hreads.map (f := Carrier.expression) fun _ _ => Carrier.expression.inj
  rwa [List.map_map] at hmap

/-- The place is got to from a read of the variable, without passing through another variable. -/
def Near (p : Program) (v : VariableId) (d : Carrier) : Prop := ∃ c ∈ readsOf p v, Within p c d

/-- A node is near to one variable at most. -/
lemma eq_of_near (h : OneOperand p) (hnode : d.IsNode) (hu : Near p u d) (hv : Near p v d) :
    u = v := by
  obtain ⟨c, hc, hcd⟩ := hu
  obtain ⟨c', hc', hcd'⟩ := hv
  have hread := mem_readsOf_iff.1 hc
  have hread' := mem_readsOf_iff.1 hc'
  obtain rfl := eq_of_within h hread hread' hnode hcd hcd'
  exact eq_of_leads_holder hread hread'

/-! ## A property read is made at one place -/

/-- The node stands in a target with a default. -/
def InDefault (p : Program) (n q : Node) : Prop :=
  p.parent? n = some q ∧ q.kind = .assignmentPattern

lemma inDefault_of_core {c : Node} (h : t.Core c) (ht : p.Has t) :
    Relation.ReflTransGen (InDefault p) c t := by
  induction h with
  | self => exact .refl
  | left isDefault child _ ih =>
    have hparent := ht.parent?_of_mem_children (Shape.mem_children_of_child child)
    exact (ih (ht.child child)).tail ⟨hparent, isDefault⟩

/-- A target that is bound to an expression does not stand in another target. -/
lemma not_inDefault_of_rebinds (he : p.Has e) (h : Rebinds p e (some t)) : ¬InDefault p t q := by
  rintro ⟨hq, hkind⟩
  obtain ⟨q', hq', -, hparts⟩ := Rebinds.parent_target h he
  obtain rfl := Option.some.inj (hq.symm.trans hq')
  rcases hparts with ⟨hkind', -⟩ | ⟨hkind', -⟩ <;> cases hkind.symm.trans hkind'

/-- The place is not a target, or one that is bound to an expression. -/
def Bound (p : Program) (d : Carrier) : Prop :=
  ∀ t, d = .target t → ∃ e, p.Has e ∧ Rebinds p e (some t)

/-- Bound targets that are the same without their defaults are the same. -/
lemma eq_of_core {t' c : Node} (ht : p.Has t) (ht' : p.Has t') (hbound : Bound p (.target t))
    (hbound' : Bound p (.target t')) (h : t.Core c) (h' : t'.Core c) : t = t' := by
  have hunique : Relator.RightUnique (InDefault p) :=
    fun _ _ _ hq hq' => Option.some.inj (hq.1.symm.trans hq'.1)
  obtain ⟨e, he, hrebinds⟩ := hbound t rfl
  obtain ⟨e', he', hrebinds'⟩ := hbound' t' rfl
  rcases Relation.ReflTransGen.total_of_right_unique hunique (inDefault_of_core h ht)
    (inDefault_of_core h' ht') with hway | hway
  · rcases hway.cases_head with rfl | ⟨q, hq, -⟩
    · rfl
    · exact absurd hq (not_inDefault_of_rebinds he hrebinds)
  · rcases hway.cases_head with rfl | ⟨q, hq, -⟩
    · rfl
    · exact absurd hq (not_inDefault_of_rebinds he' hrebinds')

/-- What a target contributes stands in the target. -/
lemma exists_of_contributes_target {r : PropertyRead} (h : Contributes p (.target t) r)
    (ht : p.Has t) : ∃ c, t.Core c ∧ p.parent? r.node = some c ∧ r.node.kind = .property := by
  cases h with
  | property core _ items entries mem =>
    obtain ⟨o, ho, hnames⟩ := exists_of_forall₂ entries mem
    rw [hnames.node_eq] at ho
    have hc := ht.trans core.contains
    have hparent := Program.Has.parent?_of_mem_children hc (Shape.mem_children_of_items items ho)
    refine ⟨_, core, hparent, ?_⟩
    cases hnames with
    | intro isProperty => exact isProperty

lemma exists_of_contributes_expression {r : PropertyRead} (h : Contributes p (.expression e) r) :
    r.node.kind = .memberExpression ∧ r.node.child .object = .ok (some e) := by
  cases h with
  | member _ isMember object => exact ⟨isMember, object⟩

/-- The node of a property read says where the read is made. -/
lemma eq_of_contributes {r r' : PropertyRead} (hc : c.In p) (hd : d.In p) (hbc : Bound p c)
    (hbd : Bound p d) (h : Contributes p c r) (h' : Contributes p d r') (hnode : r.node = r'.node) :
    c = d := by
  cases c with
  | holder v => cases h
  | expression e =>
    obtain ⟨hkind, hobject⟩ := exists_of_contributes_expression h
    cases d with
    | holder v => cases h'
    | expression e' =>
      obtain ⟨-, hobject'⟩ := exists_of_contributes_expression h'
      rw [← hnode, hobject] at hobject'
      rw [Option.some.inj (Except.ok.inj hobject')]
    | target t =>
      obtain ⟨-, -, -, hkind'⟩ := exists_of_contributes_target h' hd
      rw [hnode, hkind'] at hkind
      cases hkind
  | target t =>
    obtain ⟨x, hcore, hparent, hkind⟩ := exists_of_contributes_target h hc
    cases d with
    | holder v => cases h'
    | expression e' =>
      obtain ⟨hkind', -⟩ := exists_of_contributes_expression h'
      rw [hnode, hkind'] at hkind
      cases hkind
    | target t' =>
      obtain ⟨x', hcore', hparent', -⟩ := exists_of_contributes_target h' hd
      rw [← hnode, hparent] at hparent'
      obtain rfl := Option.some.inj hparent'
      rw [eq_of_core hc hd hbc hbd hcore hcore']

/-! ## Runs that keep apart -/

/-- A target within reach of another place is bound to an expression. -/
lemma Within.bound (h : Within p c d) (hin : c.In p) (hc : Bound p c) : Bound p d := by
  induction h with
  | refl => exact hc
  | tail hway hstep _ =>
    rintro t rfl
    have hin := Within.in_program hway hin
    cases hstep.1 with
    | bound rebinds => exact ⟨_, hin, rebinds⟩

lemma Near.in_program (h : Near p v d) : d.In p := by
  obtain ⟨c, hc, hway⟩ := h
  exact hway.in_program (in_of_mem_readsOf hc)

lemma bound_of_mem_readsOf (h : c ∈ readsOf p v) : Bound p c := by
  rintro t rfl
  cases mem_readsOf_iff.1 h

lemma Near.bound (h : Near p v d) : Bound p d := by
  obtain ⟨c, hc, hway⟩ := h
  exact hway.bound (in_of_mem_readsOf hc) (bound_of_mem_readsOf hc)

variable {cs : List Carrier} {m m' m'' : Memo} {f : Found} {fs : List Found}

/-- The place lies on the way of a run from the given places on, which follows the variables that
are in the one list and not in the other. -/
def Touches (p : Program) (cs : List Carrier) (before after : List VariableId) (d : Carrier) :
    Prop :=
  (∃ c ∈ cs, Within p c d) ∨ ∃ v ∈ after, v ∉ before ∧ Near p v d

lemma Touches.of_first {a a' b : List VariableId} (h : Touches p [c] b a d) (hsub : a ⊆ a') :
    Touches p (c :: cs) b a' d := by
  rcases h with ⟨c', hc', hway⟩ | ⟨v, hv, hnew, hnear⟩
  · obtain rfl := List.mem_singleton.1 hc'
    exact .inl ⟨c', List.mem_cons_self, hway⟩
  · exact .inr ⟨v, hsub hv, hnew, hnear⟩

lemma Touches.of_others {a b b' : List VariableId} (h : Touches p cs b' a d) (hsub : b ⊆ b') :
    Touches p (c :: cs) b a d := by
  rcases h with ⟨c', hc', hway⟩ | ⟨v, hv, hnew, hnear⟩
  · exact .inl ⟨c', List.mem_cons_of_mem c hc', hway⟩
  · exact .inr ⟨v, hv, fun hv' => hnew (hsub hv'), hnear⟩

/-- A run from the places on meets nothing that was met before. -/
structure Fresh (p : Program) (cs : List Carrier) (m : Memo) : Prop where
  inside : ∀ c ∈ cs, c.In p
  bound : ∀ c ∈ cs, Bound p c
  apart : cs.Pairwise fun c c' => ∀ d, d.IsNode → Within p c d → ¬Within p c' d
  owned : ∀ c ∈ cs, ∀ d, d.IsNode → Within p c d → ∀ v, Near p v d → v ∈ m.visited
  unknown : ∀ c ∈ cs, ∀ d, Within p c d → m.answer? d = none
  unmet : ∀ v, v ∉ m.visited → ∀ d, Near p v d → m.answer? d = none

lemma Fresh.touches_in (h : Fresh p cs m) {a : List VariableId}
    (hd : Touches p cs m.visited a d) : d.In p ∧ Bound p d := by
  rcases hd with ⟨c, hc, hway⟩ | ⟨v, -, -, hnear⟩
  · exact ⟨hway.in_program (h.inside c hc), hway.bound (h.inside c hc) (h.bound c hc)⟩
  · exact ⟨hnear.in_program, hnear.bound⟩

/-- What one run touches the next one does not. -/
lemma Fresh.not_touches (hone : OneOperand p) (h : Fresh p (c :: cs) m)
    (hsub : m.visited ⊆ m'.visited) {a : List VariableId} (hnode : d.IsNode)
    (hd : Touches p [c] m.visited m'.visited d) : ¬Touches p cs m'.visited a d := by
  obtain ⟨hc, hapart⟩ := List.pairwise_cons.1 h.apart
  rcases hd with ⟨c', hc', hway⟩ | ⟨v, hv, hnew, hnear⟩
  · obtain rfl := List.mem_singleton.1 hc'
    rintro (⟨b, hb, hway'⟩ | ⟨v, -, hnew, hnear⟩)
    · exact hc b hb d hnode hway hway'
    · exact hnew (hsub (h.owned c' List.mem_cons_self d hnode hway v hnear))
  · rintro (⟨b, hb, hway'⟩ | ⟨v', -, hnew', hnear'⟩)
    · exact hnew (h.owned b (List.mem_cons_of_mem c hb) d hnode hway' v hnear)
    · obtain rfl := eq_of_near hone hnode hnear hnear'
      exact hnew' hv

lemma isNode_of_answer? (h : m.answer? d = some f) : d.IsNode := by
  cases d with
  | holder v => cases h
  | _ => trivial

/-- A run that meets nothing twice finds nothing twice. -/
structure Unrepeated (p : Program) (cs : List Carrier) (m : Memo) (fs : List Found) (m' : Memo) :
    Prop where
  memory : ∀ d g, d.In p → m'.answer? d = some g →
    m.answer? d = some g ∨ Touches p cs m.visited m'.visited d
  made : ∀ r ∈ fs.flatMap Found.reads, ∃ d, Touches p cs m.visited m'.visited d ∧ d.IsNode ∧
    Contributes p d r
  nodup : ((fs.flatMap Found.reads).map (·.node)).Nodup

/-- After a run from the first place, the others are still fresh. -/
lemma Fresh.others (hone : OneOperand p) (h : Fresh p (c :: cs) m)
    (hsub : m.visited ⊆ m'.visited) (hfirst : Unrepeated p [c] m [f] m') : Fresh p cs m' where
  inside := (List.forall_mem_cons.1 h.inside).2
  bound := (List.forall_mem_cons.1 h.bound).2
  apart := (List.pairwise_cons.1 h.apart).2
  owned b hb d hnode hway v hnear :=
    hsub (h.owned b (List.mem_cons_of_mem c hb) d hnode hway v hnear)
  unknown b hb d hway := by
    have hin := hway.in_program (h.inside b (List.mem_cons_of_mem c hb))
    by_contra hsome
    obtain ⟨g, hg⟩ := Option.ne_none_iff_exists'.1 hsome
    rcases hfirst.memory d g hin hg with hg | htouches
    · rw [h.unknown b (List.mem_cons_of_mem c hb) d hway] at hg
      cases hg
    · exact h.not_touches hone hsub (a := []) (isNode_of_answer? hg) htouches
        (.inl ⟨b, hb, hway⟩)
  unmet v hv d hnear := by
    by_contra hsome
    obtain ⟨g, hg⟩ := Option.ne_none_iff_exists'.1 hsome
    rcases hfirst.memory d g hnear.in_program hg with hg | htouches
    · rw [h.unmet v (fun hv' => hv (hsub hv')) d hnear] at hg
      cases hg
    · exact h.not_touches hone hsub (a := [v]) (isNode_of_answer? hg) htouches
        (.inr ⟨v, List.mem_cons_self, hv, hnear⟩)

lemma Fresh.first (h : Fresh p (c :: cs) m) : Fresh p [c] m where
  inside := List.forall_mem_singleton.2 (h.inside c List.mem_cons_self)
  bound := List.forall_mem_singleton.2 (h.bound c List.mem_cons_self)
  apart := List.pairwise_singleton _ _
  owned := List.forall_mem_singleton.2 (h.owned c List.mem_cons_self)
  unknown := List.forall_mem_singleton.2 (h.unknown c List.mem_cons_self)
  unmet := h.unmet

/-- If a place is fresh, the next one is. -/
lemma Fresh.next (h : Fresh p [c] m) (hstep : Inside p c d) : Fresh p [d] m where
  inside := List.forall_mem_singleton.2 (hstep.1.in_program (h.inside c List.mem_cons_self))
  bound := by
    have hc := List.mem_singleton_self c
    have hway : Within p c d := .single hstep
    exact List.forall_mem_singleton.2 (hway.bound (h.inside c hc) (h.bound c hc))
  apart := List.pairwise_singleton _ _
  owned := List.forall_mem_singleton.2 fun e he hway =>
    h.owned c List.mem_cons_self e he (.head hstep hway)
  unknown := List.forall_mem_singleton.2 fun e hway =>
    h.unknown c List.mem_cons_self e (.head hstep hway)
  unmet := h.unmet

/-- If a variable has not been followed, its reads are fresh. -/
lemma Fresh.reads (hone : OneOperand p) (h : Fresh p [.holder v] m) (hnew : v ∉ m.visited) :
    Fresh p (readsOf p v) (m.visit v) where
  inside _ hc := in_of_mem_readsOf hc
  bound _ hc := bound_of_mem_readsOf hc
  apart := by
    refine List.Pairwise.imp_of_mem ?_ (nodup_readsOf v)
    intro c c' hc hc' hne d hnode hway hway'
    exact hne (eq_of_within hone (mem_readsOf_iff.1 hc) (mem_readsOf_iff.1 hc') hnode hway hway')
  owned c hc d hnode hway u hnear := by
    rw [eq_of_near hone hnode hnear ⟨c, hc, hway⟩]
    exact List.mem_cons_self
  unknown c hc d hway := by
    rw [Memo.answer?_visit]
    exact h.unmet v hnew d ⟨c, hc, hway⟩
  unmet u hu d hnear := by
    rw [Memo.answer?_visit]
    exact h.unmet u (fun hu' => hu (List.mem_cons_of_mem v hu')) d hnear

/-- What is found in one run after the other is not found twice. -/
lemma Unrepeated.append (hone : OneOperand p) (h : Fresh p (c :: cs) m)
    (hsub : m.visited ⊆ m'.visited) (hsub' : m'.visited ⊆ m''.visited)
    (hfirst : Unrepeated p [c] m [f] m') (hothers : Unrepeated p cs m' fs m'') :
    Unrepeated p (c :: cs) m (f :: fs) m'' := by
  have hreads : [f].flatMap Found.reads = f.reads := List.flatMap_singleton _ _
  have hmade := hfirst.made
  have hnodup := hfirst.nodup
  rw [hreads] at hmade hnodup
  refine ⟨?_, ?_, ?_⟩
  · intro d g hin hg
    rcases hothers.memory d g hin hg with hg | htouches
    · exact (hfirst.memory d g hin hg).imp_right fun hd => hd.of_first hsub'
    · exact .inr (htouches.of_others hsub)
  · intro r hr
    rw [List.flatMap_cons] at hr
    rcases List.mem_append.1 hr with hr | hr
    · obtain ⟨d, hd, hrest⟩ := hmade r hr
      exact ⟨d, hd.of_first hsub', hrest⟩
    · obtain ⟨d, hd, hrest⟩ := hothers.made r hr
      exact ⟨d, hd.of_others hsub, hrest⟩
  · rw [List.flatMap_cons, List.map_append, List.nodup_append]
    refine ⟨hnodup, hothers.nodup, ?_⟩
    intro n hn n' hn' heq
    obtain ⟨r, hr, rfl⟩ := List.mem_map.1 hn
    obtain ⟨r', hr', rfl⟩ := List.mem_map.1 hn'
    obtain ⟨d, hd, hnode, hcontributes⟩ := hmade r hr
    obtain ⟨d', hd', -, hcontributes'⟩ := hothers.made r' hr'
    obtain ⟨hin, hbound⟩ := h.first.touches_in hd
    obtain ⟨hin', hbound'⟩ := (h.others hone hsub hfirst).touches_in hd'
    obtain rfl := eq_of_contributes hin hin' hbound hbound' hcontributes hcontributes' heq
    exact h.not_touches hone hsub hnode hd hd'

/-- A run of one place that is remembered afterwards finds nothing twice. -/
lemma Unrepeated.remember (hin : c.In p) (h : Unrepeated p [c] m [f] m') :
    Unrepeated p [c] m [f] (m'.remember f c) where
  memory d g hd hg := by
    rw [Memo.visited_remember]
    rcases Memo.answer?_remember hin hd hg with ⟨rfl, -⟩ | hg
    · exact .inr (.inl ⟨d, List.mem_cons_self, .refl⟩)
    · exact h.memory d g hd hg
  made := by simpa using h.made
  nodup := h.nodup

/-- What is taken from a run without repetition into a wider one is not repeated there. -/
lemma Unrepeated.widen {cs' : List Carrier} {gs : List Found} {n : Memo}
    (h : Unrepeated p cs m fs m')
    (htouches : ∀ d, Touches p cs m.visited m'.visited d → Touches p cs' n.visited m'.visited d)
    (hanswer : ∀ d, m.answer? d = n.answer? d)
    (hreads : (gs.flatMap Found.reads).Sublist (fs.flatMap Found.reads)) :
    Unrepeated p cs' n gs m' where
  memory d g hd hg := by
    rw [← hanswer]
    exact (h.memory d g hd hg).imp_right (htouches d)
  made r hr := by
    obtain ⟨d, hd, hrest⟩ := h.made r (hreads.subset hr)
    exact ⟨d, htouches d hd, hrest⟩
  nodup := h.nodup.sublist (hreads.map _)

lemma reads_merge_sublist (fs : List Found) :
    ([Found.merge fs].flatMap Found.reads).Sublist (fs.flatMap Found.reads) := by
  rw [List.flatMap_singleton]
  cases hany : (Found.merge fs).isAny with
  | true =>
    rw [Found.reads_of_isAny hany]
    exact List.nil_sublist _
  | false => rw [Found.reads_merge hany]

lemma Runs.unrepeated (hone : OneOperand p) (h : Runs p cs m fs m') (hfresh : Fresh p cs m) :
    Unrepeated p cs m fs m' := by
  induction h with
  | done => exact ⟨fun d g _ hg => .inl hg, nofun, List.nodup_nil⟩
  | more first others ih ih' =>
    have hfirst := ih hfresh.first
    have hothers := ih' (hfresh.others hone first.visited_subset hfirst)
    exact hfirst.append hone hfresh first.visited_subset others.visited_subset hothers
  | visited => exact ⟨fun d g _ hg => .inl hg, nofun, List.nodup_nil⟩
  | @reads v m m' fs new run ih =>
    have hv : v ∈ m'.visited := run.visited_subset List.mem_cons_self
    refine (ih (hfresh.reads hone new)).widen ?_ (fun _ => Memo.answer?_visit v)
      (reads_merge_sublist fs)
    rintro d (⟨c, hc, hway⟩ | ⟨u, hu, hnew, hnear⟩)
    · exact .inr ⟨v, hv, new, c, hc, hway⟩
    · exact .inr ⟨u, hu, fun hu' => hnew (List.mem_cons_of_mem v hu'), hnear⟩
  | recalled memory =>
    rw [hfresh.unknown _ List.mem_cons_self _ .refl] at memory
    cases memory
  | @ended c m f isNode new found =>
    have hin := hfresh.inside c List.mem_cons_self
    have hdescribes := describes_ahead hin isNode
    refine Unrepeated.remember hin ⟨fun d g _ hg => .inl hg, ?_, ?_⟩
    · intro r hr
      rw [List.flatMap_singleton] at hr
      refine ⟨c, .inl ⟨c, List.mem_cons_self, .refl⟩, isNode, ?_⟩
      exact (hdescribes.contributes r).2 ⟨f, found, hr⟩
    · rw [List.flatMap_singleton]
      exact hdescribes.distinct f found
  | @led c d m m' f isNode new next run ih =>
    have hin := hfresh.inside c List.mem_cons_self
    have hstep : Inside p c d := ⟨leads_of_ahead hin isNode next, isNode⟩
    refine Unrepeated.remember hin ((ih (hfresh.next hstep)).widen ?_ (fun _ => rfl) (.refl _))
    rintro e (⟨b, hb, hway⟩ | hrest)
    · obtain rfl := List.mem_singleton.1 hb
      exact .inl ⟨c, List.mem_cons_self, .head hstep hway⟩
    · exact .inr hrest

/-- To a fresh extractor, a variable is fresh. -/
lemma fresh_holder (hv : v ∈ p.graph.variableIds) : Fresh p [.holder v] {} where
  inside := List.forall_mem_singleton.2 hv
  bound := List.forall_mem_singleton.2 nofun
  apart := List.pairwise_singleton _ _
  owned := List.forall_mem_singleton.2 fun d hnode hway => by
    rw [within_holder_iff.1 hway] at hnode
    cases hnode
  unknown := List.forall_mem_singleton.2 fun d hway => by
    rw [within_holder_iff.1 hway]
    rfl
  unmet v _ d _ := by cases d <;> rfl

/-- What a fresh extractor finds for a pattern has no repetitions. -/
lemma Runs.nodup (hone : OneOperand p) (h : Runs p [.target t] {} [f] m') (ht : p.Has t) :
    (f.reads.map (·.node)).Nodup := by
  have hin : Carrier.In p (.target t) := ht
  cases h with
  | recalled memory => cases memory
  | ended isNode new found => exact (describes_ahead hin isNode).distinct f found
  | led isNode new next run =>
    -- The pattern itself is not fresh, since its variable may be bound in it, but the variable is.
    cases leads_of_ahead hin isNode next with
    | name _ _ means =>
      have hnodup := (run.unrepeated hone (fresh_holder (mem_variableIds_of_find means))).nodup
      rwa [List.flatMap_singleton] at hnodup

end Property

end RefFlow
