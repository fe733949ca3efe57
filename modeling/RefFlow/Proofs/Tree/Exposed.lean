import Mathlib.Data.List.Flatten
import Mathlib.Data.List.Nodup
import Mathlib.Data.List.Perm.Subperm
import RefFlow.Proofs.Tree.Places

/-!
# Names that only label something

Not every identifier below a node is an expression.  The name of a member, the key of a property and
the names by which an import or export is known outside the module are *labels*
(`Node.Labels`).  A part of a node may be *hidden* for that reason, and `Tree.exposed` lists what is
left: the nodes below a node that a traversal may go on to.

Where all nodes of a tree have different numbers (`Node.Distinct`), as they have after the
conversion, no node is met twice (`subperm_exposed`), and no label is ever met
(`Distinct.not_labels`).
-/

namespace RefFlow

open Fallible

/-! ## Pieces of lists -/

lemma subperm_flatMap {α β : Type} {as bs : List α} (h : as.Subperm bs) (f : α → List β) :
    (as.flatMap f).Subperm (bs.flatMap f) := by
  obtain ⟨cs, hperm, hsub⟩ := h
  exact (hperm.symm.flatMap_right f).subperm.trans (hsub.flatMap f).subperm

lemma subperm_flatMap_of_forall {α β : Type} {as : List α} {f g : α → List β}
    (h : ∀ a ∈ as, (f a).Subperm (g a)) : (as.flatMap f).Subperm (as.flatMap g) := by
  induction as with
  | nil => exact .refl _
  | cons a as ih =>
    rw [List.flatMap_cons, List.flatMap_cons]
    exact (h a List.mem_cons_self).append (ih fun b hb => h b (List.mem_cons_of_mem a hb))

lemma nodup_of_subperm {α : Type} {as bs : List α} (h : as.Subperm bs) (hbs : bs.Nodup) :
    as.Nodup := by
  obtain ⟨cs, hperm, hsub⟩ := h
  exact hperm.nodup_iff.1 (hbs.sublist hsub)

/-! ## Parts that are hidden -/

namespace Shape

variable {τ σ : Type} (s : Shape τ)

/-- The nodes in a part. -/
def below (f : Field) : List τ := (s.slot? f).elim [] Slot.children

/-- What stands in the part is not met as such.  It is the name of a member, unless that is
computed, or the list of names that are imported or exported, of which only the local ones are
met. -/
def hides (f : Field) : Bool :=
  match s.kind, f with
  | .memberExpression, .property
  | .property, .key | .methodDefinition, .key | .propertyDefinition, .key =>
    match s.flag .computed with
    | .ok computed => !computed
    | .error _ => false
  | .importDeclaration, .specifiers | .exportNamedDeclaration, .specifiers => true
  | _, _ => false

/-- The nodes right below a node that are not hidden, in order. -/
def visible : List τ := (s.fields.filter fun e => !s.hides e.1).flatMap (·.2.children)

/-- The nodes right below a node that are hidden, in order. -/
def hidden : List τ := (s.fields.filter fun e => s.hides e.1).flatMap (·.2.children)

variable {s} {f : Field}

lemma visible_append_hidden_perm : (s.visible ++ s.hidden).Perm s.children := by
  have hfilter := List.filter_append_perm (fun e => !s.hides e.1) s.fields
  simp only [Bool.not_not] at hfilter
  rw [visible, hidden, ← List.flatMap_append]
  exact hfilter.flatMap_right _

/-- Different parts of a node are disjoint pieces of what is below it. -/
lemma flatMap_lookup_subperm {fs : List Field} (hfs : fs.Nodup) (es : List (Field × Slot τ)) :
    (fs.flatMap fun f => (es.lookup f).elim [] Slot.children).Subperm
      (es.flatMap (·.2.children)) := by
  induction es generalizing fs with
  | nil => simp
  | cons e es ih =>
    obtain ⟨g, v⟩ := e
    have hrest {gs : List Field} (hg : g ∉ gs) :
        (gs.flatMap fun f => (((g, v) :: es).lookup f).elim [] Slot.children) =
          gs.flatMap fun f => (es.lookup f).elim [] Slot.children := by
      refine List.flatMap_congr fun f hf => ?_
      have hne : f ≠ g := fun heq => hg (heq ▸ hf)
      rw [List.lookup_cons, beq_false_of_ne hne]
    rw [List.flatMap_cons]
    by_cases hg : g ∈ fs
    · -- The first part is taken out of the list of parts.
      have hperm := List.perm_cons_erase hg
      have hnot : g ∉ fs.erase g := List.Nodup.not_mem_erase hfs
      refine (hperm.flatMap_right _).subperm.trans ?_
      rw [List.flatMap_cons, hrest hnot, List.lookup_cons_self]
      exact (List.subperm_append_left _).2 (ih (hfs.erase g))
    · rw [hrest hg]
      exact (ih hfs).trans (List.sublist_append_right _ _).subperm

lemma below_flatMap_subperm {fs : List Field} (hfs : fs.Nodup) :
    (fs.flatMap s.below).Subperm s.children :=
  flatMap_lookup_subperm hfs s.fields

lemma lookup_filter {p : Field → Bool} (hf : p f = true) (es : List (Field × Slot τ)) :
    (es.filter fun e => p e.1).lookup f = es.lookup f := by
  induction es with
  | nil => rfl
  | cons e es ih =>
    obtain ⟨g, v⟩ := e
    by_cases hg : f = g
    · subst hg
      simp [hf]
    · have hne : (f == g) = false := beq_false_of_ne hg
      by_cases hp : p g = true <;> simp [hp, List.lookup_cons, hne, ih]

/-- Parts that are not hidden are disjoint pieces of what is visible. -/
lemma below_flatMap_subperm_visible {fs : List Field} (hfs : fs.Nodup)
    (hvisible : ∀ f ∈ fs, s.hides f = false) : (fs.flatMap s.below).Subperm s.visible := by
  have heq : fs.flatMap s.below = fs.flatMap fun f =>
      ((s.fields.filter fun e => !s.hides e.1).lookup f).elim [] Slot.children := by
    refine List.flatMap_congr fun f hf => ?_
    have hnot : (!s.hides f) = true := by rw [hvisible f hf]; rfl
    rw [lookup_filter (p := fun f => !s.hides f) hnot]
    rfl
  rw [heq]
  exact flatMap_lookup_subperm hfs _

lemma below_subperm_hidden (hf : s.hides f = true) : (s.below f).Subperm s.hidden := by
  have hsub := flatMap_lookup_subperm (List.nodup_singleton f)
    (s.fields.filter fun e => s.hides e.1)
  rw [List.flatMap_singleton, lookup_filter hf s.fields] at hsub
  exact hsub

lemma below_subperm_children : (s.below f).Subperm s.children := by
  have hsub := below_flatMap_subperm (s := s) (List.nodup_singleton f)
  rwa [List.flatMap_singleton] at hsub

lemma slot?_of_slot {v : Slot τ} (h : s.slot f = .ok v) : s.slot? f = some v := by
  unfold slot at h
  split at h
  · rename_i w hw
    cases h
    exact hw
  · cases h

lemma below_of_child {o : Option τ} (h : s.child f = .ok o) : o.toList.Sublist (s.below f) := by
  obtain ⟨v, hv, h⟩ := bind_ok_iff.1 h
  rw [below, slot?_of_slot hv]
  cases v with
  | node t =>
    rw [← pure_ok_iff.1 h]
    exact .refl _
  | _ =>
    rw [← pure_ok_iff.1 h]
    exact List.nil_sublist _

lemma below_of_items {ts : List (Option τ)} (h : s.items f = .ok ts) :
    s.below f = ts.filterMap id := by
  obtain ⟨v, hv, h⟩ := bind_ok_iff.1 h
  rw [below, slot?_of_slot hv]
  cases v with
  | list us =>
    rw [← pure_ok_iff.1 h]
    rfl
  | _ => exact absurd h throw_ne_ok

@[simp] lemma below_map (g : τ → σ) : (s.map g).below f = (s.below f).map g := by
  rw [below, below, slot?_map]
  cases s.slot? f <;> simp

/-- Only a few parts are ever hidden. -/
lemma hides_of_field (hf : f ∉ [Field.property, .key, .specifiers]) : s.hides f = false := by
  simp only [List.mem_cons, List.not_mem_nil, or_false, not_or] at hf
  unfold hides
  split
  all_goals simp_all

/-- Only a few kinds hide anything. -/
lemma hides_of_kind (hk : s.kind ∉ [Kind.memberExpression, .property, .methodDefinition,
    .propertyDefinition, .importDeclaration, .exportNamedDeclaration]) : s.hides f = false := by
  simp only [List.mem_cons, List.not_mem_nil, or_false, not_or] at hk
  unfold hides
  split
  all_goals simp_all

/-- A computed name is not hidden. -/
lemma hides_of_computed (hc : s.flag .computed = .ok true) (hf : f ≠ .specifiers) :
    s.hides f = false := by
  unfold hides
  split
  all_goals simp_all

lemma visible_of_hides (h : ∀ f, s.hides f = false) : s.visible = s.children := by
  simp [visible, children, h]

end Shape

/-- What a traversal goes on to from the root of a tree: the visible nodes right below it, and the
local names of an import or export. -/
def Tree.exposed {α : Type} (t : Tree α) : List (Tree α) :=
  t.shape.visible ++ if t.shape.hides .specifiers then
    (t.shape.below .specifiers).flatMap (·.shape.below .localName) else []

namespace Node

variable {root n m c x : Node}

/-! ## All nodes of a tree -/

/-- All nodes of a tree, each before those below it. -/
def nodes (n : Node) : List Node := (n.places []).map (·.node)

lemma map_node_places (n : Node) (above : List Node) :
    (n.places above).map (·.node) = n.nodes := by
  rw [nodes]
  induction n using Tree.induction generalizing above with
  | step n ih =>
    rw [places_eq, places_eq n [], List.map_cons, List.map_cons, List.map_flatMap, List.map_flatMap]
    refine congrArg (n :: ·) (List.flatMap_congr fun c hc => ?_)
    rw [ih c hc, ih c hc [n]]

lemma nodes_eq (n : Node) : n.nodes = n :: n.children.flatMap nodes := by
  rw [nodes, places_eq, List.map_cons, List.map_flatMap]
  exact congrArg (n :: ·) (List.flatMap_congr fun c _ => map_node_places c [n])

lemma mem_nodes_iff : m ∈ n.nodes ↔ n.Contains m := by
  constructor
  · intro h
    obtain ⟨q, hq, rfl⟩ := List.mem_map.1 h
    exact contains_of_mem_places hq
  · intro h
    obtain ⟨way, hway⟩ := Contains.exists_place h []
    exact List.mem_map.2 ⟨_, hway, rfl⟩

lemma nodes_sublist (h : n.Contains m) : m.nodes.Sublist n.nodes := by
  induction h using Relation.ReflTransGen.head_induction_on with
  | refl => exact .refl _
  | @head a c hc _ ih =>
    rw [nodes_eq a]
    exact ih.trans (((List.sublist_flatten_of_mem (List.mem_map_of_mem hc)).trans
      (by rw [List.flatMap_def])).cons a)

lemma children_sublist_nodes (n : Node) : n.children.Sublist n.nodes := by
  have hself := List.Sublist.flatMap_right n.children (f := fun c => [c]) (g := nodes)
    fun c _ => by rw [nodes_eq]; exact (List.nil_sublist _).cons_cons c
  rw [List.flatMap_singleton'] at hself
  rw [nodes_eq]
  exact hself.cons n

/-- What a traversal goes on to are disjoint pieces of what is below. -/
lemma subperm_exposed (n : Node) :
    (n.exposed.flatMap nodes).Subperm (n.children.flatMap nodes) := by
  have hchildren : (n.shape.visible ++ n.shape.hidden).flatMap nodes |>.Perm
      (n.children.flatMap nodes) := Shape.visible_append_hidden_perm.flatMap_right nodes
  refine List.Subperm.trans ?_ hchildren.subperm
  rw [Tree.exposed, List.flatMap_append, List.flatMap_append]
  refine (List.subperm_append_left _).2 ?_
  split
  · rename_i hhides
    rw [List.flatMap_assoc]
    refine (subperm_flatMap_of_forall fun t _ => ?_).trans
      (subperm_flatMap (Shape.below_subperm_hidden hhides) nodes)
    rw [nodes_eq t]
    exact (subperm_flatMap Shape.below_subperm_children nodes).cons_right t
  · exact List.nil_subperm

lemma contains_of_mem_exposed (h : m ∈ n.exposed) : n.Contains m := by
  have hm : m ∈ n.exposed.flatMap nodes :=
    List.mem_flatMap.2 ⟨m, h, mem_nodes_iff.2 (.refl m)⟩
  rw [← mem_nodes_iff, nodes_eq]
  exact List.mem_cons_of_mem n ((subperm_exposed n).subset hm)

/-! ## Different numbers -/

/-- No two nodes of the tree have the same number. -/
def Distinct (n : Node) : Prop := (n.nodes.map Node.id).Nodup

/-- The nodes of a tree keep their order when they are labelled anew. -/
lemma nodes_annotate (rule : Node → Shape Node → Nat) (n : Node) :
    nodes (n.annotate rule) = n.nodes.map (Tree.annotate rule) := by
  induction n using Tree.induction with
  | step n ih =>
    have hchildren : (n.annotate rule).children = n.children.map (Tree.annotate rule) := by
      rw [Tree.children, Tree.shape_annotate, Shape.children_map]
      rfl
    rw [nodes_eq, nodes_eq n, hchildren, List.flatMap_map, List.map_cons, List.map_flatMap]
    exact congrArg _ (List.flatMap_congr ih)

/-- Where every label belongs to one node, the nodes are numbered one after the other, from zero on.
-/
lemma Distinct.ids_numbered (h : n.Distinct) :
    n.numbered.nodes.map Node.id = List.range n.numbered.nodes.length := by
  have hlabels : (n.places []).map (·.node.label) = n.nodes.map Node.id := by
    rw [nodes, List.map_map]
    rfl
  have hids : n.numbered.nodes.map Node.id =
      (n.nodes.map Node.id).map (n.nodes.map Node.id).idxOf := by
    simp only [Tree.numbered, nodes_annotate, hlabels, List.map_map]
    exact List.map_congr_left fun m _ => Tree.label_annotate ..
  have hlength : n.numbered.nodes.length = (n.nodes.map Node.id).length := by
    rw [Tree.numbered, nodes_annotate, List.length_map, List.length_map]
  rw [hids, hlength]
  refine List.ext_getElem (by simp) fun i hi _ => ?_
  rw [List.getElem_map, h.idxOf_getElem, List.getElem_range]

namespace Distinct

variable (h : root.Distinct)

include h

lemma of_contains (hn : root.Contains n) : n.Distinct :=
  h.sublist ((nodes_sublist hn).map _)

lemma eq_of_id_eq (hn : root.Contains n) (hm : root.Contains m) (he : n.id = m.id) : n = m :=
  List.inj_on_of_nodup_map h (mem_nodes_iff.2 hn) (mem_nodes_iff.2 hm) he

/-- A node does not stand below itself. -/
lemma not_contains (hc : c ∈ root.children) : ¬c.Contains root := by
  intro hroot
  rw [Distinct, nodes_eq, List.map_cons, List.nodup_cons] at h
  apply h.1
  exact List.mem_map_of_mem (List.mem_flatMap.2 ⟨c, hc, mem_nodes_iff.2 hroot⟩)

/-- A node stands right below one node at most. -/
lemma eq_of_mem_children (hn : root.Contains n) (hm : root.Contains m) (hcn : c ∈ n.children)
    (hcm : c ∈ m.children) : n = m := by
  obtain ⟨way, hway⟩ := Contains.exists_place hn []
  obtain ⟨way', hway'⟩ := Contains.exists_place hm []
  have hids : ((root.places []).map (·.node.id)).Nodup := by
    rwa [Distinct, nodes, List.map_map] at h
  have heq := List.inj_on_of_nodup_map hids (mem_places_child hway hcn)
    (mem_places_child hway' hcm) rfl
  injection heq with _ habove
  exact (List.cons.inj habove).1

lemma nodup_children : root.children.Nodup :=
  (List.Nodup.sublist ((children_sublist_nodes root).map _) h).of_map _

/-- Different parts have no node in common. -/
lemma not_mem_below {f g : Field} (hfg : f ≠ g) (hf : c ∈ root.shape.below f) :
    c ∉ root.shape.below g := by
  have hfs : [f, g].Nodup := by simpa using hfg
  have hsub := Shape.below_flatMap_subperm (s := root.shape) hfs
  simp only [List.flatMap_cons, List.flatMap_nil, List.append_nil] at hsub
  obtain ⟨-, -, hdisjoint⟩ := List.nodup_append.1 (nodup_of_subperm hsub h.nodup_children)
  exact fun hg => hdisjoint c hf c hg rfl

/-- What is hidden is not visible. -/
lemma not_mem_visible {f : Field} (hhides : root.shape.hides f = true)
    (hf : c ∈ root.shape.below f) : c ∉ root.shape.visible := by
  have hnodup := Shape.visible_append_hidden_perm.nodup_iff.2 h.nodup_children
  obtain ⟨-, -, hdisjoint⟩ := List.nodup_append.1 hnodup
  exact fun hv => hdisjoint c hv c ((Shape.below_subperm_hidden hhides).subset hf) rfl

end Distinct

/-! ## Labels -/

/-- The node stands for a name only: it is the name of a member or the key of a property, a method
or a field that is not computed, or a name by which another module knows what is imported from it,
or by which other modules know what is exported. -/
inductive Labels (n : Node) : Node → Prop
  | member {c : Node} (kind : n.kind = .memberExpression) (plain : n.flag .computed = .ok false)
      (child : n.child .property = .ok (some c)) : Labels n c
  | key {c : Node} (kind : n.kind ∈ [.property, .methodDefinition, .propertyDefinition])
      (plain : n.flag .computed = .ok false) (child : n.child .key = .ok (some c)) : Labels n c
  | imported {ts : List (Option Node)} {m c : Node} (kind : n.kind = .importDeclaration)
      (items : n.items .specifiers = .ok ts) (mem : some m ∈ ts)
      (child : m.child .imported = .ok (some c)) : Labels n c
  | exported {ts : List (Option Node)} {m c : Node} (kind : n.kind = .exportNamedDeclaration)
      (items : n.items .specifiers = .ok ts) (mem : some m ∈ ts)
      (child : m.child .exported = .ok (some c)) : Labels n c

/-- A traversal of the first node gets to the second one. -/
def Reaches : Node → Node → Prop := Relation.ReflTransGen fun a b => b ∈ a.exposed

lemma Reaches.contains (h : n.Reaches m) : n.Contains m := by
  induction h with
  | refl => exact .refl _
  | tail _ hm ih => exact ih.trans (contains_of_mem_exposed hm)

lemma mem_below_of_child {f : Field} (h : n.child f = .ok (some c)) : c ∈ n.shape.below f :=
  (Shape.below_of_child h).subset (List.mem_singleton_self c)

lemma mem_below_of_items {f : Field} {ts : List (Option Node)} (h : n.items f = .ok ts)
    (hc : some c ∈ ts) : c ∈ n.shape.below f := by
  rw [Shape.below_of_items h]
  exact List.mem_filterMap.2 ⟨some c, hc, rfl⟩

lemma mem_children_of_mem_below {f : Field} (h : c ∈ n.shape.below f) : c ∈ n.children :=
  Shape.below_subperm_children.subset h

namespace Distinct

variable (h : root.Distinct)

include h

/-- What a traversal gets to is the root, or stands in a node that the traversal has got to: it is
visible there, or it is a local name of an import or export. -/
lemma exists_parent_of_reaches (hx : root.Reaches x) (hn : root.Contains n) (hxn : x ∈ n.children) :
    (root.Reaches n ∧ x ∈ n.shape.visible) ∨
      x ∈ n.shape.below .localName ∧
        ∃ m, root.Reaches m ∧ m.shape.hides .specifiers = true ∧ n ∈ m.shape.below .specifiers := by
  rcases hx.cases_tail with rfl | ⟨m, hm, hx⟩
  · exact absurd hn ((h.of_contains hn).not_contains hxn)
  · have hm : root.Reaches m := hm
    rcases List.mem_append.1 hx with hx | hx
    · have hxm : x ∈ m.children :=
        Shape.visible_append_hidden_perm.subset (List.mem_append_left _ hx)
      obtain rfl := h.eq_of_mem_children hn hm.contains hxn hxm
      exact .inl ⟨hm, hx⟩
    · split at hx
      · rename_i hhides
        obtain ⟨t, ht, hx⟩ := List.mem_flatMap.1 hx
        have htm := Tree.contains_child (mem_children_of_mem_below ht)
        obtain rfl := h.eq_of_mem_children hn (hm.contains.trans htm) hxn
          (mem_children_of_mem_below hx)
        exact .inr ⟨hx, m, hm, hhides, ht⟩
      · cases hx

/-- A traversal does not get to what is hidden, except for the local names of an import or
export. -/
lemma not_reaches_of_hides (hn : root.Contains n) {f : Field} (hhides : n.shape.hides f = true)
    (hx : x ∈ n.shape.below f) (hf : f ≠ .localName) : ¬root.Reaches x := by
  intro hreaches
  rcases h.exists_parent_of_reaches hreaches hn (mem_children_of_mem_below hx) with
    ⟨-, hvisible⟩ | ⟨hname, -⟩
  · exact (h.of_contains hn).not_mem_visible hhides hx hvisible
  · exact (h.of_contains hn).not_mem_below hf hx hname

/-- Of what an import or export names, a traversal gets to the local names only. -/
lemma not_reaches_of_specifier (hn : root.Contains n) (hhides : n.shape.hides .specifiers = true)
    (hm : m ∈ n.shape.below .specifiers) {f : Field} (hx : x ∈ m.shape.below f)
    (hf : f ≠ .localName) : ¬root.Reaches x := by
  intro hreaches
  have hmn := hn.trans (Tree.contains_child (mem_children_of_mem_below hm))
  rcases h.exists_parent_of_reaches hreaches hmn (mem_children_of_mem_below hx) with
    ⟨hreaches, -⟩ | ⟨hname, -⟩
  · exact h.not_reaches_of_hides hn hhides hm (by decide) hreaches
  · exact (h.of_contains hmn).not_mem_below hf hx hname

/-- **A traversal never gets to a label.** -/
lemma not_labels (hn : root.Contains n) (hx : root.Reaches x) : ¬n.Labels x := by
  intro hlabels
  cases hlabels with
  | member kind plain child =>
    have hkind : n.shape.kind = .memberExpression := kind
    have hplain : n.shape.flag .computed = .ok false := plain
    have hhides : n.shape.hides .property = true := by simp [Shape.hides, hkind, hplain]
    exact h.not_reaches_of_hides hn hhides (mem_below_of_child child) (by decide) hx
  | key kind plain child =>
    have hplain : n.shape.flag .computed = .ok false := plain
    have hhides : n.shape.hides .key = true := by
      have hkind : n.shape.kind ∈ [.property, .methodDefinition, .propertyDefinition] := kind
      simp only [List.mem_cons, List.not_mem_nil, or_false] at hkind
      rcases hkind with hk | hk | hk <;> simp [Shape.hides, hk, hplain]
    exact h.not_reaches_of_hides hn hhides (mem_below_of_child child) (by decide) hx
  | imported kind items mem child =>
    have hkind : n.shape.kind = .importDeclaration := kind
    have hhides : n.shape.hides .specifiers = true := by simp [Shape.hides, hkind]
    exact h.not_reaches_of_specifier hn hhides (mem_below_of_items items mem)
      (mem_below_of_child child) (by decide) hx
  | exported kind items mem child =>
    have hkind : n.shape.kind = .exportNamedDeclaration := kind
    have hhides : n.shape.hides .specifiers = true := by simp [Shape.hides, hkind]
    exact h.not_reaches_of_specifier hn hhides (mem_below_of_items items mem)
      (mem_below_of_child child) (by decide) hx

end Distinct

end Node

end RefFlow
