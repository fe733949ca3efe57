import RefFlow.Proofs.Fault.Follow
import RefFlow.Proofs.RefObject.Flow
import RefFlow.Reactive

/-!
# When the extraction of references fails

A program may contain broken code and constructs that nobody has heard of.  The conversion gives a
node for each of them, and scope analysis goes on, but the extraction of references asks nodes for
their parts by their kinds.  This module follows both extractions and shows that whatever makes them
fail can be blamed on a node of the program (`RefObject.failsBy_extract`,
`Reactive.failsBy_extract`).

* `Property.Excused` says it of computations that remember what they have found: whatever they
  remember, a fault of theirs can be blamed.
* `RefObject.Blaming` says it of the walk along the re-bindings of a reference object, in
  continuation-passing style.
* `Node.identifiers_eq` describes the identifiers of a pattern, which are computed over a whole
  tree, by a rule for one node, so that faults can be followed down the pattern.

`Program.extract_ok_or_blames` is the result for programs, and `Program.unknownDeclaration` a
program on which both extractions do fail.
-/

namespace RefFlow

open Fallible

/-! ## Property reads -/

namespace Property

variable {α β : Type} {B : Fault → Prop}

/-- Whatever is remembered, if the computation fails, the fault satisfies the condition. -/
def Excused (B : Fault → Prop) (x : Extractor α) : Prop := ∀ m : Memo, FailsBy B (x.run.run m).1

lemma excused_pure {a : α} : Excused B (pure a : Extractor α) := fun _ => failsBy_ok

lemma excused_throw {e : Fault} (h : B e) : Excused B (throw e : Extractor α) :=
  fun _ => failsBy_throw h

lemma Excused.bind {x : Extractor α} {k : α → Extractor β} (hx : Excused B x)
    (hk : ∀ a, Excused B (k a)) : Excused B (x >>= k) := by
  intro m
  have hxm := hx m
  rw [run_bind]
  rcases h : x.run.run m with ⟨e | a, m'⟩
  · rw [h] at hxm
    exact failsBy_throw (hxm e rfl)
  · exact hk a m'

lemma excused_lift {x : Except Fault α} (h : FailsBy B x) : Excused B (liftM x : Extractor α) := by
  intro m
  cases x with
  | error e => exact failsBy_throw (h e rfl)
  | ok a => exact failsBy_ok

/-- The computation goes on from a single result. -/
lemma excused_lift_bind {x : Except Fault α} {k : α → Extractor β} (hx : FailsBy B x)
    (hk : ∀ a, x = .ok a → Excused B (k a)) : Excused B ((liftM x : Extractor α) >>= k) := by
  intro m
  rw [run_bind]
  cases x with
  | error e => exact failsBy_throw (hx e rfl)
  | ok a => exact hk a rfl m

lemma excused_get : Excused B (MonadState.get : Extractor Memo) := fun _ => failsBy_ok

lemma excused_modify {f : Memo → Memo} : Excused B (modify f : Extractor PUnit) :=
  fun _ => failsBy_ok

lemma excused_mapM {f : α → Extractor β} {as : List α} (h : ∀ a ∈ as, Excused B (f a)) :
    Excused B (as.mapM f) := by
  induction as with
  | nil => exact excused_pure
  | cons a as ih =>
    rw [List.mapM_cons]
    refine (h a List.mem_cons_self).bind fun b => ?_
    exact (ih fun c hc => h c (List.mem_cons_of_mem a hc)).bind fun bs => excused_pure

/-- Remembering a result adds no fault. -/
lemma Excused.remembering {compute : Extractor Found} (h : Excused B compute)
    (get : Memo → Table Nat Found) (put : Table Nat Found → Memo → Memo) (n : Node) :
    Excused B (remembering get put n compute) := by
  refine excused_get.bind fun m => ?_
  split
  · exact excused_pure
  · exact h.bind fun f => excused_modify.bind fun _ => excused_pure

lemma Excused.rememberingPattern {compute : Extractor Found} (h : Excused B compute) (n : Node) :
    Excused B (rememberingPattern n compute) :=
  h.remembering _ _ n

lemma Excused.rememberingExpression {compute : Extractor Found} (h : Excused B compute)
    (n : Node) : Excused B (rememberingExpression n compute) :=
  h.remembering _ _ n

variable {p : Program} {s : Scope} (hs : p.Global s)

lemma failsBy_patternRead {n : Node} (h : p.Has n) : FailsBy p.Blames (patternRead n) := by
  unfold patternRead
  split
  · rename_i hkind
    have hkind : n.kind = .property := by simpa using hkind
    refine (h.failsBy_staticName (.inr hkind)).bind fun name _ => ?_
    cases name with
    | none => exact failsBy_pure
    | some name => exact (h.failsBy_child hkind (by decide)).bind fun _ _ => failsBy_pure
  · exact failsBy_ok

lemma failsBy_objectReads {ts : List (Option Node)} (h : ∀ t ∈ ts, ∃ c, t = some c ∧ p.Has c) :
    FailsBy p.Blames (objectReads ts) := by
  induction ts with
  | nil => exact failsBy_ok
  | cons t ts ih =>
    obtain ⟨⟨c, rfl, hc⟩, hts⟩ := List.forall_mem_cons.1 h
    refine (failsBy_patternRead hc).bind fun r _ => ?_
    cases r with
    | none => exact failsBy_pure
    | some r =>
      refine (ih hts).bind fun f _ => ?_
      cases f <;> exact failsBy_pure

variable {onVariable : VariableId → Extractor Found} (hv : ∀ v, Excused p.Blames (onVariable v))

include hs hv

lemma excused_pattern {o : Option Node} (h : ∀ n ∈ o, p.Has n) :
    Excused p.Blames (pattern p onVariable o) := by
  cases o with
  | none => exact excused_pure
  | some n =>
    have hn := h n rfl
    refine Excused.rememberingPattern ?_ n
    refine excused_lift_bind hn.failsBy_withoutDefault fun c hc => ?_
    cases c with
    | none => exact excused_throw (hn.blames_of_withoutDefault hc)
    | some c =>
      have hcore : p.Has c := hn.trans (Node.withoutDefault_eq_some_iff.1 hc).contains
      dsimp only
      split
      · rename_i hkind
        have hitems := hcore.failsBy_items hkind (f := .properties) (by decide) (.inl (by decide))
        refine excused_lift_bind hitems fun ts hts => excused_lift (failsBy_objectReads ?_)
        exact fun t ht => hcore.exists_of_mem_items hkind (by decide) (by decide) hts ht
      · rename_i hkind
        refine excused_lift_bind (hs.failsBy_find hcore hkind) fun v _ => ?_
        cases v with
        | none => exact excused_pure
        | some v => exact hv v
      · exact excused_pure

lemma excused_expression (n : Node) {above : List Node} (h : ∀ q ∈ above, p.Has q) :
    Excused p.Blames (expression p onVariable n above) := by
  induction above generalizing n with
  | nil => exact excused_pure.rememberingExpression n
  | cons q rest ih =>
    obtain ⟨hq, hrest⟩ := List.forall_mem_cons.1 h
    refine Excused.rememberingExpression ?_ n
    split
    · rename_i hkind
      refine excused_lift_bind (hq.failsBy_child hkind (by decide)) fun o _ => ?_
      split
      · refine excused_lift_bind (hq.failsBy_staticName (.inl hkind)) fun name _ => ?_
        cases name with
        | none => exact excused_pure
        | some name => exact excused_pure
      · exact excused_pure
    · rename_i hkind
      refine excused_lift_bind (hq.failsBy_text? hkind (by decide)) fun operator _ => ?_
      split
      · refine excused_lift_bind (hq.failsBy_child hkind (by decide)) fun o _ => ?_
        split
        · exact excused_lift_bind (hq.failsBy_child hkind (by decide)) fun _ ht =>
            excused_pattern hs hv fun _ hu => hq.child (hu ▸ ht)
        · exact excused_pure
      · exact excused_pure
    · rename_i hkind
      refine excused_lift_bind (hq.failsBy_child hkind (by decide)) fun o _ => ?_
      split
      · exact excused_lift_bind (hq.failsBy_child hkind (by decide)) fun _ ht =>
          excused_pattern hs hv fun _ hu => hq.child (hu ▸ ht)
      · exact excused_pure
    · exact ih q hrest
    · exact ih q hrest
    · exact excused_pure

omit hv in
lemma excused_ofVariable (budget : Nat) (v : VariableId) :
    Excused p.Blames (ofVariable p budget v) := by
  induction budget generalizing v with
  | zero => exact excused_pure
  | succ n ih =>
    refine excused_get.bind fun m => ?_
    split
    · exact excused_pure
    · refine excused_modify.bind fun _ => ?_
      refine (excused_mapM fun r hr => ?_).bind fun _ => excused_pure
      obtain ⟨hhas, -⟩ := Program.has_of_mem_referencesTo (List.mem_filter.1 hr).1
      exact excused_expression hs ih r.identifier fun q hq => hhas.mem_above hq

omit hv in
/-- The search for the property reads of a pattern fails only where a node is to blame. -/
lemma failsBy_ofPattern {o : Option Node} (h : ∀ n ∈ o, p.Has n) :
    FailsBy p.Blames ((ofPattern p o).run.run {}).1 :=
  excused_pattern hs (fun v => excused_ofVariable hs (budget p) v) h {}

end Property

/-! ## Ref objects -/

namespace RefObject

variable {p : Program} {s : Scope} (hs : p.Global s) {site : Site} {n : Node}

lemma failsBy_rebinding? (h : p.Has n) : FailsBy p.Blames (rebinding? p n) := by
  unfold rebinding?
  split
  · exact failsBy_ok
  · rename_i parent hparent
    obtain ⟨hq, -⟩ := h.parent hparent
    split
    · rename_i hkind
      refine (hq.failsBy_text? hkind (by decide)).bind fun operator _ => ?_
      split
      · refine (hq.failsBy_child hkind (by decide)).bind fun o _ => ?_
        split
        · exact (hq.failsBy_child hkind (by decide)).bind fun _ _ => failsBy_pure
        · exact failsBy_pure
      · exact failsBy_pure
    · rename_i hkind
      refine (hq.failsBy_child hkind (by decide)).bind fun o _ => ?_
      split
      · exact (hq.failsBy_child hkind (by decide)).bind fun _ _ => failsBy_pure
      · exact failsBy_pure
    · exact failsBy_ok

lemma failsBy_destination? (h : p.Has n) : FailsBy p.Blames (destination? p n) := by
  unfold destination?
  split
  · exact failsBy_ok
  · rename_i parent hparent
    obtain ⟨hq, -⟩ := h.parent hparent
    split
    · rename_i hkind
      refine (hq.failsBy_child hkind (by decide)).bind fun o _ => ?_
      split
      · exact (hq.failsBy_child hkind (by decide)).bind fun _ _ => failsBy_pure
      · exact failsBy_pure
    · rename_i hkind
      refine (hq.failsBy_text? hkind (by decide)).bind fun operator _ => ?_
      split
      · exact (hq.failsBy_child hkind (by decide)).bind fun _ _ => failsBy_pure
      · exact failsBy_pure
    · exact failsBy_ok

/-- What is expected of the continuation at an identifier. -/
def Blaming (p : Program) (k : Node → Step) : Prop :=
  ∀ c f, p.Has c → c.kind = .identifier → FailsBy p.Blames (k c f)

section Steps

variable {k : Node → Step} (hk : Blaming p k)
include hk

lemma failsBy_receive {target : Option Node} (ht : ∀ t ∈ target, p.Has t) (source : Node)
    (f : Findings) : FailsBy p.Blames (receive site k target source f) := by
  cases target with
  | none => exact failsBy_ok
  | some t =>
    have ht := ht t rfl
    refine ht.failsBy_withoutDefault.bind fun c hc => ?_
    cases c with
    | none => exact failsBy_pure
    | some c =>
      have hcore : p.Has c := ht.trans (Node.withoutDefault_eq_some_iff.1 hc).contains
      dsimp only
      split
      · rename_i hkind
        exact hk c _ hcore hkind
      · exact failsBy_pure
      · exact failsBy_pure

/-- An expression is bound again, or recorded. -/
lemma failsBy_passOn {m : Node} (hm : p.Has m) {o : Option (Option Node)}
    (ho : ∀ target, o = some target → rebinding? p m = .ok (some target)) (r : Record)
    (f : Findings) : FailsBy p.Blames (match o with
      | some target => receive site k target m f
      | none => pure (f.record r)) := by
  cases o with
  | none => exact failsBy_pure
  | some target =>
    refine failsBy_receive hk ?_ m f
    rintro t rfl
    exact ((rebinding?_eq_some_iff hm).1 (ho _ rfl)).has hm

lemma failsBy_carry {m : Node} (hm : p.Has m) (source : Node) (f : Findings) :
    FailsBy p.Blames (carry p site k m source f) := by
  refine (failsBy_rebinding? hm).bind fun o ho => failsBy_passOn hk hm ?_ _ _
  rintro target rfl
  exact ho

lemma failsBy_occur {r : Reference} (hr : p.Has r.identifier) (binding : Node) (f : Findings) :
    FailsBy p.Blames (occur p site k binding r f) := by
  unfold occur
  dsimp only
  split
  · exact failsBy_pure
  · refine .ite_bind (fun _ => failsBy_rebinding? hr) (fun _ => failsBy_pure) fun o ho => ?_
    refine failsBy_passOn hk hr ?_ _ _
    rintro target rfl
    split at ho
    · exact ho
    · cases ho

end Steps

include hs

lemma failsBy_occurrences (h : p.Has n) (hk : n.kind = .identifier) :
    FailsBy p.Blames (p.occurrences n) := by
  refine (hs.failsBy_find h hk).bind fun v _ => ?_
  cases v with
  | none => exact failsBy_pure
  | some v => exact failsBy_pure

omit hs in
lemma gives_occurrences (p : Program) (n : Node) :
    Gives (p.occurrences n) fun rs => ∀ r ∈ rs, p.Has r.identifier := by
  refine gives_true.bind fun v _ => ?_
  cases v with
  | none => exact gives_pure nofun
  | some v => exact gives_pure fun r hr => (Program.has_of_mem_referencesTo hr).1

lemma blaming_bind (site : Site) (budget : Nat) : Blaming p (bind p site budget) := by
  induction budget with
  | zero => exact fun _ _ _ _ => failsBy_ok
  | succ n ih =>
    intro c f hc hk
    rw [bind]
    split
    · exact failsBy_ok
    · refine (failsBy_occurrences hs hc hk).bind fun rs hrs => failsBy_foldlM fun f r hr => ?_
      exact failsBy_occur ih (gives_occurrences p c rs hrs r hr) c f

lemma failsBy_spread {target : Option Node} (ht : ∀ t ∈ target, p.Has t) {k : Node → Step}
    (hk : Blaming p k) (f : Findings) : FailsBy p.Blames (spread p site k target f) := by
  refine (Property.failsBy_ofPattern hs ht).bind fun found hfound => ?_
  have hin := Property.found_in_ofPattern ht hfound
  refine failsBy_foldlM fun f nest hnest => ?_
  have hnest := hin.nest hnest
  cases nest with
  | expression m => exact failsBy_carry hk hnest.1 _ f
  | pattern t => exact failsBy_receive hk hnest _ f

lemma failsBy_followSite (h : p.Has site.node) (f : Findings) :
    FailsBy p.Blames (followSite p site f) := by
  have hk := blaming_bind hs site p.places.length
  refine (failsBy_destination? h).bind fun o ho => ?_
  cases o with
  | none =>
    dsimp only
    split <;> exact failsBy_pure
  | some target =>
    have ht : ∀ t ∈ target, p.Has t := by
      rintro t rfl
      exact ((destination?_eq_some_iff h).1 ho).has h
    dsimp only
    split
    · exact failsBy_spread hs ht hk _
    · exact failsBy_receive hk ht _ _

/-- The extraction of references to ref objects fails only where a node is to blame. -/
lemma failsBy_extract : FailsBy p.Blames (extract p) :=
  (Site.breaksBy_ofFactories hs p.options).foldM
    (fun f _ hsite => failsBy_followSite hs (Site.has_of_mem_ofFactories hsite).1 f) {}

end RefObject

/-! ## Reactive variables -/

namespace Node

/-- The identifiers that an optional pattern binds. -/
def boundAt : Option Node → Except Fault (List Node)
  | some t => t.identifiers
  | none => .ok []

/-- The identifiers that a member of an object pattern binds. -/
def boundByMember : Option Node → Except Fault (List Node)
  | some m =>
    if m.kind == .property then do boundAt (← m.child .value)
    else if m.kind == .restElement then m.identifiers
    else .ok []
  | none => throw (.missingNode "item")

lemma label_annotate_eq_boundAt (o : Option Node) :
    (match o.map (Tree.annotate identifiersRule) with
      | some t => t.label
      | none => .ok []) = boundAt o := by
  cases o <;> rfl

lemma label_annotate_eq_boundByMember (o : Option Node) :
    (match o.map (Tree.annotate identifiersRule) with
      | some m =>
        if m.kind == .property then do
          match ← m.child .value with
          | some t => t.label
          | none => .ok []
        else if m.kind == .restElement then m.label
        else .ok []
      | none => throw (.missingNode "item")) = boundByMember o := by
  cases o with
  | none => rfl
  | some m =>
    have hkind : (m.annotate identifiersRule).kind = m.kind := by
      rw [Tree.kind, Tree.shape_annotate, Shape.kind_map]
      rfl
    have hchild : (m.annotate identifiersRule).child .value =
        Option.map (Tree.annotate identifiersRule) <$> m.child .value := by
      rw [Tree.child, Tree.shape_annotate, Shape.child_map]
      rfl
    simp only [Option.map_some, hkind, hchild, boundByMember]
    congr 1
    cases m.child .value with
    | error e => rfl
    | ok o => exact label_annotate_eq_boundAt o

/-- The identifiers that a pattern binds, by its kind. -/
lemma identifiers_eq (t : Node) : t.identifiers =
    match t.kind with
    | .identifier => .ok [t]
    | .objectPattern => do return (← (← t.items .properties).mapM boundByMember).flatten
    | .arrayPattern => do return (← (← t.items .elements).mapM boundAt).flatten
    | .assignmentPattern => do boundAt (← t.child .left)
    | .restElement => do boundAt (← t.child .argument)
    | _ => .ok [] := by
  have hat := label_annotate_eq_boundAt
  have hmember := label_annotate_eq_boundByMember
  rw [identifiers, Tree.measure, Tree.label_annotate, identifiersRule, Shape.kind_map,
    Shape.items_map, Shape.items_map, Shape.child_map, Shape.child_map, Tree.kind, Tree.items,
    Tree.items, Tree.child, Tree.child]
  dsimp only
  generalize t.shape.kind = k
  congr 1
  · funext
    cases t.shape.items .properties with
    | error e => rfl
    | ok ts =>
      simp only [Except.map_ok, ok_bind, List.mapM_map]
      exact congrArg (fun f => (do return (← ts.mapM f).flatten)) (funext hmember)
  · funext
    cases t.shape.items .elements with
    | error e => rfl
    | ok ts =>
      simp only [Except.map_ok, ok_bind, List.mapM_map]
      exact congrArg (fun f => (do return (← ts.mapM f).flatten)) (funext hat)
  · funext
    cases t.shape.child .left with
    | error e => rfl
    | ok o => exact hat o
  · funext
    cases t.shape.child .argument with
    | error e => rfl
    | ok o => exact hat o

end Node

namespace Program

variable {p : Program} {t : Node}

/-- The list of the identifiers of a pattern fails only where a node of the pattern is to blame. -/
lemma Has.failsBy_identifiers (h : p.Has t) : FailsBy p.Blames t.identifiers := by
  induction t using Tree.strongInduction with
  | step t ih =>
    have hat {o : Option Node} (ho : ∀ u ∈ o, ∃ c ∈ t.children, c.Contains u) :
        FailsBy p.Blames (Node.boundAt o) := by
      cases o with
      | none => exact failsBy_ok
      | some u =>
        obtain ⟨c, hc, hu⟩ := ho u rfl
        exact ih c hc u hu (h.trans ((Tree.contains_child hc).trans hu))
    rw [Node.identifiers_eq]
    split
    · exact failsBy_ok
    · rename_i hk
      have hitems := h.failsBy_items hk (f := .properties) (by decide) (.inl (by decide))
      refine hitems.bind fun ts hts =>
        (failsBy_mapM fun o ho => ?_).bind fun _ _ => failsBy_pure
      obtain ⟨m, rfl, hm⟩ := h.exists_of_mem_items hk (by decide) (by decide) hts ho
      have hchild := Shape.mem_children_of_items hts ho
      unfold Node.boundByMember
      dsimp only
      split
      · rename_i hproperty
        have hproperty : m.kind = .property := by simpa using hproperty
        refine (hm.failsBy_child hproperty (by decide)).bind fun o ho => hat ?_
        rintro u rfl
        exact ⟨m, hchild, Tree.contains_of_child ho⟩
      · split
        · exact ih m hchild m (.refl m) hm
        · exact failsBy_ok
    · rename_i hk
      have hitems := h.failsBy_items hk (f := .elements) (by decide) (.inr (by decide))
      refine hitems.bind fun ts hts =>
        (failsBy_mapM fun o ho => hat ?_).bind fun _ _ => failsBy_pure
      rintro u rfl
      exact ⟨u, Shape.mem_children_of_items hts ho, .refl u⟩
    · rename_i hk
      refine (h.failsBy_child hk (by decide)).bind fun o ho => hat ?_
      rintro u rfl
      exact ⟨u, Shape.mem_children_of_child ho, .refl u⟩
    · rename_i hk
      refine (h.failsBy_child hk (by decide)).bind fun o ho => hat ?_
      rintro u rfl
      exact ⟨u, Shape.mem_children_of_child ho, .refl u⟩
    · exact failsBy_ok

end Program

/-- A node is bound by a pattern in which it stands. -/
lemma Node.gives_identifiers (t : Node) :
    Gives t.identifiers fun ns => ∀ n ∈ ns, t.Contains n ∧ n.kind = .identifier := by
  induction t using Tree.strongInduction with
  | step t ih =>
    have hcontained {u : Node} (hu : ∃ c ∈ t.children, c.Contains u) :
        Gives u.identifiers fun ns => ∀ n ∈ ns, t.Contains n ∧ n.kind = .identifier := by
      obtain ⟨c, hc, hu⟩ := hu
      refine (ih c hc u hu).mono fun ns hns n hn => ⟨?_, (hns n hn).2⟩
      exact ((Tree.contains_child hc).trans hu).trans (hns n hn).1
    have hat {o : Option Node} (ho : ∀ u ∈ o, ∃ c ∈ t.children, c.Contains u) :
        Gives (boundAt o) fun ns => ∀ n ∈ ns, t.Contains n ∧ n.kind = .identifier := by
      cases o with
      | none => exact gives_ok nofun
      | some u => exact hcontained (ho u rfl)
    have hall {ts : List (Option Node)} {f : Option Node → Except Fault (List Node)}
        (hf : ∀ o ∈ ts, Gives (f o) fun ns => ∀ n ∈ ns, t.Contains n ∧ n.kind = .identifier) :
        Gives (do return (← ts.mapM f).flatten)
          fun ns => ∀ n ∈ ns, t.Contains n ∧ n.kind = .identifier := by
      refine (gives_mapM hf).bind fun nss hnss => gives_pure fun n hn => ?_
      obtain ⟨ns, hns, hn⟩ := List.mem_flatten.1 hn
      exact hnss ns hns n hn
    rw [identifiers_eq]
    split
    · rename_i hk
      exact gives_ok (List.forall_mem_singleton.2 ⟨.refl t, hk⟩)
    · intro ns hns
      obtain ⟨ts, hts, hns⟩ := bind_ok_iff.1 hns
      refine hall (fun o ho => ?_) ns hns
      unfold boundByMember
      split
      · rename_i m
        have hm := Shape.mem_children_of_items hts ho
        split
        · intro ns hns
          obtain ⟨o, ho, hns⟩ := bind_ok_iff.1 hns
          refine hat ?_ ns hns
          rintro u rfl
          exact ⟨m, hm, Tree.contains_of_child ho⟩
        · split
          · exact hcontained ⟨m, hm, .refl m⟩
          · exact gives_ok nofun
      · exact gives_throw
    · intro ns hns
      obtain ⟨ts, hts, hns⟩ := bind_ok_iff.1 hns
      refine hall (fun o ho => hat ?_) ns hns
      rintro u rfl
      exact ⟨u, Shape.mem_children_of_items hts ho, .refl u⟩
    · intro ns hns
      obtain ⟨o, ho, hns⟩ := bind_ok_iff.1 hns
      refine hat ?_ ns hns
      rintro u rfl
      exact ⟨u, Shape.mem_children_of_child ho, .refl u⟩
    · intro ns hns
      obtain ⟨o, ho, hns⟩ := bind_ok_iff.1 hns
      refine hat ?_ ns hns
      rintro u rfl
      exact ⟨u, Shape.mem_children_of_child ho, .refl u⟩
    · exact gives_ok nofun

namespace Escape

variable {p : Program}

lemma failsBy_handed (calls : List Node) (n : Node) {above : List Node}
    (h : ∀ q ∈ above, p.Has q) : FailsBy p.Blames (handed calls n above) := by
  induction above generalizing n with
  | nil => exact failsBy_ok
  | cons q rest ih =>
    obtain ⟨hq, hrest⟩ := List.forall_mem_cons.1 h
    rw [handed]
    split
    · rename_i hkind
      exact (hq.failsBy_items hkind (by decide) (.inl (by decide))).bind fun _ _ => failsBy_pure
    · rename_i hkind
      refine (hq.failsBy_child hkind (by decide)).bind fun o _ => ?_
      split
      · exact ih q hrest
      · exact failsBy_pure
    · rename_i hkind
      refine (hq.failsBy_items hkind (by decide) (.inl (by decide))).bind fun o _ => ?_
      split
      · exact ih q hrest
      · exact failsBy_pure
    · exact ih q hrest
    · exact ih q hrest
    · exact failsBy_ok

end Escape

namespace Reactive

variable {p : Program} {s : Scope} (hs : p.Global s) {site : Site}

lemma failsBy_declared (h : p.Has site.node) : FailsBy p.Blames (declared p site) := by
  unfold declared
  split
  · exact failsBy_ok
  · rename_i parent hparent
    obtain ⟨hq, -⟩ := h.parent hparent
    split
    · rename_i hkind
      have hkind : parent.kind = .variableDeclarator := by simpa using hkind
      refine (hq.failsBy_child hkind (by decide)).bind fun o _ => ?_
      split
      · refine (hq.failsBy_child hkind (by decide)).bind fun t ht => ?_
        cases t with
        | none => exact failsBy_pure
        | some t =>
          dsimp only
          split
          · exact (hq.child ht).failsBy_identifiers
          · split <;> exact failsBy_pure
      · exact failsBy_pure
    · exact failsBy_ok

/-- What a macro call makes reactive are identifiers of the program. -/
lemma gives_declared (h : p.Has site.node) :
    Gives (declared p site) fun ns => ∀ n ∈ ns, p.Has n ∧ n.kind = .identifier := by
  unfold declared
  split
  · exact gives_ok nofun
  · rename_i parent hparent
    obtain ⟨hq, -⟩ := h.parent hparent
    split
    · refine gives_true.bind fun o _ => ?_
      split
      · refine (hq.gives_child .id).bind fun t ht => ?_
        cases t with
        | none => exact gives_pure nofun
        | some t =>
          have ht := ht t rfl
          dsimp only
          split
          · refine (Node.gives_identifiers t).mono fun ns hns n hn => ?_
            exact ⟨ht.trans (hns n hn).1, (hns n hn).2⟩
          · split
            · rename_i hkind
              exact gives_pure (List.forall_mem_singleton.2 ⟨ht, by simpa using hkind⟩)
            · exact gives_pure nofun
      · exact gives_pure nofun
    · exact gives_ok nofun

lemma failsBy_occur (calls : List Node) (f : Findings) {r : Reference} (hr : p.Has r.identifier) :
    FailsBy p.Blames (occur p calls site f r) := by
  unfold occur
  dsimp only
  split
  · exact failsBy_ok
  · split
    · exact failsBy_ok
    · exact (Escape.failsBy_handed calls r.identifier fun q hq => hr.mem_above hq).bind
        fun _ _ => failsBy_pure

include hs

lemma failsBy_bind (calls : List Node) (f : Findings) {n : Node} (h : p.Has n)
    (hk : n.kind = .identifier) : FailsBy p.Blames (bind p calls site f n) := by
  unfold bind
  split
  · exact failsBy_ok
  · refine (RefObject.failsBy_occurrences hs h hk).bind fun rs hrs =>
      failsBy_foldlM fun f r hr => ?_
    exact failsBy_occur calls f (RefObject.gives_occurrences p n rs hrs r hr)

/-- The extraction of references to reactive variables fails only where a node is to blame. -/
lemma failsBy_extract : FailsBy p.Blames (extract p) := by
  have hescape : FailsBy p.Blames (Site.escapeCalls p) :=
    (Site.failsBy_ambientCalls hs _).bind fun _ _ => failsBy_pure
  refine hescape.bind fun calls _ => ?_
  refine (Site.failsBy_ambientCalls hs Site.macros).bind fun sites hsites => ?_
  refine failsBy_foldlM fun f site hsite => ?_
  have hhas := Site.gives_ambientCalls _ sites hsites site hsite
  refine (failsBy_declared hhas).bind fun ns hns => failsBy_foldlM fun f n hn => ?_
  obtain ⟨hn, hk⟩ := gives_declared hhas ns hns n hn
  exact failsBy_bind hs calls f hn hk

end Reactive

/-! ## Both extractions -/

namespace Program

/-- **Extraction fails only where a node of the program is to blame.**  Whatever unknown constructs
a program contains, each of the two extractions has a result, or the fault is that a construct
without a rule of its own bears the name of a known kind and is asked for a part of it, that the
name of a member is a number with too many digits, or that a default stands in front of nothing. -/
theorem extract_ok_or_blames {source : Source} {options : Options} {tree : Concrete Unit}
    {p : Program} (h : analyze source options tree = .ok p) (hroot : tree.symbol = "program") :
    ((∃ f, RefObject.extract p = .ok f) ∨ ∃ e, RefObject.extract p = .error e ∧ p.Blames e) ∧
      ((∃ f, Reactive.extract p = .ok f) ∨ ∃ e, Reactive.extract p = .error e ∧ p.Blames e) := by
  obtain ⟨s, hs⟩ := exists_global (Convert.kind_build (build_of_analyze h) hroot)
  exact ⟨(RefObject.failsBy_extract hs).exists_ok, (Reactive.failsBy_extract hs).exists_ok⟩

/-- The tree of `import {ref} from 'vue';using x=ref,y=$ref(0);`.  There is no rule for the second
statement, so its declarators are converted without the parts that a declarator has. -/
def unknownDeclaration : Concrete Unit :=
  let clause : Concrete Unit := .node "import_clause" none 7 12
    [.node "named_imports" none 7 12
      [.node "import_specifier" none 8 11 [.identifier (some "name") 8 11]]]
  let call : Concrete Unit := .node "call_expression" (some "value") 38 45
    [.identifier (some "function") 38 42,
     .node "arguments" (some "arguments") 42 45 [.node "number" none 43 44 []]]
  .node "program" none 0 46
    [.node "import_statement" none 0 24 [clause, .node "string" (some "source") 18 23 []],
     .node "using_declaration" none 24 46
      [.token "using" (some "kind") 24 29,
       .node "variable_declarator" none 30 35
        [.identifier (some "name") 30 31, .identifier (some "value") 32 35],
       .node "variable_declarator" none 36 45 [.identifier (some "name") 36 37, call]]]

/-- The source of `unknownDeclaration`. -/
def unknownSource : Source := ⟨"import \x7bref\x7d from 'vue';using x=ref,y=$ref(0);".toUTF8.toList⟩

/-- What evaluation gives for the program. -/
lemma evaluate_unknownDeclaration :
    (analyze unknownSource {} unknownDeclaration).toOption.any fun p =>
      failsWith (.missingField .variableDeclarator .init) (RefObject.extract p) &&
        failsWith (.missingField .variableDeclarator .init) (Reactive.extract p) := by
  decide +kernel

/-- The program can be analysed, and both extractions fail. -/
theorem extract_unknownDeclaration_fails :
    ∃ p, analyze unknownSource {} unknownDeclaration = .ok p ∧
      RefObject.extract p = .error (.missingField .variableDeclarator .init) ∧
      Reactive.extract p = .error (.missingField .variableDeclarator .init) := by
  obtain ⟨p, hp, hboth⟩ := exists_ok_of_any evaluate_unknownDeclaration
  obtain ⟨hrefs, hreactive⟩ := Bool.and_eq_true_iff.1 hboth
  exact ⟨p, hp, failsWith_iff.1 hrefs, failsWith_iff.1 hreactive⟩

/-- What makes the first extraction fail is a declarator without the parts that a declarator has. -/
theorem blames_unknownDeclaration : ∃ p, analyze unknownSource {} unknownDeclaration = .ok p ∧
    unknownDeclaration.symbol = "program" ∧
    ∃ n, p.Has n ∧ n.kind = .variableDeclarator ∧ n.shape.IsGeneric := by
  obtain ⟨p, hp, hboth⟩ := exists_ok_of_any evaluate_unknownDeclaration
  have hfails := failsWith_iff.1 (Bool.and_eq_true_iff.1 hboth).1
  refine ⟨p, hp, rfl, ?_⟩
  obtain ⟨⟨f, hf⟩ | ⟨e, he, hblames⟩, -⟩ := extract_ok_or_blames hp rfl
  · rw [hfails] at hf
    cases hf
  · rw [hfails] at he
    injection he with he
    cases hblames with
    | unknown has isGeneric _ =>
      injection he with hkind
      exact ⟨_, has, hkind.symm, isGeneric⟩
    | overlong => cases he
    | bare => cases he

end Program

end RefFlow
