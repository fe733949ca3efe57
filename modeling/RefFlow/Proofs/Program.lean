import RefFlow.Program
import RefFlow.Proofs.Convert.Conforming
import RefFlow.Proofs.Convert.Unshared
import RefFlow.Proofs.Scope.Bookkeeping
import RefFlow.Proofs.Scope.Identifiers
import RefFlow.Tree.Pattern

/-!
# The nodes of an analysed program

The analyses walk over a program by way of its places: from a node to its parent, and from a
variable to the identifiers that refer to it.  This module shows that they never leave the program,
and that the number of a node, by which they tell nodes apart, does tell them apart:

* the nodes of a program have places that are found by their numbers (`Has.exists_place`), so nodes
  with the same number are the same (`Has.eq_of_id_eq`);
* what stands above a node belongs to the program, and the node stands right below its parent
  (`Has.mem_above`, `above_eq_cons`);
* every reference stands on an identifier of the program (`has_of_mem_referencesTo`), and the
  references to a variable are those that are resolved to it (`mem_referencesTo_iff`); no two
  references stand on the same identifier (`nodup_identifiers`).

The last section describes `Node.withoutDefault`, which is computed over a whole tree, by the rule
`Node.Core` for one node.
-/

namespace RefFlow

open Fallible

namespace Program

variable {p : Program} {n m q : Node}

/-- The node belongs to the program. -/
def Has (p : Program) (n : Node) : Prop := p.root.Contains n

lemma Has.child (h : p.Has n) {f : Field} {c : Node} (hc : n.child f = .ok (some c)) : p.Has c :=
  h.trans (Tree.contains_of_child hc)

lemma Has.gives_child (h : p.Has n) (f : Field) : Gives (n.child f) fun o => ∀ c ∈ o, p.Has c := by
  rintro o ho c hc
  cases hc
  exact h.child ho

lemma Has.item (h : p.Has n) {f : Field} {ts : List (Option Node)} {c : Node}
    (hts : n.items f = .ok ts) (hc : some c ∈ ts) : p.Has c :=
  h.trans (Tree.contains_of_item hts hc)

/-- The tree of a program is the one that the concrete tree is converted to. -/
lemma build_of_analyze {source : Source} {options : Options} {tree : Concrete Unit}
    (h : analyze source options tree = .ok p) :
    Convert.build ⟨source, options.sourceType⟩ tree = .ok p.root := by
  unfold analyze at h
  split at h
  · cases h
  · rename_i built
    split at h
    · cases h
    · cases h
      exact built

lemma options_of_analyze {source : Source} {options : Options} {tree : Concrete Unit}
    (h : analyze source options tree = .ok p) : p.options = options := by
  unfold analyze at h
  split at h
  · cases h
  · split at h
    · cases h
    · cases h
      rfl

/-! ## Numbers and places -/

lemma id_of_places {i : Nat} {q : Place} (h : p.places[i]? = some q) : q.node.id = i := by
  obtain ⟨tree, htree⟩ := p.converted
  rw [p.places_eq] at h
  have hid : (p.root.nodes.map Node.id)[i]? = some q.node.id := by
    rw [Node.nodes, List.map_map, List.getElem?_map, h]
    rfl
  rw [Convert.ids_build htree] at hid
  exact (List.getElem_of_getElem? hid).2.symm.trans (List.getElem_range _)

lemma has_of_mem_places {q : Place} (h : q ∈ p.places) : p.Has q.node := by
  rw [p.places_eq] at h
  exact Node.contains_of_mem_places h

/-- Evaluates whether a node with the name satisfies a condition. -/
def anyNamed (p : Program) (name : String) (P : Node → Bool) : Bool :=
  p.places.any fun q => (q.node.text? .name).toOption.any (· == some name) && P q.node

lemma exists_of_anyNamed {name : String} {P : Node → Bool} (h : p.anyNamed name P = true) :
    ∃ n, p.Has n ∧ n.text? .name = .ok (some name) ∧ P n = true := by
  obtain ⟨q, hq, hall⟩ := List.any_eq_true.1 h
  obtain ⟨hname, hP⟩ := Bool.and_eq_true_iff.1 hall
  obtain ⟨t, ht, hname⟩ := exists_ok_of_any hname
  rw [beq_iff_eq.1 hname] at ht
  exact ⟨q.node, has_of_mem_places hq, ht, hP⟩

/-- A node of the program is at the place that its number says. -/
lemma Has.exists_place (h : p.Has n) : ∃ way, p.place? n.id = some ⟨n, way⟩ := by
  obtain ⟨way, hway⟩ := Node.Contains.exists_place h []
  rw [← p.places_eq] at hway
  obtain ⟨i, hi⟩ := List.mem_iff_getElem?.1 hway
  obtain rfl : n.id = i := id_of_places hi
  exact ⟨way, hi⟩

/-- The number of a node determines the node. -/
lemma Has.eq_of_id_eq (hm : p.Has m) (hn : p.Has n) (h : m.id = n.id) : m = n := by
  obtain ⟨way, hway⟩ := hm.exists_place
  obtain ⟨way', hway'⟩ := hn.exists_place
  rw [h, hway'] at hway
  cases hway
  rfl

lemma Has.id_lt (h : p.Has n) : n.id < p.places.length := by
  obtain ⟨way, hway⟩ := h.exists_place
  exact (List.getElem?_eq_some_iff.1 hway).1

lemma distinct_root (p : Program) : p.root.Distinct := by
  obtain ⟨tree, htree⟩ := p.converted
  exact Convert.distinct_build htree

/-! ## Parts -/

/-- A node of the program has the parts of its kind. -/
lemma Has.conforms (h : p.Has n) : n.shape.Conforms := by
  obtain ⟨tree, htree⟩ := p.converted
  exact (Convert.conforming_build htree n h).1

/-- What stands in an assignment and not on its left stands on its right. -/
lemma Has.right_of_assignment {e c : Node} (he : p.Has e) (hk : e.kind = .assignmentExpression)
    {l : Option Node} (hl : e.child .left = .ok l) (hc : c ∈ e.children) (hne : l ≠ some c) :
    e.child .right = .ok (some c) := by
  have hkind : e.shape.kind = .assignmentExpression := hk
  have hparts : e.shape.kind.parts = [(.operator, .datum), (.left, .one), (.right, .one)] := by
    rw [hkind]
    rfl
  obtain ⟨v, hv, -⟩ := bind_ok_iff.1 hl
  rcases he.conforms.exists_part (by decide) hv hc with
    ⟨g, a, hg, ha, hchild⟩ | ⟨g, a, ts, hg, ha, -⟩
  · rw [hparts] at hg
    obtain rfl | rfl : g = .left ∨ g = .right := by
      simp only [List.mem_cons, Prod.mk.injEq, List.not_mem_nil, or_false] at hg
      tauto
    · exact absurd (Except.ok.inj (hl.symm.trans hchild)) hne
    · exact hchild
  · rw [hparts] at hg
    rcases ha with rfl | rfl <;> simp at hg

/-! ## Above a node -/

lemma place?_eq_some {way : List Node} (h : p.place? n.id = some ⟨m, way⟩) :
    ⟨m, way⟩ ∈ p.root.places [] := by
  rw [← p.places_eq]
  exact List.mem_of_getElem? h

lemma above_of_mem_places {way : List Node} (h : ⟨n, way⟩ ∈ p.root.places []) :
    p.above n = way := by
  rw [← p.places_eq] at h
  obtain ⟨i, hi⟩ := List.mem_iff_getElem?.1 h
  obtain rfl : n.id = i := id_of_places hi
  rw [above, place?, hi]

/-- The parent is the first of the nodes above, and those above it are the others. -/
lemma Has.above_eq_cons (h : p.Has n) {rest : List Node} (ha : p.above n = q :: rest) :
    p.Has q ∧ p.above q = rest ∧ n ∈ q.children := by
  obtain ⟨way, hway⟩ := h.exists_place
  have hn := place?_eq_some hway
  rw [above, hway] at ha
  obtain rfl : way = q :: rest := ha
  rcases Node.mem_places_above hn with ⟨-, hnil⟩ | ⟨q', rest', heq, hq, hc⟩
  · cases hnil
  · cases heq
    exact ⟨Node.contains_of_mem_places hq, above_of_mem_places hq, hc⟩

/-- What stands above a node is found by its number alone, and in any case is in the program. -/
lemma of_above_eq_cons {rest : List Node} (h : p.above n = q :: rest) :
    p.Has q ∧ p.above q = rest := by
  cases hplace : p.place? n.id with
  | none =>
    rw [above, hplace] at h
    cases h
  | some place =>
    have hid : place.node.id = n.id := id_of_places hplace
    have hsame : p.above place.node = p.above n := by rw [above, above, hid]
    have hhas : p.Has place.node := has_of_mem_places (List.mem_of_getElem? hplace)
    obtain ⟨hq, hrest, -⟩ := hhas.above_eq_cons (hsame.trans h)
    exact ⟨hq, hrest⟩

lemma has_of_parent? (h : p.parent? n = some q) : p.Has q := by
  obtain ⟨rest, ha⟩ := List.head?_eq_some_iff.1 h
  exact (of_above_eq_cons ha).1

lemma Has.mem_above (h : p.Has n) (hq : q ∈ p.above n) : p.Has q := by
  generalize hway : p.above n = way at hq
  induction way generalizing n with
  | nil => cases hq
  | cons u us ih =>
    obtain ⟨hu, hus, -⟩ := h.above_eq_cons hway
    rcases List.mem_cons.1 hq with rfl | hq
    · exact hu
    · exact ih hu hus hq

lemma Has.parent (h : p.Has n) (hq : p.parent? n = some q) : p.Has q ∧ n ∈ q.children := by
  obtain ⟨rest, ha⟩ := List.head?_eq_some_iff.1 hq
  obtain ⟨hq, -, hc⟩ := h.above_eq_cons ha
  exact ⟨hq, hc⟩

/-- A node that stands in another one has it as its parent. -/
lemma Has.above_of_mem_children (h : p.Has q) (hn : n ∈ q.children) :
    p.above n = q :: p.above q := by
  obtain ⟨way, hway⟩ := h.exists_place
  have hq := place?_eq_some hway
  rw [above_of_mem_places hq, above_of_mem_places (Node.mem_places_child hq hn)]

lemma Has.parent?_of_mem_children (h : p.Has q) (hn : n ∈ q.children) : p.parent? n = some q := by
  rw [parent?, h.above_of_mem_children hn]
  rfl

/-- Whether a node is in a part of another one can be told by its number. -/
lemma Has.isNode_iff (h : p.Has n) (hq : p.Has q) {f : Field} {o : Option Node}
    (ho : q.child f = .ok o) : n.isNode o = true ↔ o = some n := by
  cases o with
  | none => simp [Node.isNode]
  | some m =>
    rw [Node.isNode, beq_iff_eq, Option.some.injEq]
    constructor
    · exact fun he => (hq.child ho).eq_of_id_eq h he
    · rintro rfl
      rfl

/-! ## References -/

lemma mem_references_of_mem_referencesOf {g : Graph} {rs : List Nat} {r : Reference}
    (h : r ∈ g.referencesOf rs) : r ∈ g.references := by
  obtain ⟨k, -, hk⟩ := List.mem_filterMap.1 h
  exact List.mem_of_getElem? hk

lemma has_of_mem_references {r : Reference} (h : r ∈ p.graph.references) :
    p.Has r.identifier ∧ r.identifier.kind = .identifier := by
  obtain ⟨hin, hkind, -⟩ := Node.named_of_mem_references p.graph_eq h
  exact ⟨hin, hkind⟩

lemma has_of_mem_referencesTo {v : VariableId} {r : Reference} (h : r ∈ p.referencesTo v) :
    p.Has r.identifier ∧ r.identifier.kind = .identifier := by
  unfold referencesTo at h
  split at h
  · exact has_of_mem_references (mem_references_of_mem_referencesOf h)
  · cases h

lemma name_of_resolved {r : Reference} {v : VariableId} (hr : r ∈ p.graph.references)
    (hv : r.resolved = some v) : v.name = r.name := by
  obtain ⟨hrooted, hlookup⟩ := Node.resolved_eq_lookup p.graph_eq
  rw [hlookup r hr, Graph.lookup_eq_some_iff hrooted] at hv
  exact hv.name_eq

/-- The references to a variable are those that are resolved to it. -/
lemma mem_referencesTo_iff {r : Reference} {v : VariableId} :
    r ∈ p.referencesTo v ↔ r ∈ p.graph.references ∧ r.resolved = some v := by
  have hentered := Graph.entered_scopeGraph p.graph_eq
  unfold referencesTo
  cases hv : p.graph.get? v with
  | none =>
    refine ⟨fun h => (List.not_mem_nil h).elim, fun ⟨hr, hresolved⟩ => ?_⟩
    have hdeclares := (hentered.resolved r hr v hresolved).2.2
    rw [← Graph.isSome_get?, hv] at hdeclares
    cases hdeclares
  | some x =>
    obtain ⟨s, hs, hx, hname⟩ := hentered.coherent.get? hv
    have huses := hentered.uses hs hx
    rw [hname] at huses
    exact huses.mem_referencesOf_iff

/-- No identifier has two references. -/
lemma nodup_identifiers (p : Program) : (p.graph.references.map (·.identifier)).Nodup := by
  obtain ⟨es, hvisits, hrefs⟩ := Node.exists_events p.graph_eq
  have hnodup := p.distinct_root.nodup_picked Event.picks_mentions hvisits
  rw [← hrefs.1] at hnodup
  exact hnodup.of_map _

lemma nodup_referencesOf {ks : List Nat} (h : ks.Pairwise (· < ·)) :
    ((p.graph.referencesOf ks).map (·.identifier)).Nodup := by
  rw [List.Nodup, List.pairwise_map, Graph.referencesOf, List.pairwise_filterMap]
  refine h.imp fun {k k'} hlt r hr r' hr' heq => Nat.ne_of_lt hlt ?_
  have hget : (p.graph.references.map (·.identifier))[k]? = some r.identifier := by
    rw [List.getElem?_map, hr, Option.map_some]
  have hget' : (p.graph.references.map (·.identifier))[k']? = some r'.identifier := by
    rw [List.getElem?_map, hr', Option.map_some]
  have hlength := (List.getElem?_eq_some_iff.1 hget).1
  exact (List.getElem?_inj hlength p.nodup_identifiers).1 (hget.trans (heq ▸ hget'.symm))

lemma nodup_referencesTo (v : VariableId) : ((p.referencesTo v).map (·.identifier)).Nodup := by
  unfold referencesTo
  split
  · rename_i x hx
    have hentered := Graph.entered_scopeGraph p.graph_eq
    obtain ⟨s, hs, hx, -⟩ := hentered.coherent.get? hx
    exact nodup_referencesOf (hentered.uses hs hx).ordered
  · exact List.nodup_nil

end Program

/-! ## Patterns without their defaults -/

namespace Node

lemma withoutDefault_of_ne {n : Node} (h : n.kind ≠ .assignmentPattern) :
    n.withoutDefault = .ok (some n) := by
  have hk : n.shape.kind ≠ .assignmentPattern := h
  unfold withoutDefault Tree.measure
  rw [Tree.label_annotate, withoutDefaultRule, Shape.kind_map, if_neg (by simpa using hk)]

lemma withoutDefault_of_eq {n : Node} (h : n.kind = .assignmentPattern) :
    n.withoutDefault = n.child .left >>= fun
      | some l => withoutDefault l
      | none => .ok none := by
  have hk : n.shape.kind = .assignmentPattern := h
  unfold withoutDefault Tree.measure
  rw [Tree.label_annotate, withoutDefaultRule, Shape.kind_map, hk, if_pos (by rfl), Shape.child_map]
  unfold Tree.child
  cases n.shape.child .left with
  | error e => rfl
  | ok o => cases o <;> rfl

/-- What is left of a pattern when its defaults are taken off. -/
inductive Core : Node → Node → Prop
  | self {n : Node} (isPlain : n.kind ≠ .assignmentPattern) : Core n n
  | left {n l c : Node} (isDefault : n.kind = .assignmentPattern)
      (child : n.child .left = .ok (some l)) : Core l c → Core n c

lemma Core.contains {n c : Node} (h : Core n c) : n.Contains c := by
  induction h with
  | self => exact .refl _
  | left _ child _ ih => exact (Tree.contains_of_child child).trans ih

lemma withoutDefault_eq_some_iff {n c : Node} : n.withoutDefault = .ok (some c) ↔ n.Core c := by
  induction n using Tree.induction with
  | step n ih =>
    by_cases hk : n.kind = .assignmentPattern
    · rw [withoutDefault_of_eq hk, bind_ok_iff]
      constructor
      · rintro ⟨o, ho, h⟩
        cases o with
        | none => cases h
        | some l => exact .left hk ho ((ih l (Shape.mem_children_of_child ho)).1 h)
      · rintro (hne | ⟨-, ho, h⟩)
        · exact absurd hk hne
        · exact ⟨_, ho, (ih _ (Shape.mem_children_of_child ho)).2 h⟩
    · rw [withoutDefault_of_ne hk]
      constructor
      · intro h
        cases h
        exact .self hk
      · rintro (hne | ⟨hk', -, -⟩)
        · rfl
        · exact absurd hk' hk

end Node

end RefFlow
