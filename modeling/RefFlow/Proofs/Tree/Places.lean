import Mathlib.Logic.Relation
import RefFlow.Proofs.Fallible
import RefFlow.Tree.Preorder

/-!
# Where the nodes of a tree stand

A tree *contains* the nodes that are reached from its root by going down any number of times.
`Node.places` lists them with the nodes above each.  This module shows that the list is a faithful
picture of the tree:

* the places of a tree are its own place and then those of the nodes right below (`places_eq`);
* every contained node has a place, and a place holds a contained node
  (`Contains.exists_place`, `contains_of_mem_places`);
* the nodes above a place are those one meets on the way up (`mem_places_child`,
  `mem_places_above`).
-/

namespace RefFlow

/-! ## Containment -/

namespace Tree

variable {α : Type} {t u v : Tree α}

/-- A tree contains the nodes that are reached by going down from its root. -/
def Contains (t u : Tree α) : Prop := Relation.ReflTransGen (fun a b => b ∈ a.children) t u

@[refl] lemma Contains.refl (t : Tree α) : t.Contains t := Relation.ReflTransGen.refl

lemma Contains.trans (h : t.Contains u) (h' : u.Contains v) : t.Contains v :=
  Relation.ReflTransGen.trans h h'

lemma contains_child (h : u ∈ t.children) : t.Contains u := Relation.ReflTransGen.single h

lemma contains_of_child {f : Field} (h : t.child f = .ok (some u)) : t.Contains u :=
  contains_child (Shape.mem_children_of_child h)

lemma contains_of_item {f : Field} {ts : List (Option (Tree α))} (h : t.items f = .ok ts)
    (hu : some u ∈ ts) : t.Contains u :=
  contains_child (Shape.mem_children_of_items h hu)

/-- What a tree contains is the tree itself, or contained in a node right below. -/
lemma contains_iff : t.Contains u ↔ t = u ∨ ∃ c ∈ t.children, c.Contains u :=
  Relation.ReflTransGen.cases_head_iff

/-- A node that is contained further inside stands right below a contained node. -/
lemma exists_parent_of_contains_child (hu : u ∈ t.children) (hv : u.Contains v) :
    ∃ w, t.Contains w ∧ v ∈ w.children := by
  cases hv with
  | refl => exact ⟨t, .refl t, hu⟩
  | @tail w _ hw hv => exact ⟨w, (contains_child hu).trans hw, hv⟩

/-- Induction over a tree: what holds of a tree whenever it holds of all trees that it contains
further inside holds of every tree. -/
theorem strongInduction {P : Tree α → Prop}
    (step : ∀ t : Tree α, (∀ c ∈ t.children, ∀ u, c.Contains u → P u) → P t) (t : Tree α) :
    P t := by
  have hall : ∀ u, t.Contains u → P u := by
    induction t using Tree.induction with
    | step t ih =>
      intro u hu
      rcases contains_iff.1 hu with rfl | ⟨c, hc, hu⟩
      · exact step t ih
      · exact ih c hc u hu
  exact hall t (.refl t)

end Tree

/-! ## The list of places -/

namespace Node

lemma placesItems_eq (above : List Node) (ts : List (Option Node)) :
    placesItems above ts = (Slot.list ts).children.flatMap (places above) := by
  induction ts with
  | nil => rfl
  | cons t ts ih =>
    cases t <;> simp only [placesItems, ih, Slot.children, List.filterMap_cons] <;> rfl

lemma placesSlot_eq (above : List Node) (v : Slot Node) :
    placesSlot above v = v.children.flatMap (places above) := by
  cases v with
  | node t => simp [placesSlot, Slot.children]
  | list ts => exact placesItems_eq above ts
  | _ => rfl

lemma placesFields_eq (above : List Node) (fs : List (Field × Slot Node)) :
    placesFields above fs = (fs.flatMap (·.2.children)).flatMap (places above) := by
  induction fs with
  | nil => rfl
  | cons e fs ih =>
    obtain ⟨f, v⟩ := e
    simp [placesFields, placesSlot_eq, ih]

/-- A node comes before those below it, and these in the order of its parts. -/
lemma places_eq (n : Node) (above : List Node) :
    n.places above = ⟨n, above⟩ :: n.children.flatMap (places (n :: above)) := by
  obtain ⟨i, k, s, fs⟩ := n
  simp [places, placesFields_eq, Tree.children, Shape.children]

lemma mem_places {n : Node} {above : List Node} {q : Place} :
    q ∈ n.places above ↔ q = ⟨n, above⟩ ∨ ∃ c ∈ n.children, q ∈ places (n :: above) c := by
  rw [places_eq, List.mem_cons, List.mem_flatMap]

lemma mem_places_self (n : Node) (above : List Node) : ⟨n, above⟩ ∈ n.places above :=
  mem_places.2 (.inl rfl)

/-! ### Places and containment -/

lemma Contains.exists_place {n m : Node} (h : n.Contains m) (above : List Node) :
    ∃ way, ⟨m, way⟩ ∈ n.places above := by
  induction h using Relation.ReflTransGen.head_induction_on generalizing above with
  | refl => exact ⟨above, mem_places_self m above⟩
  | @head a c hc _ ih =>
    obtain ⟨way, hw⟩ := ih (a :: above)
    exact ⟨way, mem_places.2 (.inr ⟨c, hc, hw⟩)⟩

lemma contains_of_mem_places {n : Node} {above : List Node} {q : Place}
    (h : q ∈ n.places above) : n.Contains q.node := by
  induction n using Tree.induction generalizing above with
  | step n ih =>
    rcases mem_places.1 h with rfl | ⟨c, hc, h⟩
    · exact .refl _
    · exact (Tree.contains_child hc).trans (ih c hc h)

/-- Going down from a place. -/
lemma mem_places_child {n m c : Node} {above way : List Node} (h : ⟨m, way⟩ ∈ n.places above)
    (hc : c ∈ m.children) : ⟨c, m :: way⟩ ∈ n.places above := by
  induction n using Tree.induction generalizing above with
  | step n ih =>
    rcases mem_places.1 h with h | ⟨d, hd, h⟩
    · cases h
      exact mem_places.2 (.inr ⟨c, hc, mem_places_self c _⟩)
    · exact mem_places.2 (.inr ⟨d, hd, ih d hd h⟩)

/-- Going up from a place. -/
lemma mem_places_above {n m : Node} {above way : List Node} (h : ⟨m, way⟩ ∈ n.places above) :
    (m = n ∧ way = above) ∨
      ∃ q rest, way = q :: rest ∧ ⟨q, rest⟩ ∈ n.places above ∧ m ∈ q.children := by
  induction n using Tree.induction generalizing above with
  | step n ih =>
    rcases mem_places.1 h with h | ⟨c, hc, h⟩
    · cases h
      exact .inl ⟨rfl, rfl⟩
    · right
      rcases ih c hc h with ⟨rfl, rfl⟩ | ⟨q, rest, rfl, hq, hm⟩
      · exact ⟨n, above, rfl, mem_places_self n above, hc⟩
      · exact ⟨q, rest, rfl, mem_places.2 (.inr ⟨c, hc, hq⟩), hm⟩

end Node

end RefFlow
