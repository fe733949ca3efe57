import Mathlib.Data.List.Pairwise
import RefFlow.Proofs.Tree.Exposed

/-!
# Numbers, seats and links of nodes

A node stands in a *seat* of another one: in one of its parts, and there at one place of a list or
by itself (`Seat`, `Shape.seat?`).  If no label is met twice in a tree, no two seats have the same
node, whether they belong to one node or to two (`Distinct.seat_unique`), and numbering gives every
node a number of its own (`Distinct.sequential_numbered`).  Then the numbers tell where everything
stands (`Node.Arranged`): a node comes before what is below it, which has the numbers right after it
(`Sequential.block`), and nodes of different seats of one node are numbered in the order of the
seats (`Sequential.lt_iff_before`).

Trees can also be gone through with a stack (`Node.stackWalk`): a node is taken from it, and the
nodes right below go on it, in their order or the other way round.  The one way meets the nodes in
the order of `Node.nodes` (`stackWalk_false`), the other way in a different one, but it still meets
each of them once (`stackWalk_perm`).  Therefore it does not matter in what order every node is
linked to those right below it: in the end each node is linked to the one that it stands in
(`Distinct.linked?_eq_some_iff`).
-/

namespace RefFlow

/-! ## Seats -/

/-- The seats of a part, with who sits in them. -/
def Slot.seats {τ : Type} : Slot τ → List (Option τ)
  | .node t => [some t]
  | .list ts => ts
  | .blank | .flag _ | .text _ | .numeral _ => []

lemma Slot.filterMap_seats {τ : Type} (v : Slot τ) : v.seats.filterMap id = v.children := by
  cases v <;> rfl

/-- Where a node can stand in another one: which part it is, and which place in that part. -/
structure Seat where
  part : Nat
  place : Nat
deriving DecidableEq

/-- The one seat comes before the other, in the order of parts and of lists. -/
def Seat.Before (a b : Seat) : Prop := a.part < b.part ∨ a.part = b.part ∧ a.place < b.place

lemma Seat.before_trichotomy (a b : Seat) : a.Before b ∨ a = b ∨ b.Before a := by
  rcases Nat.lt_trichotomy a.part b.part with hpart | hpart | hpart
  · exact .inl (.inl hpart)
  · rcases Nat.lt_trichotomy a.place b.place with hplace | hplace | hplace
    · exact .inl (.inr ⟨hpart, hplace⟩)
    · exact .inr (.inl (by cases a; cases b; simp_all))
    · exact .inr (.inr (.inr ⟨hpart.symm, hplace⟩))
  · exact .inr (.inr (.inl hpart))

namespace Shape

variable {τ : Type} {s : Shape τ}

/-- Who sits in a seat. -/
def seat? (s : Shape τ) (a : Seat) : Option τ :=
  s.fields[a.part]?.bind fun e => e.2.seats[a.place]?.join

lemma seat?_eq_some_iff {a : Seat} {t : τ} :
    s.seat? a = some t ↔ ∃ e, s.fields[a.part]? = some e ∧ e.2.seats[a.place]? = some (some t) := by
  simp [seat?, Option.bind_eq_some_iff, Option.join_eq_some_iff]

/-- The nodes right below are those that have a seat. -/
lemma mem_children_iff_seat {t : τ} : t ∈ s.children ↔ ∃ a, s.seat? a = some t := by
  simp only [children, List.mem_flatMap, ← Slot.filterMap_seats, List.mem_filterMap, id,
    seat?_eq_some_iff]
  constructor
  · rintro ⟨e, he, o, ho, rfl⟩
    obtain ⟨i, hi⟩ := List.mem_iff_getElem?.1 he
    obtain ⟨j, hj⟩ := List.mem_iff_getElem?.1 ho
    exact ⟨⟨i, j⟩, e, hi, hj⟩
  · rintro ⟨a, e, he, ht⟩
    exact ⟨e, List.mem_of_getElem? he, some t, List.mem_of_getElem? ht, rfl⟩

/-- What holds between every node right below and every later one holds between those of an earlier
and of a later seat. -/
lemma rel_of_before {R : τ → τ → Prop} (h : s.children.Pairwise R) {a b : Seat} {t u : τ}
    (ht : s.seat? a = some t) (hu : s.seat? b = some u) (hab : a.Before b) : R t u := by
  obtain ⟨e, he, ht⟩ := seat?_eq_some_iff.1 ht
  obtain ⟨e', he', hu⟩ := seat?_eq_some_iff.1 hu
  obtain ⟨hwithin, hacross⟩ := List.pairwise_flatMap.1 h
  obtain ⟨hi, rfl⟩ := List.getElem?_eq_some_iff.1 he
  obtain ⟨hi', rfl⟩ := List.getElem?_eq_some_iff.1 he'
  have hmem {v : Slot τ} {k : Nat} {x : τ} (hx : v.seats[k]? = some (some x)) : x ∈ v.children := by
    rw [← Slot.filterMap_seats]
    exact List.mem_filterMap.2 ⟨some x, List.mem_of_getElem? hx, rfl⟩
  rcases hab with hpart | ⟨hpart, hplace⟩
  · exact List.pairwise_iff_getElem.1 hacross _ _ hi hi' hpart t (hmem ht) u (hmem hu)
  · -- The two seats are places of one list.
    have hsame := hwithin _ (List.getElem_mem hi)
    rw [← Slot.filterMap_seats, List.pairwise_filterMap] at hsame
    simp only [← hpart] at hu
    obtain ⟨hj, ht⟩ := List.getElem?_eq_some_iff.1 ht
    obtain ⟨hj', hu⟩ := List.getElem?_eq_some_iff.1 hu
    exact List.pairwise_iff_getElem.1 hsame _ _ hj hj' hplace t ht u hu

end Shape

namespace Node

variable {root n m c q : Node}

/-- No two seats have the same node. -/
lemma Distinct.seat_unique (h : root.Distinct) (hn : root.Contains n) (hq : root.Contains q)
    {a b : Seat} (hc : n.shape.seat? a = some c) (hm : q.shape.seat? b = some m)
    (hid : m.id = c.id) : q = n ∧ b = a := by
  have hcn : c ∈ n.children := Shape.mem_children_iff_seat.2 ⟨a, hc⟩
  have hmq : m ∈ q.children := Shape.mem_children_iff_seat.2 ⟨b, hm⟩
  obtain rfl : m = c := h.eq_of_id_eq (hq.trans (Tree.contains_child hmq))
    (hn.trans (Tree.contains_child hcn)) hid
  obtain rfl := h.eq_of_mem_children hq hn hmq hcn
  have hpairwise : q.children.Pairwise fun a b : Node => a.id ≠ b.id :=
    (List.pairwise_map.1 (h.of_contains hq)).sublist (children_sublist_nodes q)
  refine ⟨rfl, ?_⟩
  rcases b.before_trichotomy a with hba | hba | hab
  · exact absurd rfl (Shape.rel_of_before hpairwise hm hc hba)
  · exact hba
  · exact absurd rfl (Shape.rel_of_before hpairwise hc hm hab)

/-! ## Blocks of numbers -/

/-- A tree's nodes have consecutive numbers, each before those below it. -/
def Sequential (n : Node) : Prop := n.nodes.map Node.id = List.range' n.id n.nodes.length

/-- Numbering gives consecutive numbers, from zero on, if every label belongs to one node. -/
lemma Distinct.sequential_numbered (h : n.Distinct) :
    n.numbered.Sequential ∧ n.numbered.id = 0 := by
  have hids := h.ids_numbered
  rw [List.range_eq_range'] at hids
  have hid : n.numbered.id = 0 := by
    rw [nodes_eq, List.length_cons, List.range'_succ, List.map_cons] at hids
    exact (List.cons.inj hids).1
  refine ⟨?_, hid⟩
  rw [Sequential, hid, hids]

namespace Sequential

variable (h : root.Sequential)

include h

lemma child (hc : c ∈ root.children) : c.Sequential := by
  obtain ⟨before, after, hchildren⟩ := List.append_of_mem hc
  have hids : root.id :: ((before.flatMap nodes).map Node.id ++
      (c.nodes.map Node.id ++ (after.flatMap nodes).map Node.id)) =
      List.range' root.id root.nodes.length := by
    rw [← h, nodes_eq root, hchildren]
    simp
  rw [nodes_eq root, List.length_cons, List.range'_succ] at hids
  obtain ⟨-, hids⟩ := List.cons.inj hids
  obtain ⟨k, -, -, hrest⟩ := List.range'_eq_append_iff.1 hids.symm
  obtain ⟨l, -, hblock, -⟩ := List.range'_eq_append_iff.1 hrest.symm
  -- The block starts with the number of the child itself.
  have hl : l = c.nodes.length := by simpa using (congrArg List.length hblock).symm
  subst hl
  rw [Sequential, hblock]
  rw [nodes_eq c, List.length_cons, List.range'_succ, List.map_cons] at hblock
  rw [(List.cons.inj hblock).1]

lemma of_contains (hn : root.Contains n) : n.Sequential := by
  induction hn with
  | refl => exact h
  | tail _ hc ih => exact ih.child hc

lemma pairwise_nodes : root.nodes.Pairwise fun a b => a.id < b.id := by
  have hlt : (root.nodes.map Node.id).Pairwise (· < ·) := h ▸ List.pairwise_lt_range' 1
  exact List.pairwise_map.1 hlt

lemma distinct : root.Distinct := by
  rw [Distinct, h]
  exact List.nodup_range'

/-- What is below a node has the numbers right after it. -/
lemma block (hn : root.Contains n) (hm : root.Contains m) :
    n.Contains m ↔ n.id ≤ m.id ∧ m.id < n.id + n.nodes.length := by
  rw [← List.mem_range'_1, ← h.of_contains hn, ← mem_nodes_iff]
  constructor
  · exact fun hmem => List.mem_map_of_mem hmem
  · intro hmem
    obtain ⟨m', hm', hid⟩ := List.mem_map.1 hmem
    rwa [← h.distinct.eq_of_id_eq (hn.trans (mem_nodes_iff.1 hm')) hm hid]

/-- A node has a smaller number than the nodes right below it. -/
lemma id_lt (hn : root.Contains n) (hc : c ∈ n.children) : n.id < c.id := by
  have hpairwise := (h.of_contains hn).pairwise_nodes
  rw [nodes_eq, List.pairwise_cons] at hpairwise
  exact hpairwise.1 c (List.mem_flatMap.2 ⟨c, hc, mem_nodes_iff.2 (.refl c)⟩)

/-- Nodes right below one node are numbered in the order of their seats. -/
lemma lt_iff_before (hn : root.Contains n) {a b : Seat} (hc : n.shape.seat? a = some c)
    (hm : n.shape.seat? b = some m) : c.id < m.id ↔ a.Before b := by
  have hpairwise : n.children.Pairwise fun a b : Node => a.id < b.id :=
    (h.of_contains hn).pairwise_nodes.sublist (children_sublist_nodes n)
  constructor
  · intro hlt
    rcases a.before_trichotomy b with hab | rfl | hba
    · exact hab
    · rw [hc] at hm
      cases hm
      exact absurd hlt (Nat.lt_irrefl _)
    · exact absurd hlt (Nat.not_lt_of_gt (Shape.rel_of_before hpairwise hm hc hba))
  · exact Shape.rel_of_before hpairwise hc hm

end Sequential

/-! ## Going through a tree with a stack -/

/-- The nodes right below a node in the order in which they come off a stack. -/
def poppedBelow (lastFirst : Bool) (n : Node) : List Node :=
  if lastFirst then n.children.reverse else n.children

lemma poppedBelow_perm (lastFirst : Bool) (n : Node) :
    (poppedBelow lastFirst n).Perm n.children := by
  cases lastFirst with
  | false => exact .refl _
  | true => exact List.reverse_perm _

/-- The nodes that are met when a stack is worked off, which has its top in front.  The nodes right
below the one that is taken go on the stack, so that the first of them comes off next, or the last.
-/
def stackWalk (lastFirst : Bool) : List Node → List Node
  | [] => []
  | n :: stack => n :: stackWalk lastFirst (poppedBelow lastFirst n ++ stack)
termination_by stack => (stack.flatMap nodes).length
decreasing_by
  have hlength := ((poppedBelow_perm lastFirst n).flatMap_right nodes).length_eq
  rw [List.flatMap_append, List.flatMap_cons, List.length_append, List.length_append, nodes_eq n,
    List.length_cons]
  omega

/-- If the first of the nodes right below comes off next, nodes are met in the order of their
numbers. -/
lemma stackWalk_false (stack : List Node) : stackWalk false stack = stack.flatMap nodes := by
  fun_induction stackWalk false stack with
  | case1 => rfl
  | case2 n stack ih =>
    have hbelow : poppedBelow false n = n.children := rfl
    rw [ih, hbelow, List.flatMap_cons, nodes_eq n, List.flatMap_append, List.cons_append]

/-- In whatever order they come off, every node is met once. -/
lemma stackWalk_perm (lastFirst : Bool) (stack : List Node) :
    (stackWalk lastFirst stack).Perm (stack.flatMap nodes) := by
  fun_induction stackWalk lastFirst stack with
  | case1 => exact .refl _
  | case2 n stack ih =>
    have hbelow := (poppedBelow_perm lastFirst n).flatMap_right nodes
    rw [List.flatMap_append] at ih
    rw [List.flatMap_cons, nodes_eq n, List.cons_append]
    exact (ih.trans (hbelow.append_right _)).cons n

/-- The nodes as an iteration gives them. -/
def iterated (root : Node) : List Node := stackWalk false [root]

lemma iterated_eq (root : Node) : root.iterated = root.nodes := by
  rw [iterated, stackWalk_false, List.flatMap_singleton]

/-- The links that are set when the nodes right below each node are linked to it, in the order in
which they are set. -/
def links (root : Node) : List (Nat × Node) :=
  (stackWalk true [root]).flatMap fun n => n.children.map fun c : Node => (c.id, n)

/-- The node that a node is linked to: what counts is the link that was set last. -/
def linked? (root m : Node) : Option Node := root.links.reverse.lookup m.id

lemma mem_links_iff {k : Nat} :
    (k, n) ∈ root.links ↔ root.Contains n ∧ ∃ c : Node, c ∈ n.children ∧ c.id = k := by
  have hmem : ∀ x, x ∈ stackWalk true [root] ↔ root.Contains x := fun x => by
    rw [(stackWalk_perm true [root]).mem_iff, List.flatMap_singleton, mem_nodes_iff]
  simp only [links, List.mem_flatMap, List.mem_map, Prod.mk.injEq, hmem]
  constructor
  · rintro ⟨_, hn, c, hc, hid, rfl⟩
    exact ⟨hn, c, hc, hid⟩
  · rintro ⟨hn, c, hc, hid⟩
    exact ⟨n, hn, c, hc, hid, rfl⟩

/-- A node is linked to the one that it stands in. -/
lemma Distinct.linked?_eq_some_iff (h : root.Distinct) (hm : root.Contains m) :
    root.linked? m = some q ↔ root.Contains q ∧ m ∈ q.children := by
  have hlink : ∀ q, (m.id, q) ∈ root.links → root.Contains q ∧ m ∈ q.children := by
    intro q hq
    obtain ⟨hcontains, c, hc, hid⟩ := mem_links_iff.1 hq
    obtain rfl := h.eq_of_id_eq (hcontains.trans (Tree.contains_child hc)) hm hid
    exact ⟨hcontains, hc⟩
  constructor
  · intro hlinked
    obtain ⟨l₁, l₂, hl, -⟩ := List.lookup_eq_some_iff.1 hlinked
    refine hlink q (List.mem_reverse.1 ?_)
    rw [hl]
    exact List.mem_append_right l₁ List.mem_cons_self
  · rintro ⟨hq, hmq⟩
    have hsome : (root.linked? m).isSome = true :=
      List.lookup_isSome_iff.2 ⟨(m.id, q),
        List.mem_reverse.2 (mem_links_iff.2 ⟨hq, m, hmq, rfl⟩), beq_self_eq_true _⟩
    obtain ⟨q', hq'⟩ := Option.isSome_iff_exists.1 hsome
    obtain ⟨l₁, l₂, hl, -⟩ := List.lookup_eq_some_iff.1 hq'
    have hmem : (m.id, q') ∈ root.links := by
      rw [← List.mem_reverse, hl]
      exact List.mem_append_right l₁ List.mem_cons_self
    obtain ⟨hcontains, hmq'⟩ := hlink q' hmem
    rw [hq', h.eq_of_mem_children hcontains hq hmq' hmq]

/-! ## Trees that are arranged by their numbers -/

/-- The tree is arranged by the numbers of its nodes. -/
structure Arranged (root : Node) : Prop where
  /-- An iteration meets the root first, and every node once, in the order of the numbers. -/
  first : root.iterated.head? = some root
  each : ∀ m : Node, m ∈ root.iterated ↔ root.Contains m
  ordered : root.iterated.map Node.id = List.range root.iterated.length
  /-- The places of the tree are listed in the order of the iteration. -/
  placed : (root.places []).map (·.node) = root.iterated
  /-- A node has no two parts of one name. -/
  named : ∀ q : Node, root.Contains q → (q.shape.fields.map Prod.fst).Nodup
  /-- The root stands in no seat and is not linked. -/
  top : root.linked? root = none ∧
    ∀ (q : Node) (a : Seat) (m : Node), root.Contains q → q.shape.seat? a = some m → m.id ≠ root.id
  /-- Every other node stands in one seat of one node.  It is linked to that node, which is the
  first of those above it. -/
  seated : ∀ m : Node, root.Contains m → m ≠ root → ∃ (q : Node) (a : Seat),
    root.Contains q ∧ q.shape.seat? a = some m ∧
    root.linked? m = some q ∧ (∀ way, ⟨m, way⟩ ∈ root.places [] → way.head? = some q) ∧
    ∀ (q' : Node) (a' : Seat) (m' : Node), root.Contains q' → q'.shape.seat? a' = some m' →
      m'.id = m.id → q' = q ∧ a' = a
  /-- A node has a smaller number than those that stand in it. -/
  parent : ∀ (q : Node) (a : Seat) (m : Node), root.Contains q → q.shape.seat? a = some m →
    q.id < m.id
  /-- What is below a node has the numbers right after it. -/
  block : ∀ q m : Node, root.Contains q → root.Contains m →
    (q.Contains m ↔ q.id ≤ m.id ∧ m.id < q.id + q.iterated.length)
  /-- The nodes that stand in one node are numbered in the order of their seats. -/
  siblings : ∀ (q : Node) (a b : Seat) (m m' : Node), root.Contains q →
    q.shape.seat? a = some m → q.shape.seat? b = some m' → (m.id < m'.id ↔ a.Before b)

/-- The root stands in no other node. -/
lemma Sequential.not_mem_children (h : root.Sequential) (hq : root.Contains q) :
    root ∉ q.children :=
  fun hroot => (h.distinct.of_contains hq).not_contains hroot hq

/-- A node other than the root stands in one that the tree contains. -/
lemma exists_seat (hm : root.Contains m) (hne : m ≠ root) :
    ∃ q a, root.Contains q ∧ q.shape.seat? a = some m := by
  cases hm with
  | refl => exact absurd rfl hne
  | @tail q _ hq hmq =>
    obtain ⟨a, ha⟩ := Shape.mem_children_iff_seat.1 hmq
    exact ⟨q, a, hq, ha⟩

lemma Sequential.arranged (h : root.Sequential) (hzero : root.id = 0)
    (hnames : ∀ q : Node, root.Contains q → (q.shape.fields.map Prod.fst).Nodup) :
    root.Arranged where
  first := by
    rw [iterated_eq, nodes_eq]
    rfl
  each m := by rw [iterated_eq, mem_nodes_iff]
  ordered := by rw [iterated_eq, h, hzero, List.range_eq_range']
  placed := (iterated_eq root).symm
  named := hnames
  top := by
    refine ⟨Option.eq_none_iff_forall_ne_some.2 fun q hq => ?_, fun q a m hq hm => ?_⟩
    · obtain ⟨hq, hroot⟩ := (h.distinct.linked?_eq_some_iff (.refl root)).1 hq
      exact h.not_mem_children hq hroot
    · have hlt := h.id_lt hq (Shape.mem_children_iff_seat.2 ⟨a, hm⟩)
      omega
  seated m hm hne := by
    obtain ⟨q, a, hq, ha⟩ := exists_seat hm hne
    have hmq : m ∈ q.children := Shape.mem_children_iff_seat.2 ⟨a, ha⟩
    refine ⟨q, a, hq, ha, (h.distinct.linked?_eq_some_iff hm).2 ⟨hq, hmq⟩, fun way hway => ?_,
      fun q' a' m' hq' ha' hid => h.distinct.seat_unique hq hq' ha ha' hid⟩
    rcases mem_places_above hway with ⟨rfl, -⟩ | ⟨q', rest, rfl, hq', hmq'⟩
    · exact absurd rfl hne
    · rw [h.distinct.eq_of_mem_children hq (contains_of_mem_places hq') hmq hmq']
      rfl
  parent q a m hq hm := h.id_lt hq (Shape.mem_children_iff_seat.2 ⟨a, hm⟩)
  block q m hq hm := by rw [iterated_eq, h.block hq hm]
  siblings q a b m m' hq hm hm' := h.lt_iff_before hq hm hm'

end Node

end RefFlow
