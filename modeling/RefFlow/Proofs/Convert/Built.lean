import RefFlow.Proofs.Convert.Conforming
import RefFlow.Proofs.Convert.Unshared
import RefFlow.Proofs.Tree.Numbering

/-!
# The tree that a conversion builds

What can be said of every tree that comes out of `Convert.build`, whatever the concrete tree is.
Its nodes are arranged by their numbers (`arranged_of_build`).  A node that stood in two seats would
have one number, but no rule puts a node that it makes or is given in two seats: where one construct
is read twice, as the key and the value of a shorthand property are, two nodes are made.  And where
the ranges of the concrete tree are nested, so are the spans of the nodes (`spans_of_build`),
although nodes are made of components of components, and some cover a construct that they do not
stand for.

The rules of the conversion were gone through in `Proofs/Convert/Conforming` for the parts of nodes,
and in `Proofs/Convert/Unshared` for the nodes that are made.  The numbers are the subject of
`Proofs/Tree/Numbering`.
-/

namespace RefFlow.Convert

open Fallible

variable {i : Input} {c : Concrete Unit} {root : Node}

/-- **Nested ranges give nested spans.**  If the range of every concrete node lies inside that of
its parent and only the root may be a program, the span of every node of the tree lies inside that
of the node that it stands in, and inside those of all nodes above it. -/
theorem spans_of_build (h : build i c = .ok root) (hnested : c.NestedRanges) :
    (∀ q : Node, root.Contains q → ∀ m ∈ q.children, m.span.Within q.span) ∧
      ∀ place ∈ root.places [], ∀ q ∈ place.above, place.node.span.Within q.span := by
  have hconforming := conforming_build h
  have hchild : ∀ q : Node, root.Contains q → ∀ m ∈ q.children, m.span.Within q.span :=
    fun q hq m hm => ((hconforming q hq).2.inner m hm).within hnested
  refine ⟨hchild, ?_⟩
  rintro ⟨m, way⟩ hplace q hq
  -- Upward from the place, one node after the other.
  induction way generalizing m with
  | nil => cases hq
  | cons u us ih =>
    rcases Node.mem_places_above hplace with ⟨-, hnil⟩ | ⟨u', us', heq, hu, hmu⟩
    · cases hnil
    · cases heq
      have hwithin := hchild u (Node.contains_of_mem_places hu) m hmu
      rcases List.mem_cons.1 hq with rfl | hq
      · exact hwithin
      · exact hwithin.trans (ih u hu hq)

/-- The bytes of the text ` for(const a of b)try{}finally{({a})}`. -/
def loopInput : Input := ⟨⟨" for(const a of b)try{}finally{({a})}".toUTF8.toList⟩, "module"⟩

/-- The concrete tree of the text, which starts after the blank. -/
def loopTree : Concrete Unit :=
  .node "program" none 1 37
    [.node "for_in_statement" none 1 37
      [.token "const" (some "kind") 5 10,
       .identifier (some "left") 11 12,
       .token "of" (some "operator") 13 15,
       .identifier (some "right") 16 17,
       .node "try_statement" (some "body") 18 37
        [.node "statement_block" (some "body") 21 23 [],
         .node "finally_clause" (some "finalizer") 23 37
          [.node "statement_block" (some "body") 30 37
            [.node "expression_statement" none 31 36
              [.node "parenthesized_expression" none 31 36
                [.node "object" none 32 35
                  [.node "shorthand_property_identifier" none 33 34 []]]]]]]]]

/-- The ranges of the tree are nested, and so are the spans of the fourteen nodes that it is
converted to. -/
theorem spans_loopTree : loopTree.NestedRanges ∧ ∃ root, build loopInput loopTree = .ok root ∧
    root.nodes.length = 14 ∧ root.span = ⟨0, 37⟩ ∧
    ∀ q : Node, root.Contains q → ∀ m ∈ q.children, m.span.Within q.span := by
  have hnested : loopTree.NestedRanges := by decide +kernel
  have hall : (build loopInput loopTree).toOption.any fun root =>
      root.nodes.length == 14 && root.span == ⟨0, 37⟩ := by decide +kernel
  obtain ⟨root, hroot, hall⟩ := exists_ok_of_any hall
  obtain ⟨hlength, hspan⟩ := Bool.and_eq_true_iff.1 hall
  exact ⟨hnested, root, hroot, beq_iff_eq.1 hlength, beq_iff_eq.1 hspan,
    (spans_of_build hroot hnested).1⟩

/-- **The tree is arranged by the numbers of its nodes.**  No node that the conversion makes stands
in two seats.  So an iteration meets the root first and every node once, in the order of the
numbers.  Every other node stands in one seat of one node, to which it is linked.  It has a larger
number than that node, whose other nodes are numbered in the order of their seats, and all that is
below it has the numbers right after it. -/
theorem arranged_of_build (h : build i c = .ok root) :
    (∃ made : Draft, draft i c = .ok made ∧ root = made.numbered ∧
      ∀ (q q' : Draft) (a a' : Seat) (m m' : Draft), made.Contains q → made.Contains q' →
        q.shape.seat? a = some m → q'.shape.seat? a' = some m' → m'.label = m.label →
        q' = q ∧ a' = a) ∧
    root.Arranged := by
  have hnames : ∀ q : Node, root.Contains q → (q.shape.fields.map Prod.fst).Nodup :=
    fun q hq => (conforming_build h q hq).1.nodup_fields
  obtain ⟨made, hmade, rfl⟩ := map_ok_iff.1 h
  have hdistinct := distinct_draft hmade
  obtain ⟨hsequential, hzero⟩ := hdistinct.sequential_numbered
  refine ⟨⟨made, hmade, rfl, ?_⟩, hsequential.arranged hzero hnames⟩
  intro q q' a a' m m' hq hq' hm hm' hlabel
  exact hdistinct.seat_unique hq hq' hm hm' hlabel

/-- In the tree of the loop, the key and the value of the shorthand property come from the same
construct, and are two nodes. -/
theorem arranged_loopTree : ∃ root q key value : Node, build loopInput loopTree = .ok root ∧
    root.Arranged ∧ root.Contains q ∧ q.kind = .property ∧ q.shape.seat? ⟨0, 0⟩ = some key ∧
    q.shape.seat? ⟨1, 0⟩ = some value ∧ key.span = value.span ∧ key.id < value.id := by
  have hall : (build loopInput loopTree).toOption.any fun root => root.nodes.any fun q : Node =>
      q.kind == .property && (q.shape.seat? ⟨0, 0⟩).any fun key =>
        (q.shape.seat? ⟨1, 0⟩).any fun value => key.span == value.span := by decide +kernel
  obtain ⟨root, hroot, hall⟩ := exists_ok_of_any hall
  obtain ⟨q, hq, hall⟩ := List.any_eq_true.1 hall
  obtain ⟨hkind, hall⟩ := Bool.and_eq_true_iff.1 hall
  obtain ⟨key, hkey, hall⟩ := (Option.any_eq_true _ _).1 hall
  obtain ⟨value, hvalue, hspan⟩ := (Option.any_eq_true _ _).1 hall
  have harranged := (arranged_of_build hroot).2
  have hcontains := Node.mem_nodes_iff.1 hq
  refine ⟨root, q, key, value, hroot, harranged, hcontains, beq_iff_eq.1 hkind, hkey, hvalue,
    beq_iff_eq.1 hspan, ?_⟩
  exact (harranged.siblings q _ _ key value hcontains hkey hvalue).2 (.inl Nat.zero_lt_one)

end RefFlow.Convert
