import RefFlow.Tree.Basic

/-!
# Numbering nodes

The nodes of a program are numbered from zero in the order in which a reader meets them: a node
before the nodes below it, and those in the order of its parts. A numbered tree is a `Node`, and two
nodes of one program are the same exactly if they have the same number. The conversion labels nodes
in the order in which they were made, so that a node can be told from others that look the same;
`Tree.numbered` replaces these labels.

`Node.places` lists the nodes in that order, each with the nodes above it. The nodes above are a
list, the nearest first, so that walking up from a node is recursion on that list.
-/

namespace RefFlow

/-- A node of a numbered tree. -/
abbrev Node := Tree Nat

namespace Node

/-- The number of a node. -/
def id (n : Node) : Nat := n.label

/-- The optional node is the given one. -/
def isNode (n : Node) : Option Node → Bool
  | some m => m.id == n.id
  | none => false

end Node

/-- A node with the nodes above it, its parent first. -/
structure Place where
  node : Node
  above : List Node

namespace Node

mutual

/-- The nodes of a tree in the order of their numbers, each with the nodes above it, where `above`
are those above the tree. -/
def places (above : List Node) : Node → List Place
  | .mk n ⟨k, s, fs⟩ =>
    ⟨.mk n ⟨k, s, fs⟩, above⟩ :: placesFields (.mk n ⟨k, s, fs⟩ :: above) fs

/-- `places` on the parts of a node. -/
def placesFields (above : List Node) : List (Field × Slot Node) → List Place
  | [] => []
  | (_, v) :: rest => placesSlot above v ++ placesFields above rest

/-- `places` on one part. -/
def placesSlot (above : List Node) : Slot Node → List Place
  | .node t => places above t
  | .list ts => placesItems above ts
  | .blank | .flag _ | .text _ | .numeral _ => []

/-- `places` on a list. -/
def placesItems (above : List Node) : List (Option Node) → List Place
  | [] => []
  | none :: rest => placesItems above rest
  | some t :: rest => places above t ++ placesItems above rest

end

end Node

/-- The tree with its nodes numbered from zero, in the order in which they stand.  Which node it is
that stands somewhere is seen from its label. -/
def Tree.numbered (t : Tree Nat) : Node :=
  let standing := (Node.places [] t).map (·.node.label)
  t.annotate fun n _ => standing.idxOf n.label

end RefFlow
