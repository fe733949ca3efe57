import RefFlow.Digraph.Basic

/-!
# Shortest paths

A shortest path between two nodes is searched from both ends at once. Each side holds a *trail*, the
nodes that it has reached with the neighbours by which it reached them, and a *frontier*, those of
them that it reached last. In each round the side with the smaller frontier, the source's if they
are equal, goes one edge further. As soon as it meets a node of the other side, the two halves make
a path.

Neighbours are visited in the order of the edges of the graph, which decides between paths of the
same length.
-/

namespace RefFlow.Digraph

variable {α : Type} [DecidableEq α]

/-- The nodes that one side of a search has reached, the last one first, each with the neighbour by
which it was reached. The node that the side started from has none. -/
abbrev Trail (α : Type) := List (α × Option α)

namespace Trail

/-- The node has been reached. -/
def has (t : Trail α) (v : α) : Bool := t.any fun (x, _) => x == v

/-- The way from a node back to the start of the trail. -/
def back : Trail α → α → List α
  | [], _ => []
  | (x, from?) :: rest, v =>
    if x = v then
      match from? with
      | some u => v :: back rest u
      | none => [v]
    else back rest v

end Trail

/-- What one round of a search leads to. -/
structure Sweep (α : Type) where
  trail : Trail α
  frontier : List α
  /-- A node that the other side has reached too. -/
  meeting : Option α

/-- Goes along edges, each given by a node already reached and a neighbour of it, until a node is
met that the other side has reached. -/
def sweep (other : Trail α) : List (α × α) → Trail α → List α → Sweep α
  | [], trail, frontier => ⟨trail, frontier, none⟩
  | (v, w) :: rest, trail, frontier =>
    let isNew := !trail.has w
    let trail' := if isNew then (w, some v) :: trail else trail
    let frontier' := if isNew then frontier ++ [w] else frontier
    if other.has w then ⟨trail', frontier', some w⟩ else sweep other rest trail' frontier'

/-- The edges that lead on from a frontier. -/
def ahead (neighbours : α → List α) (frontier : List α) : List (α × α) :=
  frontier.flatMap fun v => (neighbours v).map (v, ·)

/-- The path through a node that both sides have reached. -/
def join (forward backward : Trail α) (v : α) : List α :=
  (forward.back v).reverse ++ (backward.back v).drop 1

/-- A search of at most the given number of rounds. -/
def search (g : Digraph α) : Nat → Trail α → List α → Trail α → List α → Option (List α)
  | 0, _, _, _, _ => none
  | n + 1, forward, front, backward, rear =>
    if front.isEmpty || rear.isEmpty then none
    else if front.length ≤ rear.length then
      let s := sweep backward (ahead g.successors front) forward []
      match s.meeting with
      | some v => some (join s.trail backward v)
      | none => search g n s.trail s.frontier backward rear
    else
      let s := sweep forward (ahead g.predecessors rear) backward []
      match s.meeting with
      | some v => some (join forward s.trail v)
      | none => search g n forward front s.trail s.frontier

/-- A shortest path between two nodes of a graph, if there is a path. Every round but the last
reaches the end of some edge for the first time, so there are no more rounds than ends of edges, and
one. -/
def shortestPath (g : Digraph α) (source target : α) : Option (List α) :=
  if source = target then some [source]
  else search g (2 * g.edges.length + 1) [(source, none)] [source] [(target, none)] [target]

end RefFlow.Digraph
