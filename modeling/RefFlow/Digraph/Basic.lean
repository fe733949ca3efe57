/-!
# Directed graphs

A graph remembers the order in which its nodes and edges came in. Adding an edge adds its ends, the
source first; adding what is there already changes nothing.
-/

namespace RefFlow

/-- A directed graph, with its nodes and edges in the order in which they came in. -/
structure Digraph (α : Type) where
  nodes : List α := []
  edges : List (α × α) := []
deriving DecidableEq, Repr

namespace Digraph

variable {α : Type} [DecidableEq α]

/-- The graph with a node added. -/
def addNode (g : Digraph α) (v : α) : Digraph α :=
  if v ∈ g.nodes then g else { g with nodes := g.nodes ++ [v] }

/-- The graph with an edge added. -/
def addEdge (g : Digraph α) (v w : α) : Digraph α :=
  let h := (g.addNode v).addNode w
  if (v, w) ∈ h.edges then h else { h with edges := h.edges ++ [(v, w)] }

/-- The targets of the edges from a node. -/
def successors (g : Digraph α) (v : α) : List α :=
  g.edges.filterMap fun (a, b) => if a = v then some b else none

/-- The sources of the edges to a node. -/
def predecessors (g : Digraph α) (v : α) : List α :=
  g.edges.filterMap fun (a, b) => if b = v then some a else none

@[simp] theorem mem_successors {g : Digraph α} {v w : α} :
    w ∈ g.successors v ↔ (v, w) ∈ g.edges := by
  simp [successors, List.mem_filterMap]

@[simp] theorem mem_predecessors {g : Digraph α} {v w : α} :
    w ∈ g.predecessors v ↔ (w, v) ∈ g.edges := by
  simp only [predecessors, List.mem_filterMap, Option.ite_none_right_eq_some, Option.some.injEq,
    Prod.exists]
  exact ⟨fun ⟨_, _, h, hb, ha⟩ => ha ▸ hb ▸ h, fun h => ⟨w, v, h, rfl, rfl⟩⟩

/-- The edges, by the order of their sources. -/
def adjacency (g : Digraph α) : List (α × α) :=
  g.nodes.flatMap fun v => (g.successors v).map (v, ·)

end Digraph

end RefFlow
