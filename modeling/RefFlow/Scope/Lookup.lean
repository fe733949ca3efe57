import RefFlow.Scope.Graph

/-!
# Finding scopes and variables

Besides the variable that a reference was resolved to, a name can be looked up after the fact: from
a given scope outward, or from the innermost scope at the position of an identifier.
-/

namespace RefFlow.Graph

/-- The number of the global scope. A tree without a program has the first scope in its place. -/
def global (g : Graph) : Nat :=
  match g.scopes.zipIdx.findRev? (·.1.kind == .global) with
  | some (_, i) => i
  | none => 0

/-- The scope with a number. -/
def scope (g : Graph) (i : Nat) : Except Fault Scope :=
  match g.scopes[i]? with
  | some s => .ok s
  | none => .error .noScope

/-- The scope that opens at a node: the first one, or the last one if `inner` is asked for. -/
def acquire (g : Graph) (node : Nat) (inner : Bool) : Option Nat :=
  let found := g.scopes.zipIdx.filter (·.1.block.id == node)
  (if inner then found.getLast? else found.head?).map (·.2)

/-- The innermost scope at an offset, starting from a scope that is known to be there: repeatedly
the first scope right inside whose block covers the offset. Scopes further inside have larger
numbers, so that one pass over all scopes finds it. -/
def innermost (g : Graph) (start : Nat) (offset : Nat) : Nat :=
  g.scopes.zipIdx.foldl
    (fun cur (s, i) => if s.upper == some cur ∧ s.block.span.Contains offset then i else cur) start

/-- The variable that a name means in a scope: the one of the nearest scope around that declares
it. -/
def lookup (g : Graph) (scope : Nat) (name : String) : Option VariableId :=
  let outer := match g.scopes[scope]? with
    | some s => s.outer
    | none => []
  (scope :: outer).findSome? fun i => if g.declares i name then some ⟨i, name⟩ else none

/-- The variable that a named node means, by its position and its name. -/
def find (g : Graph) (start : Nat) (node : Node) : Except Fault (Option VariableId) := do
  let _ ← g.scope start
  match ← node.text? .name with
  | some name => return g.lookup (g.innermost start node.span.start) name
  | none => return none

end RefFlow.Graph
