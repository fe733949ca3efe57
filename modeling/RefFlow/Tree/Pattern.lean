import RefFlow.Tree.Preorder

/-!
# Binding patterns

What a pattern binds, read off the pattern alone.
-/

namespace RefFlow.Node

/-! ## The identifiers of a pattern -/

/-- The identifiers bound at a node, given those bound at the nodes below it. -/
def identifiersRule (node : Node) (s : Shape (Tree (Except Fault (List Node)))) :
    Except Fault (List Node) :=
  let at? : Option (Tree (Except Fault (List Node))) → Except Fault (List Node)
    | some t => t.label
    | none => .ok []
  match s.kind with
  | .identifier => .ok [node]
  | .objectPattern => do
    return (← (← s.items .properties).mapM fun
      | some m =>
        if m.kind == .property then do at? (← m.child .value)
        else if m.kind == .restElement then m.label
        else .ok []
      | none => throw (.missingNode "item")).flatten
  | .arrayPattern => do return (← (← s.items .elements).mapM at?).flatten
  | .assignmentPattern => do at? (← s.child .left)
  | .restElement => do at? (← s.child .argument)
  | _ => .ok []

/-- The identifiers that a pattern binds, in order. -/
def identifiers (pattern : Node) : Except Fault (List Node) := pattern.measure identifiersRule

/-! ## Defaults -/

/-- A node without its defaults, given the nodes below without theirs. -/
def withoutDefaultRule (node : Node) (s : Shape (Tree (Except Fault (Option Node)))) :
    Except Fault (Option Node) :=
  if s.kind == .assignmentPattern then do
    match ← s.child .left with
    | some t => t.label
    | none => return none
  else .ok (some node)

/-- A pattern without its defaults. -/
def withoutDefault (pattern : Node) : Except Fault (Option Node) :=
  pattern.measure withoutDefaultRule

end RefFlow.Node
