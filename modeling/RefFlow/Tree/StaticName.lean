import RefFlow.Tree.Preorder

/-!
# Names of members

The name of a member is known without running the program if it is written as an identifier, as a
string or a number, or as a template without substitutions. A number names the member that its
value spells, so that all spellings of a number name the same member; asking for the name of a
number with too many digits is a fault.
-/

namespace RefFlow.Node

/-- The name that a literal spells. -/
def literalName (key : Node) : Except Fault (Option String) := do
  match ← key.shape.slot .value with
  | .text s => return some s
  | .numeral n => match n.name? with
    | some name => return some name
    | none => throw .overlongNumber
  | _ => key.text? .raw

/-- The name that a key spells. -/
def keyName (computed : Bool) (key : Node) : Except Fault (Option String) :=
  match key.kind with
  | .identifier | .privateIdentifier => if computed then .ok none else key.text? .name
  | .literal => literalName key
  | .templateLiteral => key.text? .cooked
  | _ => .ok none

/-- The field that holds the key of a node that names a member. -/
def keyField? : Kind → Option Field
  | .memberExpression => some .property
  | .property | .methodDefinition | .propertyDefinition => some .key
  | _ => none

/-- The name of the member that a node names, if it is known. -/
def staticName (n : Node) : Except Fault (Option String) :=
  match keyField? n.kind with
  | none => .ok none
  | some f => do
    match ← n.child f with
    | none => return none
    | some key => keyName (← n.flag .computed) key

end RefFlow.Node
