import RefFlow.Convert.Function

/-!
# Objects, arrays and patterns

The same text can stand for a value and for a target: `[a, b]` is an array on the right of an
assignment and a pattern on its left. `object` and `array` read the value, `objectPattern` and
`arrayPattern` the target.
-/

namespace RefFlow.Convert

/-! ## Values -/

/-- A member of an object. -/
def objectMember (i : Input) (c : Parsed) : Making (Option Draft) :=
  match c.symbol with
  | "pair" => do
    let k ← keyAt i c.layer "key"
    some <$> property c.span k (← valueAt c.layer "value") false false "init"
  | "shorthand_property_identifier" => some <$> shorthandProperty i c
  | "method_definition" => do
    let k ← keyAt i c.layer "name"
    some <$> property c.span k (.node (← methodFunction c.layer)) false true
      (accessorKind c.layer "init")
  | _ => c.label.value

/-- An object. -/
def object (i : Input) (y : Layer Parsed) : Making Draft := do
  make y.span .objectExpression
    [(.properties, .ofList ((← y.parts.mapM (objectMember i)).filterMap id))]

/-- An array. Places that are left empty do not count. -/
def array (y : Layer Parsed) : Making Draft := do
  make y.span .arrayExpression [(.elements, .ofList (← values y.parts))]

/-! ## Targets -/

/-- A pattern with a default. -/
def assignmentPattern (y : Layer Parsed) : Making Draft := do
  make y.span .assignmentPattern
    [(.left, ← targetAt y "left"), (.right, ← valueAt y "right")]

/-- A member of an object pattern; what cannot stand in a pattern is dropped. -/
def patternMember (i : Input) (c : Parsed) : Making (Option Draft) :=
  match c.symbol with
  | "pair_pattern" | "pair" => do
    let k ← keyAt i c.layer "key"
    some <$> property c.span k (← targetAt c.layer "value") false false "init"
  | "shorthand_property_identifier_pattern" | "shorthand_property_identifier" =>
    some <$> shorthandProperty i c
  | "object_assignment_pattern" => do
    let left ← required c.layer "left"
    let named :=
      left.symbol == "shorthand_property_identifier_pattern" || left.symbol == "identifier"
    let key ← if named then some <$> identifier i left else pure none
    some <$> property c.span ⟨key, false⟩ (.node (← assignmentPattern c.layer)) true false "init"
  | "rest_pattern" | "spread_element" => c.label.target
  | _ => return none

/-- An object pattern. -/
def objectPattern (i : Input) (y : Layer Parsed) : Making Draft := do
  make y.span .objectPattern
    [(.properties, .ofList ((← y.parts.mapM (patternMember i)).filterMap id))]

/-- An array pattern. -/
def arrayPattern (y : Layer Parsed) : Making Draft := do
  make y.span .arrayPattern [(.elements, .list (← y.parts.mapM (·.label.target)))]

/-- The rest of what a pattern takes apart. -/
def restElement (y : Layer Parsed) : Making Draft := do
  make y.span .restElement [(.argument, .ofOption (← target y.first?))]

/-- What a construct becomes as a target. One that is no pattern stands for its value. -/
def readTarget (i : Input) (y : Layer Parsed) (value : Making (Option Draft)) :
    Making (Option Draft) :=
  match y.symbol with
  | "identifier" | "shorthand_property_identifier_pattern" | "shorthand_property_identifier"
  | "undefined" => some <$> make y.span .identifier [(.name, .text (i.source.text y.span))]
  | "object_pattern" | "object" => some <$> objectPattern i y
  | "array_pattern" | "array" => some <$> arrayPattern y
  | "assignment_pattern" | "assignment_expression" => some <$> assignmentPattern y
  | "rest_pattern" | "spread_element" => some <$> restElement y
  | "parenthesized_expression" => target y.first?
  | _ => value

end RefFlow.Convert
