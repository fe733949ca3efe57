import RefFlow.Convert.Literal

/-!
# Functions, members and classes

Parameters are targets; a parameter with a default becomes an assignment pattern. Methods of objects
and classes become function expressions that cover the whole member.
-/

namespace RefFlow.Convert

/-! ## Functions -/

/-- One parameter. A declared receiver binds nothing. -/
def parameter (c : Parsed) : Making (Option Draft) :=
  let y := c.layer
  if y.symbol == "required_parameter" || y.symbol == "optional_parameter" then
    match y.child? "pattern" with
    | none => return none
    | some p =>
      if p.symbol == "this" then return none
      else match y.child? "value" with
        | none => p.label.target
        | some v => do
          let left ← p.label.target
          let right ← v.label.value
          some <$> make y.span .assignmentPattern
            [(.left, .ofOption left), (.right, .ofOption right)]
  else c.label.target

/-- The parameters of a list, those that bind nothing left out. -/
def parameters (y : Layer Parsed) : Making (Slot Draft) :=
  match y.child? "parameters" with
  | none => return .list []
  | some ps => do return .ofList ((← ps.layer.parts.mapM parameter).filterMap id)

/-- A function with a name of its own. -/
def function (i : Input) (kind : Kind) (generator : Bool) (y : Layer Parsed) :
    Making Draft := do
  make y.span kind
    [(.id, ← identifierAt i y "name"),
     (.params, ← parameters y),
     (.body, ← valueAt y "body"),
     (.generator, .flag generator),
     (.isAsync, .flag (y.hasToken "async"))]

/-- An arrow function, with one bare parameter or a list of them. -/
def arrowFunction (y : Layer Parsed) : Making Draft := do
  let params ← match y.child? "parameter" with
    | some p => do pure (.list [← p.label.target])
    | none => parameters y
  let isExpression := match y.child? "body" with
    | some b => b.symbol != "statement_block"
    | none => false
  make y.span .arrowFunctionExpression
    [(.id, .blank),
     (.params, params),
     (.body, ← valueAt y "body"),
     (.expression, .flag isExpression),
     (.isAsync, .flag (y.hasToken "async"))]

/-- The function of a method. -/
def methodFunction (y : Layer Parsed) : Making Draft := do
  make y.span .functionExpression
    [(.id, .blank),
     (.params, ← parameters y),
     (.body, ← valueAt y "body"),
     (.generator, .flag (y.hasToken "*")),
     (.isAsync, .flag (y.hasToken "async"))]

/-- The kind of a member: that of an accessor, or the given one. -/
def accessorKind (y : Layer Parsed) (default : String) : String :=
  if y.hasToken "get" then "get" else if y.hasToken "set" then "set" else default

/-! ## Keys -/

/-- The key of a member: its node, if it has one, and whether it is computed. -/
structure Key where
  node : Option Draft
  computed : Bool

/-- The key that a component spells. -/
def key (i : Input) (c : Parsed) : Making Key :=
  match c.symbol with
  | "computed_property_name" => do return ⟨← value c.layer.first?, true⟩
  | "string" | "number" => do return ⟨← c.label.value, false⟩
  | "private_property_identifier" => do return ⟨some (← privateIdentifier i c.span), false⟩
  | _ => do return ⟨some (← identifier i c), false⟩

/-- The key in a role that must be filled. -/
def keyAt (i : Input) (y : Layer Parsed) (role : String) : Making Key := do
  key i (← required y role)

/-- A property of an object or an object pattern. -/
def property (span : Span) (k : Key) (value : Slot Draft) (shorthand method : Bool)
    (kind : String) : Making Draft :=
  make span .property
    [(.key, .ofOption k.node), (.value, value), (.computed, .flag k.computed),
     (.shorthand, .flag shorthand), (.method, .flag method), (.kind, .text kind)]

/-- A shorthand property: the name stands once as key and once as value. -/
def shorthandProperty (i : Input) (c : Parsed) : Making Draft := do
  property c.span ⟨some (← identifier i c), false⟩ (.node (← identifier i c)) true false "init"

/-! ## Classes -/

/-- The name of a key is the given one. -/
def Key.isNamed (k : Key) (name : String) : Bool :=
  match k.node with
  | some n => match n.text? .name with
    | .ok (some s) => s == name
    | _ => false
  | none => false

/-- The kind of a method of a class. -/
def methodKind (y : Layer Parsed) (k : Key) : String :=
  if !k.computed && k.isNamed "constructor" then "constructor" else accessorKind y "method"

/-- A method of a class. -/
def methodDefinition (i : Input) (y : Layer Parsed) : Making Draft := do
  let k ← keyAt i y "name"
  make y.span .methodDefinition
    [(.key, .ofOption k.node), (.computed, .flag k.computed),
     (.value, .node (← methodFunction y)), (.kind, .text (methodKind y k)),
     (.static, .flag (y.hasToken "static"))]

/-- A field of a class. -/
def fieldDefinition (i : Input) (y : Layer Parsed) : Making Draft := do
  let k ← match y.child? "property" with
    | some c => key i c
    | none => keyAt i y "name"
  make y.span .propertyDefinition
    [(.key, .ofOption k.node), (.computed, .flag k.computed), (.value, ← valueAt y "value"),
     (.static, .flag (y.hasToken "static"))]

/-- A block that runs when the class is set up. -/
def staticBlock (y : Layer Parsed) : Making Draft := do
  let body ← match y.child? "body" with
    | some b => values b.layer.parts
    | none => pure []
  make y.span .staticBlock [(.body, .ofList body)]

/-- A member of a class. -/
def classMember (i : Input) (c : Parsed) : Making (Option Draft) :=
  match c.symbol with
  | "method_definition" => some <$> methodDefinition i c.layer
  | "field_definition" | "public_field_definition" => some <$> fieldDefinition i c.layer
  | "class_static_block" => some <$> staticBlock c.layer
  | _ => c.label.value

/-- What one clause of a class heading names as the class above. -/
def heritageValue (c : Parsed) : Making (Option Draft) :=
  if c.symbol == "extends_clause" then
    match c.layer.child? "value" with
    | some v => v.label.value
    | none => value c.layer.first?
  else c.label.value

/-- The class above: the last one that the heading names. -/
def superClass (y : Layer Parsed) : Making (Slot Draft) :=
  match y.construct? "class_heritage" with
  | none => return .blank
  | some h => do return .ofOption ((← h.layer.parts.mapM heritageValue).getLast?.getD none)

/-- The body of a class, which covers the whole class where it is missing. -/
def classBody (i : Input) (y : Layer Parsed) : Making Draft :=
  match y.child? "body" with
  | some b => do
    let members := (← b.layer.parts.mapM (classMember i)).filterMap id
    make b.span .classBody [(.body, .ofList members)]
  | none => make y.span .classBody [(.body, .list [])]

/-- A class. -/
def classNode (i : Input) (kind : Kind) (y : Layer Parsed) : Making Draft := do
  let above ← superClass y
  let body ← classBody i y
  make y.span kind
    [(.id, ← identifierAt i y "name"), (.superClass, above), (.body, .node body)]

end RefFlow.Convert
