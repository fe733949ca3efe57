import RefFlow.Scope.Basic

/-!
# What happens in a program, scope by scope

Read from top to bottom, a program opens and closes scopes, declares names and mentions them. An
`Event` is one such step, and `Node.events` lists the steps of a program in order.

The list is computed from the leaves upward: every node gets its events as a statement or an
expression (`visit`), and its events as a binding pattern (`bind`), in which the identifiers that
the pattern binds are treated as its user says. Defaults and computed keys inside a pattern are
expressions like any others, and so are targets that are no patterns, such as members.
-/

namespace RefFlow

/-- A step of scope analysis. -/
inductive Event where
  /-- A scope opens inside the current one. -/
  | enter (kind : ScopeKind) (block : Node)
  /-- The current scope closes. -/
  | leave
  /-- Hoisted declarations are made, for which a scope must be open. -/
  | hoist
  /-- A name without a definition is declared in the current scope. -/
  | declare (name : String)
  /-- A name is defined in the current scope, or where hoisted declarations made here go. -/
  | define (hoisted : Bool) (d : Definition)
  /-- A name is mentioned in the current scope. -/
  | mention (o : Occurrence)

/-- What a node contributes to the events of a program. -/
structure Contribution where
  /-- The node itself. -/
  node : Node
  /-- As a statement or an expression. -/
  visit : Except Fault (List Event)
  /-- As a pattern, with the events for each identifier that it binds. -/
  bind : (Node → String → List Event) → Except Fault (List Event)

/-- A tree in which every node knows its contribution. -/
abbrev Visited := Tree Contribution

namespace Event

/-! ## Parts of a node -/

/-- The events of an optional expression. -/
def ofOption : Option Visited → Except Fault (List Event)
  | some t => t.label.visit
  | none => .ok []

/-- The events of a list of statements or expressions. -/
def ofItems (ts : List (Option Visited)) : Except Fault (List Event) :=
  return (← ts.mapM ofOption).flatten

/-- The events of a part of a node. -/
def ofPart (s : Shape Visited) (f : Field) : Except Fault (List Event) := do
  ofOption (← s.child f)

/-- The events of all nodes right below a node, in order. -/
def ofChildren (s : Shape Visited) : Except Fault (List Event) :=
  return (← s.children.mapM (·.label.visit)).flatten

/-- The events of an optional pattern. -/
def ofPattern (onName : Node → String → List Event) : Option Visited → Except Fault (List Event)
  | some t => t.label.bind onName
  | none => .ok []

/-- An item of a list that must not be left empty. -/
def present : Option Visited → Except Fault Visited
  | some t => .ok t
  | none => .error (.missingNode "item")

/-- The name of an identifier. -/
def nameOf (s : Shape Visited) : Except Fault String := do
  match ← s.text? .name with
  | some n => return n
  | none => throw (.missingField s.kind .name)

/-- The node stands for the identifier of an occurrence. -/
def isIdentifier (t : Visited) : Bool := t.kind == .identifier

/-! ## Declaring and mentioning -/

/-- An identifier is defined in the current scope. -/
def definition (kind : DefinitionKind) (node : Node) (declaration : Option Node) (t : Visited) :
    Except Fault (List Event) := do
  let name ← nameOf t.shape
  return [define false
    { kind := kind, identifier := t.label.node, name := name, node := node
      declaration := declaration }]

/-- The optional identifier in a part of a node is defined in the current scope. -/
def definitionAt (kind : DefinitionKind) (node : Node) (s : Shape Visited) (f : Field) :
    Except Fault (List Event) := do
  match ← s.child f with
  | some t => definition kind node none t
  | none => return []

/-- An identifier that a pattern binds as a parameter or by a handler. -/
def binding (kind : DefinitionKind) (node : Node) (identifier : Node) (name : String) :
    List Event :=
  [define false { kind := kind, identifier := identifier, name := name, node := node }]

/-- An identifier that a pattern assigns to. -/
def assigned (written : Option Node) (identifier : Node) (name : String) : List Event :=
  [mention { identifier := identifier, name := name, access := .write, written := written }]

/-- An identifier is mentioned. -/
def mentioned (access : Access) (written : Option Node) (t : Visited) :
    Except Fault (List Event) := do
  let name ← nameOf t.shape
  return [mention
    { identifier := t.label.node, name := name, access := access, written := written }]

/-! ## Patterns -/

/-- The events of a member of an object pattern. -/
def ofPatternMember (onName : Node → String → List Event) (t : Visited) :
    Except Fault (List Event) :=
  if t.kind == .property then do
    let key ← if ← t.flag .computed then ofPart t.shape .key else pure []
    return key ++ (← ofPattern onName (← t.child .value))
  else t.label.bind onName

/-- The events of a node as a pattern; `visit` are those it has as an expression. -/
def bindRule (node : Node) (s : Shape Visited) (visit : Except Fault (List Event))
    (onName : Node → String → List Event) : Except Fault (List Event) :=
  match s.kind with
  | .identifier => do return onName node (← nameOf s)
  | .objectPattern => do
    return (← (← s.items .properties).mapM fun p => do
      ofPatternMember onName (← present p)).flatten
  | .arrayPattern => do return (← (← s.items .elements).mapM (ofPattern onName)).flatten
  | .assignmentPattern => do
    let left ← ofPattern onName (← s.child .left)
    return left ++ (← ofPart s .right)
  | .restElement => do ofPattern onName (← s.child .argument)
  | _ => visit

/-! ## Declarations -/

/-- The keyword of hoisted declarations. -/
def hoistedKeyword : String := "var"

/-- The declaration at a node is hoisted. -/
def isHoisted (s : Shape Visited) : Except Fault Bool := do
  return (← s.text? .kind) == some hoistedKeyword

/-- An identifier that a declarator binds. It is written to if there is something to write: an
initial value, or the parts that a loop runs over. -/
def declared (hoisted inLoop : Bool) (declaration declarator : Node) (keyword : Option String)
    (init : Option Node) (identifier : Node) (name : String) : List Event :=
  let d : Definition :=
    { kind := .variable, identifier := identifier, name := name, node := declarator
      declaration := some declaration, keyword := keyword }
  let write : Occurrence :=
    { identifier := identifier, name := name, access := .write, written := init, initial := true }
  define hoisted d :: if init.isSome || inLoop then [mention write] else []

/-- The events of a declaration of variables. -/
def ofDeclaration (inLoop : Bool) (node : Node) (s : Shape Visited) :
    Except Fault (List Event) := do
  let keyword ← s.text? .kind
  let hoisted ← isHoisted s
  let declarators ← (← s.items .declarations).mapM fun item => do
    let t ← present item
    let init ← t.child .init
    let onName := declared hoisted inLoop node t.label.node keyword (init.map (·.label.node))
    let names ← ofPattern onName (← t.child .id)
    return names ++ (← ofOption init)
  return (if hoisted then [hoist] else []) ++ declarators.flatten

/-- The events of an import: its names are defined. -/
def ofImport (node : Node) (s : Shape Visited) : Except Fault (List Event) := do
  return (← (← s.items .specifiers).mapM fun item => do
    let t ← present item
    match ← t.child .localName with
    | some l => definition .importBinding t.label.node (some node) l
    | none => throw (.missingNode "local")).flatten

/-- The events of an export of names: it reads those of this module. -/
def ofExport (s : Shape Visited) : Except Fault (List Event) := do
  match ← s.child .declaration with
  | some d => d.label.visit
  | none =>
    match ← s.child .source with
    | some _ => return []
    | none =>
      return (← (← s.items .specifiers).mapM fun item => do
        let t ← present item
        match ← t.child .localName with
        | some l => if isIdentifier l then mentioned .read none l else pure []
        | none => throw (.missingNode "local")).flatten

/-! ## Scopes -/

/-- Events inside a scope of their own. -/
def within (kind : ScopeKind) (node : Node) (es : List Event) : List Event :=
  enter kind node :: es ++ [leave]

/-- Events inside a scope of their own, if the condition holds. -/
def withinIf (b : Bool) (kind : ScopeKind) (node : Node) (es : List Event) : List Event :=
  if b then within kind node es else es

/-- A list of statements in a scope. -/
def ofBlock (kind : ScopeKind) (node : Node) (s : Shape Visited) : Except Fault (List Event) := do
  return within kind node (← ofItems (← s.items .body))

/-- The events of a whole program. A module has a scope of its own inside the global one. -/
def ofProgram (sourceType : String) (globals : List String) (node : Node) (s : Shape Visited) :
    Except Fault (List Event) := do
  let body ← ofItems (← s.items .body)
  return within .global node
    (globals.map declare ++ withinIf (sourceType == "module") .module node body)

/-- The events of a function. A block as its body shares the scope of the parameters; a function
expression's name is known inside it only. -/
def ofFunction (node : Node) (s : Shape Visited) : Except Fault (List Event) := do
  let own ← if s.kind == .functionExpression then definitionAt .functionName node s .id else pure []
  let receiver := if s.kind == .arrowFunctionExpression then [] else [declare "arguments"]
  let params ← (← s.items .params).mapM (ofPattern (binding .parameter node))
  let body ← match ← s.child .body with
    | some b => if b.kind == .blockStatement then do ofItems (← b.items .body) else b.label.visit
    | none => pure []
  return within .function node (own ++ receiver ++ params.flatten ++ body)

/-- The events of a class. What it extends lies outside its scope. -/
def ofClass (node : Node) (s : Shape Visited) : Except Fault (List Event) := do
  let above ← ofPart s .superClass
  let own ← if s.kind == .classExpression then definitionAt .className node s .id else pure []
  match ← s.child .body with
  | some b => return above ++ within .classBody node (own ++ (← ofItems (← b.items .body)))
  | none => throw (.missingNode "body")

/-- The events of an enumeration. Its members are known to all initial values in it. -/
def ofEnum (node : Node) (s : Shape Visited) : Except Fault (List Event) := do
  let own ← definitionAt .enumName node s .id
  let members ← (← s.items .members).mapM present
  let names ← members.mapM fun m => do
    match ← m.child .id with
    | some t => if isIdentifier t then definition .enumMember m.label.node none t else pure []
    | none => pure []
  let values ← members.mapM fun m => ofPart m.shape .initializer
  return own ++ within .enum node (names.flatten ++ values.flatten)

/-- The optional node is a declaration that is not hoisted. -/
def isLexical : Option Visited → Except Fault Bool
  | some t => if t.kind == .variableDeclaration then do return !(← isHoisted t.shape) else .ok false
  | none => .ok false

/-- The events of a loop with three clauses. -/
def ofLoop (node : Node) (s : Shape Visited) : Except Fault (List Event) := do
  let lexical ← isLexical (← s.child .init)
  let init ← ofPart s .init
  let test ← ofPart s .test
  let update ← ofPart s .update
  let body ← ofPart s .body
  return withinIf lexical .loop node (init ++ test ++ update ++ body)

/-- The events of a loop over the parts of a value, which lies outside the loop's scope. -/
def ofForEach (node : Node) (s : Shape Visited) : Except Fault (List Event) := do
  let right ← s.child .right
  let value ← ofOption right
  match ← s.child .left with
  | none => throw (.missingNode "left")
  | some left =>
    let lexical ← isLexical (some left)
    let target ← if left.kind == .variableDeclaration
      then ofDeclaration true left.label.node left.shape
      else left.label.bind (assigned (right.map (·.label.node)))
    let body ← ofPart s .body
    return value ++ withinIf lexical .loop node (target ++ body)

/-- The events of a handler. -/
def ofHandler (node : Node) (s : Shape Visited) : Except Fault (List Event) := do
  let param ← ofPattern (binding .catchClause node) (← s.child .param)
  let body ← ofPart s .body
  return within .handler node (param ++ body)

/-! ## Expressions -/

/-- The events of an assignment. -/
def ofAssignment (s : Shape Visited) : Except Fault (List Event) := do
  let right ← s.child .right
  let written := right.map (·.label.node)
  let left ← s.child .left
  let target ← if (← s.text? .operator) == some "="
    then ofPattern (assigned written) left
    else match left with
      | some l => if isIdentifier l then mentioned .readWrite written l else l.label.visit
      | none => pure []
  return target ++ (← ofOption right)

/-- The events of an increment or a decrement. -/
def ofUpdate (s : Shape Visited) : Except Fault (List Event) := do
  match ← s.child .argument with
  | some t => if isIdentifier t then mentioned .readWrite none t else t.label.visit
  | none => return []

/-- The events of a member access: a name after a dot is no expression. -/
def ofMember (s : Shape Visited) : Except Fault (List Event) := do
  let object ← ofPart s .object
  let key ← if ← s.flag .computed then ofPart s .property else pure []
  return object ++ key

/-- The events of a member of an object or a class: only a computed key is an expression. -/
def ofProperty (s : Shape Visited) : Except Fault (List Event) := do
  let key ← if ← s.flag .computed then ofPart s .key else pure []
  return key ++ (← ofPart s .value)

/-! ## All nodes -/

/-- The events of a node as a statement or an expression. -/
def visitRule (sourceType : String) (globals : List String) (node : Node) (s : Shape Visited) :
    Except Fault (List Event) :=
  match s.kind with
  | .program => ofProgram sourceType globals node s
  | .blockStatement => ofBlock .block node s
  | .staticBlock => ofBlock .staticBlock node s
  | .switchBody => do return within .switch node (← ofChildren s)
  | .variableDeclaration => ofDeclaration false node s
  | .importDeclaration => ofImport node s
  | .exportNamedDeclaration => ofExport s
  | .exportAllDeclaration => .ok []
  | .functionDeclaration => do
    return (← definitionAt .functionName node s .id) ++ (← ofFunction node s)
  | .functionExpression | .arrowFunctionExpression => ofFunction node s
  | .classDeclaration => do return (← definitionAt .className node s .id) ++ (← ofClass node s)
  | .classExpression => ofClass node s
  | .methodDefinition | .propertyDefinition | .property => ofProperty s
  | .tsEnumDeclaration => ofEnum node s
  | .tsModuleDeclaration => do
    return (← definitionAt .namespaceName node s .id) ++ (← ofPart s .body)
  | .forStatement => ofLoop node s
  | .forInStatement | .forOfStatement => ofForEach node s
  | .catchClause => ofHandler node s
  | .identifier => do
    return [mention { identifier := node, name := ← nameOf s, access := .read }]
  | .assignmentExpression => ofAssignment s
  | .updateExpression => ofUpdate s
  | .memberExpression => ofMember s
  | .objectPattern | .arrayPattern | .assignmentPattern | .restElement =>
    bindRule node s (.ok []) (assigned none)
  | _ => ofChildren s

/-- What a node contributes, given what the nodes below it contribute. -/
def contribution (sourceType : String) (globals : List String) (node : Node) (s : Shape Visited) :
    Contribution :=
  let visit := visitRule sourceType globals node s
  { node := node, visit := visit, bind := bindRule node s visit }

end Event

/-- The events of a program. -/
def Node.events (sourceType : String) (globals : List String) (root : Node) :
    Except Fault (List Event) :=
  (root.measure (Event.contribution sourceType globals)).visit

end RefFlow
