import RefFlow.Convert.Literal

/-!
# Statements and declarations

A program covers its whole source, whatever the span of its tree, so that every offset of the source
lies in it.
-/

namespace RefFlow.Convert

/-- A whole program. -/
def program (i : Input) (y : Layer Parsed) : Making Draft := do
  make ⟨0, max i.source.size y.span.stop⟩ .program
    [(.body, .ofList (← values y.parts)), (.sourceType, .text i.sourceType)]

/-- A statement that is an expression. -/
def expressionStatement (y : Layer Parsed) : Making Draft := do
  make y.span .expressionStatement [(.expression, ← firstValue y)]

/-- A block. -/
def block (y : Layer Parsed) : Making Draft := do
  make y.span .blockStatement [(.body, .ofList (← values y.parts))]

/-- A return. -/
def returnStatement (y : Layer Parsed) : Making Draft := do
  make y.span .returnStatement [(.argument, ← firstValue y)]

/-! ## Variables -/

/-- One declared target with its initial value. -/
def declarator (c : Parsed) : Making Draft := do
  make c.span .variableDeclarator
    [(.id, ← targetAt c.layer "name"), (.init, ← valueAt c.layer "value")]

/-- A declaration of variables, of the kind that it names. -/
def declaration (i : Input) (y : Layer Parsed) : Making Draft := do
  let kind := match y.child? "kind" with
    | some k => text i k
    | none => "var"
  let ds ← (y.constructs.filter (·.symbol == "variable_declarator")).mapM declarator
  make y.span .variableDeclaration [(.kind, .text kind), (.declarations, .ofList ds)]

/-! ## Branches and loops -/

/-- A conditional statement. -/
def ifStatement (y : Layer Parsed) : Making Draft := do
  make y.span .ifStatement
    [(.test, ← valueAt y "condition"), (.consequent, ← valueAt y "consequence"),
     (.alternate, ← valueAt y "alternative")]

/-- A clause of a loop heading, which may be wrapped in a statement. -/
def loopClause (y : Layer Parsed) (role : String) : Making (Slot Draft) :=
  match y.child? role with
  | none => return .blank
  | some c => match c.symbol with
    | "empty_statement" => return .blank
    | "expression_statement" => firstValue c.layer
    | _ => valueAt y role

/-- A loop with three clauses. -/
def forStatement (y : Layer Parsed) : Making Draft := do
  make y.span .forStatement
    [(.init, ← loopClause y "initializer"), (.test, ← loopClause y "condition"),
     (.update, ← valueAt y "increment"), (.body, ← valueAt y "body")]

/-- What a loop over the parts of a value binds: a declaration if the heading has a keyword for
one. -/
def loopTarget (i : Input) (y : Layer Parsed) : Making (Slot Draft) :=
  match y.child? "kind" with
  | none => targetAt y "left"
  | some k => do
    let left ← required y "left"
    let d ← make left.span .variableDeclarator
      [(.id, .ofOption (← left.label.target)), (.init, .blank)]
    .node <$> make left.span .variableDeclaration
      [(.kind, .text (text i k)), (.declarations, .ofList [d])]

/-- A loop over the parts of a value: over its keys, or over what it yields. -/
def forEachStatement (i : Input) (y : Layer Parsed) : Making Draft := do
  let left ← loopTarget i y
  let kind := match y.child? "operator" with
    | some o => if text i o == "of" then .forOfStatement else .forInStatement
    | none => .forInStatement
  make y.span kind
    [(.left, left), (.right, ← valueAt y "right"), (.body, ← valueAt y "body")]

/-- A loop that tests first. -/
def whileStatement (y : Layer Parsed) : Making Draft := do
  make y.span .whileStatement [(.test, ← valueAt y "condition"), (.body, ← valueAt y "body")]

/-- A loop that tests last. -/
def doStatement (y : Layer Parsed) : Making Draft := do
  make y.span .doWhileStatement
    [(.body, ← valueAt y "body"), (.test, ← valueAt y "condition")]

/-! ## Exceptions -/

/-- A statement with a handler or a finalizer. -/
def tryStatement (y : Layer Parsed) : Making Draft := do
  make y.span .tryStatement
    [(.block, ← valueAt y "body"), (.handler, ← valueAt y "handler"),
     (.finalizer, ← match y.child? "finalizer" with
       | some f => valueAt f.layer "body"
       | none => pure .blank)]

/-- A handler. -/
def catchClause (y : Layer Parsed) : Making Draft := do
  make y.span .catchClause [(.param, ← targetAt y "parameter"), (.body, ← valueAt y "body")]

end RefFlow.Convert
