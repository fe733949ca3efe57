import RefFlow.Convert.Literal

/-!
# Expressions
-/

namespace RefFlow.Convert

/-- Operators that may leave their right operand unevaluated. -/
def logicalOperators : List String := ["&&", "||", "??"]

/-! ## Members and calls -/

/-- The construct is guarded against a missing object. -/
def isOptional (y : Layer Parsed) : Slot Draft := .flag (y.child? "optional_chain").isSome

/-- Access to a member by a name. -/
def member (y : Layer Parsed) : Making Draft := do
  make y.span .memberExpression
    [(.object, ← valueAt y "object"), (.property, ← valueAt y "property"),
     (.computed, .flag false), (.optional, isOptional y)]

/-- Access to a member by a computed key. -/
def subscript (y : Layer Parsed) : Making Draft := do
  make y.span .memberExpression
    [(.object, ← valueAt y "object"), (.property, ← valueAt y "index"),
     (.computed, .flag true), (.optional, isOptional y)]

/-- The arguments of a call. -/
def arguments (y : Layer Parsed) : Making (Slot Draft) :=
  match y.child? "arguments" with
  | some a => do return .ofList (← values a.layer.parts)
  | none => return .list []

/-- A call. A template in place of the arguments makes it a tagged template. -/
def call (i : Input) (y : Layer Parsed) : Making Draft := do
  let callee ← valueAt y "function"
  match (y.child? "arguments").filter (·.symbol == "template_string") with
  | some t =>
    make y.span .taggedTemplateExpression
      [(.tag, callee), (.quasi, .node (← template i t.layer))]
  | none =>
    make y.span .callExpression
      [(.callee, callee), (.arguments, ← arguments y), (.optional, isOptional y)]

/-- The construction of an object. -/
def construction (y : Layer Parsed) : Making Draft := do
  make y.span .newExpression
    [(.callee, ← valueAt y "constructor"), (.arguments, ← arguments y)]

/-! ## Operators -/

/-- A plain assignment. -/
def assignment (y : Layer Parsed) : Making Draft := do
  make y.span .assignmentExpression
    [(.operator, .text "="), (.left, ← targetAt y "left"), (.right, ← valueAt y "right")]

/-- An assignment that combines the old value with a new one. -/
def combiningAssignment (i : Input) (y : Layer Parsed) : Making Draft := do
  make y.span .assignmentExpression
    [(.operator, .text (← requiredText i y "operator")), (.left, ← targetAt y "left"),
     (.right, ← valueAt y "right")]

/-- An increment or a decrement. -/
def update (i : Input) (y : Layer Parsed) : Making Draft := do
  let operator ← required y "operator"
  let argument ← required y "argument"
  make y.span .updateExpression
    [(.operator, .text (text i operator)),
     (.beforeOperand, .flag (operator.span.start < argument.span.start)),
     (.argument, .ofOption (← argument.label.value))]

/-- An operation with two operands. -/
def binary (i : Input) (y : Layer Parsed) : Making Draft := do
  let operator ← requiredText i y "operator"
  let kind := if logicalOperators.contains operator then .logicalExpression else .binaryExpression
  make y.span kind
    [(.left, ← valueAt y "left"), (.operator, .text operator), (.right, ← valueAt y "right")]

/-- An operation with one operand. -/
def unary (i : Input) (y : Layer Parsed) : Making Draft := do
  make y.span .unaryExpression
    [(.operator, .text (← requiredText i y "operator")), (.beforeOperand, .flag true),
     (.argument, ← valueAt y "argument")]

/-- A choice between two values. -/
def conditional (y : Layer Parsed) : Making Draft := do
  make y.span .conditionalExpression
    [(.test, ← valueAt y "condition"), (.consequent, ← valueAt y "consequence"),
     (.alternate, ← valueAt y "alternative")]

/-- The operands of all components of a sequence, in order. -/
def sequenceOperands (y : Layer Parsed) : Making (List Draft) := do
  return (← y.parts.mapM (·.label.operands)).flatten

/-- Expressions of which the last one gives the value. -/
def sequence (y : Layer Parsed) : Making Draft := do
  make y.span .sequenceExpression [(.expressions, .ofList (← sequenceOperands y))]

/-- An awaited value. -/
def await (y : Layer Parsed) : Making Draft := do
  make y.span .awaitExpression [(.argument, ← firstValue y)]

/-- A yielded value. -/
def yield (y : Layer Parsed) : Making Draft := do
  make y.span .yieldExpression
    [(.argument, ← firstValue y), (.delegate, .flag (y.hasToken "*"))]

/-- A value whose parts are spread out. -/
def spread (y : Layer Parsed) : Making Draft := do
  make y.span .spreadElement [(.argument, ← firstValue y)]

/-! ## Type operators -/

/-- A value with a type put to it. -/
def ascription (y : Layer Parsed) : Making Draft := do
  make y.span .tsAsExpression [(.expression, ← firstValue y)]

/-- A value that is declared to be present. -/
def presence (y : Layer Parsed) : Making Draft := do
  make y.span .tsNonNullExpression [(.expression, ← firstValue y)]

end RefFlow.Convert
