import RefFlow.Program
import RefFlow.Property.Found
import RefFlow.Tree.Pattern
import RefFlow.Tree.StaticName

/-!
# Which properties of a value are read

Follows a value to the places where its properties are read: from a pattern to the variables in it,
from a variable to its occurrences, and from an occurrence to what the program does with it there.

An extractor remembers what it has found and which variables it has followed (`Memo`), and answers
later questions by it. A variable is followed once: met again, it adds nothing that is not found
already. What was remembered before something went wrong stays remembered.
-/

namespace RefFlow.Property

/-- What an extractor remembers. -/
structure Memo where
  patterns : Table Nat Found := []
  expressions : Table Nat Found := []
  visited : List VariableId := []

/-- A computation that remembers what it finds, also if it fails. -/
abbrev Extractor := ExceptT Fault (StateM Memo)

/-- Answers from memory, or else computes and remembers. -/
def remembering (get : Memo → Table Nat Found) (put : Table Nat Found → Memo → Memo) (n : Node)
    (compute : Extractor Found) : Extractor Found := do
  match (get (← MonadState.get)).get? n.id with
  | some f => return f
  | none =>
    let f ← compute
    modify fun m => put ((get m).set n.id f) m
    return f

/-- Remembers what is found for a pattern. -/
def rememberingPattern : Node → Extractor Found → Extractor Found :=
  remembering (·.patterns) fun t m => { m with patterns := t }

/-- Remembers what is found for an expression. -/
def rememberingExpression : Node → Extractor Found → Extractor Found :=
  remembering (·.expressions) fun t m => { m with expressions := t }

/-- The read by one property of a pattern, if its name is known. -/
def patternRead (property : Node) : Except Fault (Option PropertyRead) :=
  if property.kind == .property then do
    match ← property.staticName with
    | some name => return some ⟨name, property, .pattern (← property.child .value)⟩
    | none => return none
  else .ok none

/-- The reads of an object pattern. A single property without a known name makes all unknown. -/
def objectReads : List (Option Node) → Except Fault Found
  | [] => .ok (.pattern [])
  | none :: _ => .error (.missingNode "item")
  | some property :: rest => do
    match ← patternRead property with
    | none => return .any
    | some r =>
      match ← objectReads rest with
      | .pattern rs => return .pattern (r :: rs)
      | other => return other

/-- What is found for a pattern, given what is found for variables. -/
def pattern (p : Program) (onVariable : VariableId → Extractor Found) :
    Option Node → Extractor Found
  | none => return .never
  | some n => rememberingPattern n do
    match ← n.withoutDefault with
    | none => throw (.missingNode "left")
    | some core =>
      match core.kind with
      | .objectPattern => do objectReads (← core.items .properties)
      | .identifier =>
        match ← p.find core with
        | some v => onVariable v
        | none => return .never
      | _ => return .any

/-- What is found for an expression by what the nodes above it do with its value, given what is
found for variables. -/
def expression (p : Program) (onVariable : VariableId → Extractor Found) (n : Node) :
    List Node → Extractor Found
  | [] => rememberingExpression n (return .any)
  | parent :: rest => rememberingExpression n do
    match parent.kind with
    | .memberExpression =>
      if n.isNode (← parent.child .object) then
        match ← parent.staticName with
        | some name => return .member ⟨name, parent, .expression parent⟩
        | none => return .any
      else return .any
    | .assignmentExpression =>
      if (← parent.text? .operator) == some "=" then
        if n.isNode (← parent.child .right) then
          pattern p onVariable (← parent.child .left)
        else return .any
      else return .any
    | .variableDeclarator =>
      if n.isNode (← parent.child .init) then pattern p onVariable (← parent.child .id)
      else return .any
    | .tsAsExpression | .tsNonNullExpression => expression p onVariable parent rest
    | _ => return .any

/-- What is found for a variable. The budget bounds the number of variables that have not been
followed; once it is used up, all have been. -/
def ofVariable (p : Program) : Nat → VariableId → Extractor Found
  | 0, _ => return .never
  | n + 1, v => do
    if (← get).visited.contains v then return .never
    else
      modify fun m => { m with visited := v :: m.visited }
      let reads := (p.referencesTo v).filter (·.access.reads)
      return .merge (← reads.mapM fun r =>
        expression p (ofVariable p n) r.identifier (p.above r.identifier))

/-- A budget for all variables of a program. -/
def budget (p : Program) : Nat := p.graph.variableIds.length

/-- The properties that are read from the value bound to a pattern. -/
def ofPattern (p : Program) (n : Option Node) : Extractor Found :=
  pattern p (ofVariable p (budget p)) n

/-- The properties that are read from the value of an expression. -/
def ofExpression (p : Program) (n : Node) : Extractor Found :=
  expression p (ofVariable p (budget p)) n (p.above n)

end RefFlow.Property
