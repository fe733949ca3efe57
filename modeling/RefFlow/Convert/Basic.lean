import RefFlow.Concrete
import RefFlow.Text.TitleCase
import RefFlow.Tree.Basic

/-!
# Reading concrete syntax

The conversion turns a concrete tree into an abstract one. What a concrete node becomes depends on
where it stands: as a *value* (an expression or a statement), as a *target* (something that is bound
or assigned to), as the *name* of a markup element, or among the *operands* of a sequence.
`Reading` holds all of these, and a concrete tree annotated with readings (`Parsed`) lets every
conversion rule pick, for each of its components, the reading it needs.

A rule fails with a `Fault` if the construct lacks a component that it cannot do without. A
component that is merely absent, or that is skipped, reads as nothing.

A reading makes nodes, and makes them anew every time that it is carried out: a construct that is
read twice becomes two nodes. `Making` counts the nodes that have been made, and every node is
labelled with the count at which it was, which tells it from all others. A node that a rule put in
two places would have the same label in both.
-/

namespace RefFlow

/-- An abstract tree as it is made. A node is labelled with the number of nodes made before it. -/
abbrev Draft := Tree Nat

/-- A computation that makes nodes, given how many have been made before. -/
abbrev Making := StateT Nat (Except Fault)

/-- What a concrete node becomes, by the position in which it stands. -/
structure Reading where
  /-- As an expression or a statement. -/
  value : Making (Option Draft)
  /-- As something that is bound or assigned to. -/
  target : Making (Option Draft)
  /-- As the name of an element or an attribute. -/
  name : Making Draft
  /-- As operands of a sequence: a sequence inside a sequence contributes its own operands. -/
  operands : Making (List Draft)

/-- A concrete tree in which every node knows its readings. -/
abbrev Parsed := Concrete Reading

namespace Convert

/-- What a conversion starts from besides the tree: the bytes that the tree was parsed from, and how
the program is to be run. -/
structure Input where
  source : Source
  sourceType : String

/-- A conversion rule. -/
abbrev Rule := Layer Parsed → Making (Option Draft)

/-- Makes a node of a kind with the given parts. -/
def make (span : Span) (kind : Kind) (fields : List (Field × Slot Draft)) : Making Draft :=
  fun made => .ok (.mk made ⟨kind, span, fields⟩, made + 1)

/-- An optional component as a value. -/
def value : Option Parsed → Making (Option Draft)
  | none => return none
  | some c => c.label.value

/-- An optional component as a target. -/
def target : Option Parsed → Making (Option Draft)
  | none => return none
  | some c => c.label.target

/-- Components as values, those that read as nothing left out. -/
def values (cs : List Parsed) : Making (List Draft) := do
  return (← cs.mapM (·.label.value)).filterMap id

/-- A component that must be there. -/
def required (y : Layer Parsed) (role : String) : Making Parsed :=
  match y.child? role with
  | some c => return c
  | none => throw (.missingNode role)

/-- The text of a concrete node. -/
def text (i : Input) (c : Parsed) : String := i.source.text c.span

/-- The text of a component that must be there. -/
def requiredText (i : Input) (y : Layer Parsed) (role : String) : Making String := do
  return text i (← required y role)

/-- The part for an optional component read as a value. -/
def valueAt (y : Layer Parsed) (role : String) : Making (Slot Draft) :=
  return .ofOption (← value (y.child? role))

/-- The part for an optional component read as a target. -/
def targetAt (y : Layer Parsed) (role : String) : Making (Slot Draft) :=
  return .ofOption (← target (y.child? role))

/-- The part for the first construct below, read as a value. -/
def firstValue (y : Layer Parsed) : Making (Slot Draft) :=
  return .ofOption (← value y.first?)

/-- The part for an optional component, given what node is made for it. -/
def slotFor (f : Parsed → Making Draft) : Option Parsed → Making (Slot Draft)
  | some c => .node <$> f c
  | none => return .blank

/-- An identifier that covers a concrete node. -/
def identifier (i : Input) (c : Parsed) : Making Draft :=
  make c.span .identifier [(.name, .text (text i c))]

/-- An identifier for a component, if it is there. -/
def identifierAt (i : Input) (y : Layer Parsed) (role : String) : Making (Slot Draft) :=
  slotFor (identifier i) (y.child? role)

/-! ## Constructs without a rule of their own -/

/-- The kind that a symbol gives to a construct without a rule: its words, capitalised and joined.
-/
def kindOfSymbol (symbol : String) : Kind :=
  .ofName (String.ofList ((symbol.toList.splitOn '_').flatMap Text.capitalize))

/-- A construct without a rule of its own keeps its components as expressions. -/
def generic (y : Layer Parsed) : Making Draft := do
  make y.span (kindOfSymbol y.symbol) [(.nodes, .ofList (← values y.parts))]

end Convert

end RefFlow
