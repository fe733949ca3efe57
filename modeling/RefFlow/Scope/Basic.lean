import RefFlow.Table
import RefFlow.Tree.Preorder

/-!
# Scopes, variables and references

The nouns of scope analysis. A *scope* is a stretch of the program in which names are declared; it
belongs to a node, its block. A *variable* is a name in one scope, with the places that define it.
A *reference* is an occurrence of an identifier that reads or writes a variable.

Scopes are numbered in the order in which they are opened, and references in the order in which they
are met. A variable is identified by its scope and its name.
-/

namespace RefFlow

/-- What opens a scope. -/
inductive ScopeKind where
  | global | module | block | staticBlock | switch | function | classBody | enum | loop | handler
deriving DecidableEq, Repr

namespace ScopeKind

/-- The name of a kind of scopes. -/
def text : ScopeKind → String
  | global => "global"
  | module => "module"
  | block => "block"
  | staticBlock => "class-static-block"
  | switch => "switch"
  | function => "function"
  | classBody => "class"
  | enum => "tsEnum"
  | loop => "for"
  | handler => "catch"

/-- Hoisted declarations stop at scopes of this kind. -/
def hoists : ScopeKind → Bool
  | global | module | function | staticBlock => true
  | _ => false

end ScopeKind

/-- How a variable comes to be defined. -/
inductive DefinitionKind where
  | variable | functionName | className | parameter | importBinding | catchClause | enumName
  | enumMember | namespaceName
deriving DecidableEq, Repr

/-- The name of a kind of definitions. -/
def DefinitionKind.text : DefinitionKind → String
  | .variable => "Variable"
  | .functionName => "FunctionName"
  | .className => "ClassName"
  | .parameter => "Parameter"
  | .importBinding => "ImportBinding"
  | .catchClause => "CatchClause"
  | .enumName => "TSEnumName"
  | .enumMember => "TSEnumMember"
  | .namespaceName => "TSModuleName"

/-- One definition of a variable. -/
structure Definition where
  kind : DefinitionKind
  /-- The identifier that is defined. -/
  identifier : Node
  /-- Its name. -/
  name : String
  /-- The construct that defines it. -/
  node : Node
  /-- The declaration that the construct is part of. -/
  declaration : Option Node := none
  /-- The keyword of the declaration. -/
  keyword : Option String := none

/-- What an occurrence does to its variable. -/
inductive Access where
  | read | write | readWrite
deriving DecidableEq, Repr

namespace Access

/-- The occurrence uses the value. -/
def reads : Access → Bool
  | read | readWrite => true
  | write => false

/-- The occurrence changes the value. -/
def writes : Access → Bool
  | write | readWrite => true
  | read => false

end Access

/-- An occurrence of a name, before it is known in which scope it stands. -/
structure Occurrence where
  identifier : Node
  name : String
  access : Access
  /-- The expression whose value is written. -/
  written : Option Node := none
  /-- The write is the initialisation of a declared variable. -/
  initial : Bool := false

/-- A name in a scope. -/
structure VariableId where
  scope : Nat
  name : String
deriving DecidableEq, Repr

/-- An occurrence of a name in a scope, with the variable that it turned out to mean. -/
structure Reference extends Occurrence where
  scope : Nat
  resolved : Option VariableId := none

/-- A name that is declared in a scope. -/
structure Variable where
  name : String
  /-- The identifiers that define it. -/
  identifiers : List Node := []
  definitions : List Definition := []
  /-- The numbers of the references to it, in increasing order. -/
  references : List Nat := []

/-- A stretch of the program with the names declared in it. -/
structure Scope where
  kind : ScopeKind
  block : Node
  /-- The scopes around this one, the nearest first. -/
  outer : List Nat
  /-- The scope that takes the hoisted declarations made here. -/
  home : Nat
  /-- The scopes right inside this one. -/
  inner : List Nat := []
  /-- The variables, in the order in which their names were first declared. -/
  declared : List Variable := []
  /-- Where among them the variable of each name is. -/
  table : Table String Nat := []
  /-- The references made here. -/
  references : List Nat := []
  /-- The references made here or further inside that are not to variables of these scopes. -/
  through : List Nat := []

namespace Scope

/-- The scope right around this one. -/
def upper (s : Scope) : Option Nat := s.outer.head?

/-- The variable of the given name. -/
def find? (s : Scope) (name : String) : Option Variable := do
  s.declared[← s.table.get? name]?

/-- The scope declares the name. -/
def declares (s : Scope) (name : String) : Bool := (s.find? name).isSome

end Scope

end RefFlow
