import RefFlow.Table
import RefFlow.Tree.Preorder

/-!
# Properties that are read from an object

The answer to the question which properties of a value a program reads: a list of reads, or that
nothing is ever read, or that it cannot be known. Answers from several places are merged.
-/

namespace RefFlow

/-- Where the value of a property goes next. -/
inductive Nest where
  /-- The property is read by a member expression. -/
  | expression (member : Node)
  /-- The property is received by a pattern. -/
  | pattern (target : Option Node)

/-- One read of a property. -/
structure PropertyRead where
  name : String
  /-- The member expression, or the property of a pattern. -/
  node : Node
  nest : Nest

/-- The properties that are read from a value. -/
inductive Found where
  /-- The reads cannot be known. -/
  | any
  /-- Nothing is read. -/
  | never
  /-- The properties named by a pattern. -/
  | pattern (reads : List PropertyRead)
  /-- One property, read by a member expression. -/
  | member (read : PropertyRead)
  /-- What is found in several places. -/
  | merged (parts : List Found)

namespace Found

/-- The reads cannot be known. -/
def isAny : Found → Bool
  | any => true
  | _ => false

/-- Nothing is read. -/
def isNever : Found → Bool
  | never => true
  | _ => false

mutual

/-- All reads, in order. -/
def reads : Found → List PropertyRead
  | any | never => []
  | pattern rs => rs
  | member r => [r]
  | merged ps => readsAll ps

/-- `reads` on a list. -/
def readsAll : List Found → List PropertyRead
  | [] => []
  | f :: fs => reads f ++ readsAll fs

end

/-- The names of the properties that are read, each with the nodes that read it. -/
def properties (f : Found) : Table String (List Node) :=
  f.reads.foldl (fun t r => t.set r.name ((t.get? r.name).getD [] ++ [r.node])) []

/-- Where the values of a property go. -/
def nests (f : Found) (name : String) : List Nest :=
  (f.reads.filter (·.name == name)).map (·.nest)

/-- What is found in several places taken together. -/
def merge (parts : List Found) : Found :=
  let parts := parts.filter (!·.isNever)
  if parts.any isAny then any
  else match parts with
    | [] => never
    | [f] => f
    | fs => merged fs

end Found

end RefFlow
