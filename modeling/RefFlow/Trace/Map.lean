import RefFlow.Table

/-!
# Trace maps

A trace map says which parts of a library are to be followed through a program: an object with named
members, each of which is such an object again. On every level, *marks* say which uses are to be
reported, and what is to be reported with them.
-/

namespace RefFlow

/-- What a mark says about the uses that it asks for. -/
inductive Info where
  | flag
  | text (s : String)
deriving DecidableEq, Repr

/-- Whether the mark asks for anything. One with an empty text does not. -/
def Info.holds : Info → Bool
  | flag => true
  | text s => s != ""

/-- How a traced value is used. -/
inductive Use where
  | read | call | construct
deriving DecidableEq, Repr

/-- The marks on one level of a trace map. -/
structure Marks where
  read : Option Info := none
  call : Option Info := none
  construct : Option Info := none
  /-- The map describes a module by its exports. Where this mark does not hold, it describes the
  value that the module exports by default. -/
  exports : Option Info := none
deriving DecidableEq, Repr

/-- The mark for a use. -/
def Marks.get (m : Marks) : Use → Option Info
  | .read => m.read
  | .call => m.call
  | .construct => m.construct

/-- What is to be followed. -/
inductive TraceMap where
  | mk (marks : Marks) (members : List (String × TraceMap))

namespace TraceMap

/-- The marks on the topmost level. -/
def marks : TraceMap → Marks
  | mk m _ => m

/-- The members, in order. -/
def members : TraceMap → Table String TraceMap
  | mk _ es => es

@[simp] theorem marks_mk (m : Marks) (es : Table String TraceMap) : (mk m es).marks = m := rfl

@[simp] theorem members_mk (m : Marks) (es : Table String TraceMap) : (mk m es).members = es :=
  rfl

/-- The map that follows nothing. -/
def empty : TraceMap := mk {} []

/-- The member of the given name. -/
def get? (t : TraceMap) (name : String) : Option TraceMap := Table.get? t.members name

/-- The mark for a use, if it holds. -/
def mark (t : TraceMap) (u : Use) : Option Info := (t.marks.get u).filter Info.holds

/-- Whether the map describes a module by its exports. -/
def listsExports (t : TraceMap) : Bool := t.marks.exports.any Info.holds

/-- The map with one member set. -/
def insert (t : TraceMap) (name : String) (u : TraceMap) : TraceMap :=
  mk t.marks (Table.set name u t.members)

/-- The map with the marks changed. -/
def withMarks (t : TraceMap) (f : Marks → Marks) : TraceMap := mk (f t.marks) t.members

/-- The map that gives the same map to all names. -/
def constant (names : List String) (u : TraceMap) : TraceMap :=
  names.foldl (fun t n => t.insert n u) empty

/-- The map that a path leads to. -/
def descend (t : TraceMap) : List String → Option TraceMap
  | [] => some t
  | n :: ns => match t.get? n with
    | some u => u.descend ns
    | none => none

end TraceMap

end RefFlow
