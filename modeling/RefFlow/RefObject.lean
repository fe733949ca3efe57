import RefFlow.Digraph.Shortest
import RefFlow.Property.Extract
import RefFlow.Site

/-!
# References to ref objects

A factory call creates a ref object. From there the object is followed through the program: into the
pattern that its call initialises, to the occurrences of the variables in that pattern, and from an
occurrence that is bound or assigned again to the next pattern. Occurrences that are not bound again
are recorded. The factory that makes a ref object of each property of an object is followed by the
reads of those properties.

Every step is an edge of the *derivation*, a graph from where a value came to where it went. An
identifier is followed once, so that values which go in circles come to an end.
-/

namespace RefFlow

/-- The definition of the variable that a reference means, if there is exactly one and it is that of
a plain variable. -/
def Program.soleDefinition? (p : Program) (r : Reference) : Option Definition := do
  let v ← p.graph.get? (← r.resolved)
  match v.definitions with
  | [d] => if d.kind == .variable then some d else none
  | _ => none

/-- The references to the variable that an identifier means. -/
def Program.occurrences (p : Program) (identifier : Node) : Except Fault (List Reference) := do
  match ← p.find identifier with
  | some v => return p.referencesTo v
  | none => return []

namespace RefObject

/-- In what form a ref object is referred to. -/
inductive Form where
  /-- By the name of a variable. -/
  | identifier
  /-- By an expression without a name. -/
  | expression
  /-- By a pattern that takes it apart. -/
  | pattern
deriving DecidableEq, Repr

/-- The name of a form. -/
def Form.text : Form → String
  | identifier => "identifier"
  | expression => "expression"
  | pattern => "pattern"

/-- A reference to a ref object. -/
structure Record where
  node : Node
  form : Form
  /-- The object is written to, or taken apart. -/
  isTarget : Bool
  /-- The name of the function that created the object. -/
  method : String
  /-- The call that created the object. -/
  site : Site
  /-- The declaration of the variable. -/
  owner : Option Node := none

/-- What has been found. -/
structure Findings where
  /-- The records, by the numbers of their nodes. -/
  records : Table Nat Record := []
  /-- From where a value came to where it went. -/
  derivation : Digraph Nat := {}
  /-- The numbers of the identifiers that have been followed. -/
  followed : List Nat := []

namespace Findings

/-- Adds a record. -/
def record (f : Findings) (r : Record) : Findings :=
  { f with records := f.records.set r.node.id r }

/-- Adds a step of the derivation. -/
def derive (f : Findings) (source target : Node) : Findings :=
  { f with derivation := f.derivation.addEdge source.id target.id }

/-- Adds a call as the start of a derivation. -/
def start (f : Findings) (n : Node) : Findings :=
  { f with derivation := f.derivation.addNode n.id }

/-- Notes that an identifier is followed. -/
def follow (f : Findings) (n : Node) : Findings := { f with followed := n.id :: f.followed }

end Findings

/-- A step that may add to what has been found. -/
abbrev Step := Findings → Except Fault Findings

/-! ## Steps -/

/-- The pattern that an expression is bound or assigned to. -/
def rebinding? (p : Program) (n : Node) : Except Fault (Option (Option Node)) :=
  match p.parent? n with
  | none => .ok none
  | some parent =>
    match parent.kind with
    | .assignmentExpression => do
      if (← parent.text? .operator) == some "=" then
        if n.isNode (← parent.child .right) then return some (← parent.child .left) else return none
      else return none
    | .variableDeclarator => do
      if n.isNode (← parent.child .init) then return some (← parent.child .id) else return none
    | _ => .ok none

/-- A pattern receives the object. What comes of an identifier in it is a parameter. -/
def receive (site : Site) (onIdentifier : Node → Step) (target : Option Node) (source : Node) :
    Step := fun f =>
  match target with
  | none => .ok f
  | some t => do
    match ← t.withoutDefault with
    | none => return f
    | some n =>
      match n.kind with
      | .identifier => onIdentifier n (f.derive source n)
      | .objectPattern =>
        return (f.derive source n).record
          { node := n, form := .pattern, isTarget := true, method := site.method, site := site }
      | _ => return f

/-- A member expression has the object as its value. -/
def carry (p : Program) (site : Site) (onIdentifier : Node → Step) (member source : Node) : Step :=
  fun f => do
    let f := f.derive source member
    match ← rebinding? p member with
    | some target => receive site onIdentifier target member f
    | none =>
      return f.record
        { node := member, form := .expression, isTarget := false, method := site.method
          site := site }

/-- The variable that a binding gives the object to occurs somewhere. Its own definition does not
count. -/
def occur (p : Program) (site : Site) (onIdentifier : Node → Step) (binding : Node)
    (r : Reference) : Step := fun f => do
  let n := r.identifier
  let definition := p.soleDefinition? r
  if definition.any (n.id == ·.identifier.id) then return f
  else
    let f := if n.id == binding.id then f else f.derive binding n
    let target ← if r.access.reads then rebinding? p n else pure none
    match target with
    | some target => receive site onIdentifier target n f
    | none =>
      return f.record
        { node := n, form := .identifier, isTarget := r.access.writes, method := site.method
          site := site, owner := definition.bind (·.declaration) }

/-- An identifier is bound to the object: all occurrences of its variable follow. The budget bounds
the number of identifiers that have not been followed; once it is used up, all have been. -/
def bind (p : Program) (site : Site) : Nat → Node → Step
  | 0, _, f => .ok f
  | n + 1, identifier, f =>
    if f.followed.contains identifier.id then .ok f
    else do
      let references ← p.occurrences identifier
      references.foldlM (fun f r => occur p site (bind p site n) identifier r f)
        (f.follow identifier)

/-! ## Sites -/

/-- A value that is made of ref objects goes to a pattern: each property that is read from it is a
ref object. -/
def spread (p : Program) (site : Site) (onIdentifier : Node → Step) (target : Option Node) : Step :=
  fun f => do
    let found ← ((Property.ofPattern p target).run.run {}).1
    (found.properties.keys.flatMap found.nests).foldlM
      (fun f nest => match nest with
        | .expression member => carry p site onIdentifier member site.node f
        | .pattern target => receive site onIdentifier target site.node f) f

/-- The pattern that a factory call goes to. -/
def destination? (p : Program) (call : Node) : Except Fault (Option (Option Node)) :=
  match p.parent? call with
  | none => .ok none
  | some parent =>
    match parent.kind with
    | .variableDeclarator => do
      if call.isNode (← parent.child .init) then return some (← parent.child .id) else return none
    | .assignmentExpression => do
      if (← parent.text? .operator) == some "=" then return some (← parent.child .left)
      else return none
    | _ => .ok none

/-- Follows the object that a call creates. -/
def followSite (p : Program) (site : Site) : Step := fun f => do
  let f := f.start site.node
  let onIdentifier := bind p site p.places.length
  match ← destination? p site.node with
  | some target =>
    if site.method == Site.spreading then spread p site onIdentifier target f
    else receive site onIdentifier target site.node f
  | none =>
    if site.method == Site.spreading then return f
    else
      return f.record
        { node := site.node, form := .expression, isTarget := false, method := site.method
          site := site }

/-- All references to ref objects in a program. -/
def extract (p : Program) : Except Fault Findings :=
  (Site.ofFactories p p.options).foldM (fun f site => followSite p site f) {}

/-! ## Questions -/

namespace Findings

/-- The record of a node. -/
def get? (f : Findings) (n : Nat) : Option Record := f.records.get? n

/-- The way of the object from the call that created it to a node, by the numbers of nodes; empty if
the node has no record. -/
def chain (f : Findings) (n : Nat) : List Nat :=
  match f.get? n with
  | none => []
  | some r => (f.derivation.shortestPath r.site.node.id n).getD [r.site.node.id, n]

end Findings

end RefObject

end RefFlow
