import RefFlow.RefObject

/-!
# References to reactive variables

A macro call that initialises a declaration makes its variables reactive. They are used like plain
variables, so that every occurrence counts. Inside the escape hint the reactive object itself is
meant: an occurrence that is an argument of the escape hint, or stands in array and object literals
in such an argument, is *escaped*.
-/

namespace RefFlow

namespace Escape

/-- A list of nodes holds the given one. -/
def holds (n : Node) (items : List (Option Node)) : Bool := items.any n.isNode

/-- A node is handed to one of the calls, by the nodes above it. -/
def handed (calls : List Node) (n : Node) : List Node → Except Fault Bool
  | [] => .ok false
  | parent :: rest =>
    match parent.kind with
    | .callExpression => do
      return holds n (← parent.items .arguments) && calls.any (·.id == parent.id)
    | .property => do
      if n.isNode (← parent.child .value) then handed calls parent rest else return false
    | .objectExpression => do
      if holds n (← parent.items .properties) then handed calls parent rest else return false
    | .arrayExpression | .spreadElement => handed calls parent rest
    | _ => .ok false

/-- A node is handed to the escape hint. -/
def isEscaped (p : Program) (n : Node) : Except Fault Bool := do
  handed (← Site.escapeCalls p) n (p.above n)

end Escape

namespace Reactive

/-- A reference to a reactive variable. -/
structure Record where
  node : Node
  /-- The reactive object itself is meant. -/
  escape : Bool
  /-- The name of the macro that made the variable reactive. -/
  method : String
  /-- The call that made the variable reactive. -/
  site : Site
  /-- The declaration of the variable. -/
  owner : Option Node

/-- What has been found. -/
structure Findings where
  /-- The records, by the numbers of their nodes. -/
  records : Table Nat Record := []
  /-- The numbers of the identifiers that have been followed. -/
  followed : List Nat := []

/-- The identifiers that a macro call makes reactive. One macro takes a whole pattern, the others a
single identifier. -/
def declared (p : Program) (site : Site) : Except Fault (List Node) :=
  match p.parent? site.node with
  | none => .ok []
  | some parent =>
    if parent.kind == .variableDeclarator then do
      if site.node.isNode (← parent.child .init) then
        match ← parent.child .id with
        | none => return []
        | some pattern =>
          if site.method == Site.destructuring then Node.identifiers pattern
          else if pattern.kind == .identifier then return [pattern]
          else return []
      else return []
    else .ok []

/-- Records one occurrence of a reactive variable. -/
def occur (p : Program) (calls : List Node) (site : Site) (f : Findings) (r : Reference) :
    Except Fault Findings :=
  let n := r.identifier
  match p.soleDefinition? r with
  | none => .ok f
  | some d =>
    if d.identifier.id == n.id then .ok f
    else do
      let escape ← Escape.handed calls n (p.above n)
      return { f with
        records := f.records.set n.id
          { node := n, escape := escape, method := site.method, site := site
            owner := d.declaration } }

/-- Records all occurrences of the variable of an identifier. -/
def bind (p : Program) (calls : List Node) (site : Site) (f : Findings) (identifier : Node) :
    Except Fault Findings :=
  if f.followed.contains identifier.id then .ok f
  else do
    (← p.occurrences identifier).foldlM (occur p calls site)
      { f with followed := identifier.id :: f.followed }

/-- All references to reactive variables in a program. -/
def extract (p : Program) : Except Fault Findings := do
  let calls ← Site.escapeCalls p
  (← Site.ofMacros p).foldlM
    (fun f site => do (← declared p site).foldlM (bind p calls site) f) {}

/-- The record of a node. -/
def Findings.get? (f : Findings) (n : Nat) : Option Record := f.records.get? n

end Reactive

end RefFlow
