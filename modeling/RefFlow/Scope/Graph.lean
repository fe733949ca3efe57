import RefFlow.Scope.Event

/-!
# The scope graph

All scopes and references of a program. The graph is built by taking the events of the program one
after the other. Scopes that are open form a stack of frames.

A mention is kept pending in the frame of its scope. When the scope closes, its pending mentions are
settled: one whose name the scope declares is resolved to that variable, and any other goes on to
the scope around. By then all declarations of the scope have been met, so it does not matter whether
a name is declared before or after it is used.
-/

namespace RefFlow

/-- All scopes and references of a program. -/
structure Graph where
  scopes : List Scope := []
  references : List Reference := []

/-- A scope that is still open. -/
structure Frame where
  /-- The number of the scope. -/
  scope : Nat
  /-- The scopes around it, the nearest first. -/
  outer : List Nat
  /-- The numbers of the references that are still to be settled. -/
  pending : List Nat := []

/-- A variable with one more definition. -/
def Variable.define (d : Definition) (v : Variable) : Variable :=
  { v with
    identifiers := v.identifiers ++ [d.identifier]
    definitions := v.definitions ++ [d] }

namespace Scope

/-- Declares a name, unless it is declared already. -/
def declare (name : String) (s : Scope) : Scope :=
  if s.declares name then s
  else { s with
    declared := s.declared ++ [{ name := name }]
    table := s.table.set name s.declared.length }

/-- Changes the variable of the given name. -/
def modifyVariable (name : String) (f : Variable → Variable) (s : Scope) : Scope :=
  { s with
    declared := match s.table.get? name with
      | some k => s.declared.modify k f
      | none => s.declared }

/-- Adds a definition, declaring its name if need be. -/
def define (d : Definition) (s : Scope) : Scope :=
  (s.declare d.name).modifyVariable d.name (·.define d)

end Scope

namespace Graph

/-- Changes one scope. -/
def modifyScope (g : Graph) (i : Nat) (f : Scope → Scope) : Graph :=
  { g with scopes := g.scopes.modify i f }

/-- The variable of a given identity. -/
def get? (g : Graph) (v : VariableId) : Option Variable := do
  (← g.scopes[v.scope]?).find? v.name

/-- The scope with a number declares the name. -/
def declares (g : Graph) (i : Nat) (name : String) : Bool :=
  match g.scopes[i]? with
  | some s => s.declares name
  | none => false

/-- All variables. -/
def variableIds (g : Graph) : List VariableId :=
  g.scopes.zipIdx.flatMap fun (s, i) => s.table.keys.map fun name => ⟨i, name⟩

/-- References by their numbers. -/
def referencesOf (g : Graph) (rs : List Nat) : List Reference := rs.filterMap (g.references[·]?)

end Graph

/-- A scope graph under construction. -/
structure Analysis where
  graph : Graph := {}
  /-- The open scopes, the innermost first. -/
  frames : List Frame := []

namespace Analysis

/-- Opens a scope inside the current one. -/
def enter (a : Analysis) (kind : ScopeKind) (block : Node) : Analysis :=
  let i := a.graph.scopes.length
  let outer := match a.frames with
    | [] => []
    | f :: _ => f.scope :: f.outer
  let home := if kind.hoists then i else
    match a.frames with
    | [] => i
    | f :: _ => (a.graph.scopes[f.scope]?.map (·.home)).getD i
  let scopes := match a.frames with
    | [] => a.graph.scopes
    | f :: _ => a.graph.scopes.modify f.scope fun s => { s with inner := s.inner ++ [i] }
  let new : Scope := { kind := kind, block := block, outer := outer, home := home }
  { graph := { a.graph with scopes := scopes ++ [new] }
    frames := { scope := i, outer := outer } :: a.frames }

/-- Settles one reference in a scope that closes: the graph, and whether the reference is left
over. -/
def settle (g : Graph) (scope ref : Nat) : Graph × Bool :=
  match g.references[ref]? with
  | none => (g, false)
  | some r =>
    if g.declares scope r.name then
      ({ g.modifyScope scope (·.modifyVariable r.name fun v =>
            { v with references := v.references ++ [ref] }) with
          references := g.references.modify ref fun r =>
            { r with resolved := some ⟨scope, r.name⟩ } },
        false)
    else
      (g.modifyScope scope fun s => { s with through := s.through ++ [ref] }, true)

/-- Settles references in a scope that closes: the graph, and the references that are left over. -/
def settleAll (g : Graph) (scope : Nat) : List Nat → Graph × List Nat
  | [] => (g, [])
  | r :: rs =>
    let (g', left) := settle g scope r
    let (g'', more) := settleAll g' scope rs
    (g'', if left then r :: more else more)

/-- Closes the current scope. -/
def leave (a : Analysis) : Except Fault Analysis :=
  match a.frames with
  | [] => .error .outsideScope
  | f :: rest =>
    let (g, left) := settleAll a.graph f.scope f.pending
    let frames := match rest with
      | [] => []
      | u :: us => { u with pending := u.pending ++ left } :: us
    .ok { graph := g, frames := frames }

/-- Changes the current scope, or the one that takes hoisted declarations made in it. -/
def inScope (a : Analysis) (hoisted : Bool) (f : Scope → Scope) : Except Fault Analysis :=
  match a.frames with
  | [] => .error .outsideScope
  | u :: _ =>
    let home := (a.graph.scopes[u.scope]?.map (·.home)).getD u.scope
    .ok { a with graph := a.graph.modifyScope (if hoisted then home else u.scope) f }

/-- Records a mention in the current scope. -/
def mention (a : Analysis) (o : Occurrence) : Except Fault Analysis :=
  match a.frames with
  | [] => .error .outsideScope
  | u :: us =>
    let i := a.graph.references.length
    let g := a.graph.modifyScope u.scope fun s => { s with references := s.references ++ [i] }
    let unresolved := { toOccurrence := o, scope := u.scope }
    .ok { graph := { g with references := g.references ++ [unresolved] }
          frames := { u with pending := u.pending ++ [i] } :: us }

/-- Takes one event. -/
def step (a : Analysis) : Event → Except Fault Analysis
  | .enter kind block => .ok (a.enter kind block)
  | .leave => a.leave
  | .hoist => a.inScope true id
  | .declare name => a.inScope false (·.declare name)
  | .define hoisted d => a.inScope hoisted (·.define d)
  | .mention o => a.mention o

end Analysis

/-- The scope graph of a list of events. -/
def Graph.ofEvents (es : List Event) : Except Fault Graph := do
  return (← es.foldlM Analysis.step {}).graph

/-- The scope graph of a program. -/
def Node.scopeGraph (sourceType : String) (globals : List String) (root : Node) :
    Except Fault Graph := do
  Graph.ofEvents (← root.events sourceType globals)

end RefFlow
