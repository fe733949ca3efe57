import RefFlow.Convert.Rules
import RefFlow.Options
import RefFlow.Scope.Lookup

/-!
# Analysed programs

A program with its abstract tree and its scope graph: what all further analyses start from. A
`Program` carries the proofs that it came about by conversion and scope analysis, so that what holds
of the results of these holds of every program.
-/

namespace RefFlow

/-- A program, its tree and its scopes. -/
structure Program where
  source : Source
  options : Options
  root : Node
  graph : Graph
  /-- The nodes by their numbers, each with the nodes above it. -/
  places : List Place
  /-- The tree is what some concrete tree of the source is converted to. -/
  converted : ∃ tree, Convert.build ⟨source, options.sourceType⟩ tree = .ok root
  graph_eq : root.scopeGraph options.sourceType options.globals = .ok graph
  places_eq : places = root.places []

namespace Program

/-- Analyses a program, given the tree that was parsed from the source. -/
def analyze (source : Source) (options : Options) (tree : Concrete Unit) : Except Fault Program :=
  match built : Convert.build ⟨source, options.sourceType⟩ tree with
  | .error f => .error f
  | .ok root =>
    match resolved : root.scopeGraph options.sourceType options.globals with
    | .error f => .error f
    | .ok graph => .ok
      { source, options, root, graph, places := root.places []
        converted := ⟨tree, built⟩, graph_eq := resolved, places_eq := rfl }

/-- The node with a number, with the nodes above it. -/
def place? (p : Program) (n : Nat) : Option Place := p.places[n]?

/-- The nodes above a node, its parent first. -/
def above (p : Program) (n : Node) : List Node :=
  match p.place? n.id with
  | some q => q.above
  | none => []

/-- The parent of a node. -/
def parent? (p : Program) (n : Node) : Option Node := (p.above n).head?

/-- The line and column at which a node starts. -/
def position (p : Program) (n : Node) : Position := p.source.position n.span.start

/-- The text that a node covers. -/
def text (p : Program) (n : Node) : String := p.source.text n.span

/-- The number of the global scope. -/
def global (p : Program) : Nat := p.graph.global

/-- The variable that a named node means, by its position and its name. -/
def find (p : Program) (n : Node) : Except Fault (Option VariableId) := p.graph.find p.global n

/-- The global scope. Only a tree without a program may lack it. -/
def globalScope (p : Program) : Except Fault Scope := p.graph.scope p.global

/-- The references to a variable. -/
def referencesTo (p : Program) (v : VariableId) : List Reference :=
  match p.graph.get? v with
  | some x => p.graph.referencesOf x.references
  | none => []

/-- A global name is declared or assigned to by the program itself. -/
def isModified (p : Program) (v : Variable) : Bool :=
  !v.definitions.isEmpty || (p.graph.referencesOf v.references).any (·.access.writes)

end Program

end RefFlow
