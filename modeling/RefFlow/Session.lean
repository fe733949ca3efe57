import RefFlow.Cache
import RefFlow.Reactive

/-!
# Questions about a program

A session answers questions about one program, one after the other. References are extracted when
they are first asked for and kept. Questions about properties share one extractor until a new one is
asked for, and may refer to the answers of earlier questions by their numbers.
-/

namespace RefFlow

namespace Program

/-- A short description of a node: its kind, its name if it is an identifier, and its position. -/
def describe (p : Program) (n : Node) : Except Fault String := do
  let label ← if n.kind == .identifier then do
      pure (" " ++ (← n.text? .name).getD "")
    else pure ""
  let pos := p.position n
  return "<" ++ n.kind.name ++ label ++ " @" ++ toString pos.line ++ ":" ++ toString pos.column
    ++ ">"

/-- A short description of a scope. -/
def describeScope (p : Program) (s : Scope) : Except Fault String := do
  return "<Scope " ++ s.kind.text ++ " " ++ (← p.describe s.block) ++ ">"

end Program

/-- Results that are extracted from a program. -/
inductive Extraction where
  | refObjects (f : RefObject.Findings)
  | reactive (f : Reactive.Findings)

namespace Session

/-- The kind under which references to ref objects are kept. -/
def refObjectKind : String := "ref-object-references"

/-- The kind under which references to reactive variables are kept. -/
def reactiveKind : String := "reactive-variable-references"

end Session

/-- A program with what earlier questions left behind. -/
structure Session where
  program : Program
  cache : Cache Unit Extraction := {}
  memo : Property.Memo := {}
  /-- The properties found in answer to earlier questions, by the numbers of the questions. -/
  found : List (Option Found) := []

/-- A question. Nodes and scopes are given by their numbers; where a scope is left out, the global
scope is meant. -/
inductive Query where
  | refRecord (node : Nat)
  | refHas (node : Nat)
  | refChain (node : Nat)
  | refDerivation
  | refCount
  | reactiveRecord (node : Nat)
  | reactiveHas (node : Nat)
  | reactiveCount
  | cached (kind : String)
  | findName (name : String) (scope : Option Nat)
  | findNode (node : Nat) (scope : Option Nat)
  | innermost (node : Nat) (scope : Option Nat)
  | acquire (node : Nat) (inner : Bool)
  | staticName (node : Nat)
  | identifiers (node : Nat)
  | isEscaped (node : Nat)
  | text (node : Nat)
  | describe (node : Nat)
  | describeScope (scope : Option Nat)
  | isModified (name : String)
  | factories (withOptions : Bool)
  | macros
  | escapeCalls
  | newExtractor
  | patternProperties (node : Option Nat)
  | expressionProperties (node : Nat)
  | mergeProperties (questions : List Nat)
  | nests (question : Nat) (name : String)
deriving DecidableEq, Repr

/-- An answer. -/
inductive Answer where
  | nothing
  | flag (b : Bool)
  | count (n : Nat)
  | text (s : String)
  | nodes (ns : List Node)
  | edges (es : List (Node × Node))
  | refRecord (r : RefObject.Record)
  | reactiveRecord (r : Reactive.Record)
  | cached (isStored hasResult : Bool)
  | variable (v : VariableId)
  | scope (n : Nat)
  | sites (ss : List Site)
  | properties (f : Found)
  | nests (ns : List Nest)

namespace Session

/-- The node with a number. -/
def node (s : Session) (n : Nat) : Except Fault Node :=
  match s.program.place? n with
  | some q => .ok q.node
  | none => .error (.missingNode "node")

/-- The nodes with the given numbers. -/
def nodes (s : Session) (ns : List Nat) : List Node :=
  ns.filterMap fun n => (s.program.place? n).map (·.node)

/-- The references to ref objects, extracted if need be. -/
def refObjects (s : Session) : Except Fault RefObject.Findings × Session :=
  let (result, cache) := s.cache.getOrCompute refObjectKind ()
    fun _ => (some ∘ .refObjects) <$> RefObject.extract s.program
  let findings := result.map fun
    | some (.refObjects f) => f
    | _ => {}
  (findings, { s with cache := cache })

/-- The references to reactive variables, extracted if need be. -/
def reactives (s : Session) : Except Fault Reactive.Findings × Session :=
  let (result, cache) := s.cache.getOrCompute reactiveKind ()
    fun _ => (some ∘ .reactive) <$> Reactive.extract s.program
  let findings := result.map fun
    | some (.reactive f) => f
    | _ => {}
  (findings, { s with cache := cache })

/-- Answers by the references to ref objects. -/
def askRefObjects (s : Session) (f : RefObject.Findings → Answer) : Except Fault Answer × Session :=
  let (findings, s) := s.refObjects
  (findings.map f, s)

/-- Answers by the references to reactive variables. -/
def askReactives (s : Session) (f : Reactive.Findings → Answer) : Except Fault Answer × Session :=
  let (findings, s) := s.reactives
  (findings.map f, s)

/-- Answers by the properties that the extractor finds. -/
def askProperties (s : Session) (e : Property.Extractor Found) : Except Fault Answer × Session :=
  let (result, memo) := e.run.run s.memo
  (result.map .properties, { s with memo := memo })

/-- The properties found in answer to an earlier question. -/
def earlier (s : Session) (n : Nat) : Except Fault Found :=
  match s.found[n]? with
  | some (some f) => .ok f
  | _ => .error (.missingNode "question")

/-- An answer that may be nothing. -/
def orNothing (f : α → Answer) : Option α → Answer
  | some a => f a
  | none => .nothing

/-- Answers a question that neither needs nor changes what is remembered. -/
def answer (s : Session) : Query → Except Fault Answer
  | .cached kind => .ok (.cached (s.cache.has kind ()) (s.cache.get? kind ()).isSome)
  | .findName name scope => do
    let start := scope.getD s.program.global
    let _ ← s.program.graph.scope start
    return orNothing .variable (s.program.graph.lookup start name)
  | .findNode n scope => do
    return orNothing .variable
      (← s.program.graph.find (scope.getD s.program.global) (← s.node n))
  | .innermost n scope => do
    let start := scope.getD s.program.global
    let _ ← s.program.graph.scope start
    return .scope (s.program.graph.innermost start (← s.node n).span.start)
  | .acquire n inner => .ok (orNothing .scope (s.program.graph.acquire n inner))
  | .staticName n => do return orNothing .text (← (← s.node n).staticName)
  | .identifiers n => do return .nodes (← (← s.node n).identifiers)
  | .isEscaped n => do return .flag (← Escape.isEscaped s.program (← s.node n))
  | .text n => do return .text (s.program.text (← s.node n))
  | .describe n => do return .text (← s.program.describe (← s.node n))
  | .describeScope scope => do
    let i := scope.getD s.program.global
    return .text (← s.program.describeScope (← s.program.graph.scope i))
  | .isModified name => do
    return .flag (((← s.program.globalScope).find? name).any s.program.isModified)
  | .factories withOptions => do
    return .sites
      (← (Site.ofFactories s.program (if withOptions then s.program.options else {})).toExcept)
  | .macros => do return .sites (← Site.ofMacros s.program)
  | .escapeCalls => do return .nodes (← Site.escapeCalls s.program)
  | .mergeProperties ns => do return .properties (.merge (← ns.mapM s.earlier))
  | .nests n name => do return .nests ((← s.earlier n).nests name)
  | _ => .ok .nothing

/-- Answers a question. -/
def reply (s : Session) (q : Query) : Except Fault Answer × Session :=
  match q with
  | .refRecord n => s.askRefObjects fun f => orNothing .refRecord (f.get? n)
  | .refHas n => s.askRefObjects fun f => .flag (f.get? n).isSome
  | .refChain n => s.askRefObjects fun f => .nodes (s.nodes (f.chain n))
  | .refDerivation => s.askRefObjects fun f =>
    .edges (f.derivation.adjacency.filterMap fun (a, b) => do
      return ((← s.program.place? a).node, (← s.program.place? b).node))
  | .refCount => s.askRefObjects fun f => .count f.records.length
  | .reactiveRecord n => s.askReactives fun f => orNothing .reactiveRecord (f.get? n)
  | .reactiveHas n => s.askReactives fun f => .flag (f.get? n).isSome
  | .reactiveCount => s.askReactives fun f => .count f.records.length
  | .newExtractor => (.ok .nothing, { s with memo := {} })
  | .patternProperties none => s.askProperties (Property.ofPattern s.program none)
  | .patternProperties (some n) =>
    match s.node n with
    | .ok n => s.askProperties (Property.ofPattern s.program (some n))
    | .error e => (.error e, s)
  | .expressionProperties n =>
    match s.node n with
    | .ok n => s.askProperties (Property.ofExpression s.program n)
    | .error e => (.error e, s)
  | q => (s.answer q, s)

/-- Answers the next question, and keeps the properties that are found by it. -/
def ask (s : Session) (q : Query) : Except Fault Answer × Session :=
  let (a, s) := s.reply q
  let found := match a with
    | .ok (.properties f) => some f
    | _ => none
  (a, { s with found := s.found ++ [found] })

/-- Answers questions in order. -/
def askAll (s : Session) : List Query → List (Except Fault Answer)
  | [] => []
  | q :: qs =>
    let (a, s) := s.ask q
    a :: s.askAll qs

end Session

end RefFlow
