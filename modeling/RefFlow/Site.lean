import RefFlow.Trace.Follow

/-!
# Calls that create reactive values

Reactive values are created by *factories*, functions of the library that are imported or taken from
a global object, and by *macros*, functions that are there without a declaration. A `Site` is a call
of either. The escape hint is a macro that hands the reactive value itself to its surroundings.
-/

namespace RefFlow

/-- A call that creates a reactive value. -/
structure Site where
  node : Node
  /-- The name of the function. -/
  method : String

namespace Site

/-- The functions of the library that create reactive values. -/
def factories : List String := ["ref", "computed", "toRef", "customRef", "shallowRef", "toRefs"]

/-- The factory that makes a reactive value of each property of an object. -/
def spreading : String := "toRefs"

/-- The macros that create reactive values. -/
def macros : List String := ["$ref", "$computed", "$shallowRef", "$customRef", "$toRef", "$"]

/-- The macro that makes all names of a pattern reactive. -/
def destructuring : String := "$"

/-- The macro that hands out the reactive value itself. -/
def escapeHint : String := "$$"

/-! ## Factories -/

/-- The calls of factories are to be reported. -/
def factoryMap : TraceMap :=
  let called := TraceMap.empty.withMarks fun m => { m with call := some .flag }
  (TraceMap.constant factories called).withMarks fun m => { m with exports := some .flag }

/-- The modules of the library. -/
def moduleMap (o : Options) : TraceMap := .constant o.libraryModules factoryMap

/-- The global objects of the library. They have what the first of its modules has. -/
def globalMap (o : Options) : TraceMap :=
  let object := match (moduleMap o).members with
    | (_, m) :: _ => m
    | [] => .empty
  .constant o.globalObjects object

/-- The site of a tracked use, if it is a call. -/
def ofTracked? (t : Trace.Tracked) : Option Site :=
  if t.node.kind == .callExpression then t.path.getLast?.map fun m => ⟨t.node, m⟩ else none

/-- Sites without those whose call came before. -/
def distinct (seen : List Nat) : Search Site → Search Site
  | .done => .done
  | .broken f => .broken f
  | .found s rest =>
    if seen.contains s.node.id then distinct seen rest
    else .found s (distinct (s.node.id :: seen) rest)

/-- The calls of factories, each one once. -/
def ofFactories (p : Program) (o : Options) : Search Site := do
  let _ ← p.globalScope
  let imported := if o.tracesImports then Trace.imports p (moduleMap o) else .done
  let ambient := if o.tracesGlobals then Trace.globals p (globalMap o) else .done
  distinct [] ((imported ++ ambient).filterMap ofTracked?)

/-! ## Macros -/

/-- The occurrences of names that are not declared by the program, or in its global scope. -/
def ambientReferences (p : Program) (names : List String) : Except Fault (List Reference) := do
  let s ← p.globalScope
  let declared := names.flatMap fun n => match s.find? n with
    | some v => p.graph.referencesOf v.references
    | none => []
  return declared ++ (p.graph.referencesOf s.through).filter (names.contains ·.name)

/-- The call of which an occurrence is the callee. -/
def callOf (p : Program) (r : Reference) : Except Fault (Option Site) :=
  match p.parent? r.identifier with
  | none => .ok none
  | some parent =>
    if parent.kind == .callExpression then do
      if r.identifier.isNode (← parent.child .callee)
      then return some ⟨parent, r.name⟩
      else return none
    else .ok none

/-- The calls of functions that are there without a declaration. -/
def ambientCalls (p : Program) (names : List String) : Except Fault (List Site) := do
  return (← (← ambientReferences p names).mapM (callOf p)).filterMap id

/-- The calls of macros. -/
def ofMacros (p : Program) : Except Fault (List Site) := ambientCalls p macros

/-- The calls of the escape hint. -/
def escapeCalls (p : Program) : Except Fault (List Node) := do
  return (← ambientCalls p [escapeHint]).map (·.node)

end Site

end RefFlow
