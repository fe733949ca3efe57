import RefFlow.Program
import RefFlow.Search
import RefFlow.Trace.Map
import RefFlow.Tree.StaticName

/-!
# Following library values

Finds the uses of library values that a trace map asks for, however the values come to the place of
their use: by imports under other names, by members of an imported namespace, by assignment to other
variables, by destructuring.

One step of this is local: from an occurrence of a value, the nodes above it say what is done with
it (`consequences`), and a value that reaches a pattern is handed on to the variables in it
(`arrivals`). A step ends in *outcomes*: reports, and variables that the value has come to. `follow`
goes on from there to all read occurrences of those variables. Variables may be assigned to each
other in circles, so that a variable which is being followed already is not entered again.
-/

namespace RefFlow.Trace

/-- A use that a trace map asks for. -/
structure Tracked where
  node : Node
  path : List String
  use : Use
  info : Info

/-- What a value comes to in one step. -/
inductive Outcome where
  /-- It is used in a way to be reported. -/
  | report (t : Tracked)
  /-- It comes to a variable. -/
  | reach (v : VariableId) (path : List String) (map : TraceMap)

/-- The report of a use, if the map asks for it. -/
def reportUse (node : Node) (path : List String) (use : Use) (map : TraceMap) : Search Tracked :=
  match map.mark use with
  | some info => pure ⟨node, path, use, info⟩
  | none => .done

/-! ## Local steps -/

/-- What comes of a value that arrives at a target, as a function of the value's path and map. -/
abbrev Arrival := List String → TraceMap → Search Outcome

/-- The outcomes at an optional target. -/
def arriveAt (t : Option (Tree (Node × Arrival))) : Arrival := fun path map =>
  match t with
  | some t => t.label.2 path map
  | none => .done

/-- The outcomes at a member of an object pattern: the member of the value goes on. -/
def arriveAtMember (member : Option (Tree (Node × Arrival))) : Arrival := fun path map =>
  match member with
  | none => .broken (.missingNode "item")
  | some m =>
    if m.kind == .property then do
      match ← m.label.1.staticName with
      | none => .done
      | some key =>
        match map.get? key with
        | none => .done
        | some next =>
          let path := path ++ [key]
          let here := .report <$> reportUse m.label.1 path .read next
          here ++ do arriveAt (← m.child .value) path next
    else .done

/-- The outcomes at a node as a target, given those at the nodes below it. -/
def arrivalRule (p : Program) (node : Node) (s : Shape (Tree (Node × Arrival))) : Node × Arrival :=
  (node, fun path map =>
    match s.kind with
    | .identifier => do
      match ← p.find node with
      | some v => pure (.reach v path map)
      | none => .done
    | .objectPattern => do arriveAtMember (← .ofList (← s.items .properties)) path map
    | .assignmentPattern => do arriveAt (← s.child .left) path map
    | _ => .done)

/-- The outcomes of a value that arrives at a target. -/
def arrivals (p : Program) (target : Option Node) (path : List String) (map : TraceMap) :
    Search Outcome :=
  match target with
  | some t => (t.measure (arrivalRule p)).2 path map
  | none => .done

/-- Kinds of nodes that have the same value as the expression in them. -/
def isTransparent : Kind → Bool
  | .tsAsExpression | .tsNonNullExpression | .chainExpression => true
  | _ => false

/-- The outcomes of a value at a node, by what the nodes above it do with the value. -/
def consequences (p : Program) (path : List String) (map : TraceMap) (node : Node) :
    List Node → Search Outcome
  | [] => .done
  | parent :: rest =>
    if isTransparent parent.kind then consequences p path map parent rest
    else match parent.kind with
      | .memberExpression => do
        if node.isNode (← parent.child .object) then
          match ← parent.staticName with
          | none => .done
          | some key =>
            match map.get? key with
            | none => .done
            | some next =>
              let path := path ++ [key]
              let here := .report <$> reportUse parent path .read next
              here ++ consequences p path next parent rest
        else .done
      | .callExpression => do
        if node.isNode (← parent.child .callee)
        then .report <$> reportUse parent path .call map
        else .done
      | .newExpression => do
        if node.isNode (← parent.child .callee)
        then .report <$> reportUse parent path .construct map
        else .done
      | .assignmentExpression => do
        if node.isNode (← parent.child .right) then
          arrivals p (← parent.child .left) path map ++ consequences p path map parent rest
        else .done
      | .assignmentPattern => do
        if node.isNode (← parent.child .right) then arrivals p (← parent.child .left) path map
        else .done
      | .variableDeclarator => do
        if node.isNode (← parent.child .init) then arrivals p (← parent.child .id) path map
        else .done
      | _ => .done

/-- The outcomes of a value at an occurrence of a name. -/
def occurrence (p : Program) (identifier : Node) (path : List String) (map : TraceMap) :
    Search Outcome :=
  consequences p path map identifier (p.above identifier)

/-! ## Following variables -/

/-- The outcomes at all places where a variable is read. -/
def variableOutcomes (p : Program) (v : VariableId) (path : List String) (map : TraceMap)
    (reportReads : Bool) : Search Outcome := do
  let r ← .ofList ((p.referencesTo v).filter (·.access.reads))
  let here := if reportReads then .report <$> reportUse r.identifier path .read map else .done
  here ++ occurrence p r.identifier path map

/-- The uses of a value that has come to a variable, in the order in which they are met. The stack
holds the variables that are being followed. The budget bounds the number of those that are not;
once it is used up, all are. -/
def followVariable (p : Program) : Nat → List VariableId → VariableId → List String → TraceMap →
    Bool → Search Tracked
  | 0, _, _, _, _, _ => .done
  | n + 1, stack, v, path, map, reportReads =>
    if stack.contains v then .done
    else do
      match ← variableOutcomes p v path map reportReads with
      | .report t => pure t
      | .reach w path map => followVariable p n (v :: stack) w path map false

/-- The uses of a value that comes to a variable. -/
def follow (p : Program) (v : VariableId) (path : List String) (map : TraceMap)
    (reportReads : Bool) : Search Tracked :=
  followVariable p p.graph.variableIds.length [] v path map reportReads

/-- The uses that come of an outcome. -/
def followOutcome (p : Program) : Outcome → Search Tracked
  | .report t => pure t
  | .reach v path map => follow p v path map false

/-! ## Imports -/

/-- The name of a default export. -/
def defaultName : String := "default"

/-- The uses of a value that is bound to the name of an import. -/
def followBinding (p : Program) (specifier : Node) (path : List String) (map : TraceMap) :
    Search Tracked := do
  match ← specifier.child .localName with
  | none => .broken (.missingNode "local")
  | some name =>
    match ← p.find name with
    | some v => follow p v path map false
    | none => .done

/-- The uses of one export of a module. -/
def followExport (p : Program) (specifier : Node) (name : Option String) (path : List String)
    (map : TraceMap) : Search Tracked :=
  match name with
  | none => .done
  | some name => match map.get? name with
    | none => .done
    | some next =>
      let path := path ++ [name]
      reportUse specifier path .read next ++ followBinding p specifier path next

/-- The name of what an import takes from a module. -/
def importedName (specifier : Node) : Except Fault (Option String) := do
  match ← specifier.child .imported with
  | none => throw (.missingNode "imported")
  | some i => i.text? (if i.kind == .identifier then .name else .value)

/-- The uses of what one specifier imports. -/
def followSpecifier (p : Program) (specifier : Node) (path : List String) (map : TraceMap) :
    Search Tracked :=
  match specifier.kind with
  | .importSpecifier => do followExport p specifier (← importedName specifier) path map
  | .importDefaultSpecifier => followExport p specifier (some defaultName) path map
  | .importNamespaceSpecifier => followBinding p specifier path map
  | _ => .done

/-- The nodes in a list that a node holds. -/
def members (items : Except Fault (List (Option Node))) : Search Node := do
  match ← .ofList (← items) with
  | some n => pure n
  | none => .broken (.missingNode "item")

/-- The uses of what an import declaration imports. -/
def followImport (p : Program) (map : TraceMap) (node : Node) : Search Tracked := do
  if node.kind == .importDeclaration then
    match ← node.child .source with
    | none => .done
    | some source =>
      match ← source.text? .value with
      | none => .done
      | some name =>
        match map.get? name with
        | none => .done
        | some next =>
          let exports := if next.listsExports then next
            else TraceMap.empty.insert defaultName next
          reportUse node [name] .read next ++
            do followSpecifier p (← members (node.items .specifiers)) [name] exports
  else .done

/-- The uses of the modules in a trace map, by the imports at the top of the program. -/
def imports (p : Program) (map : TraceMap) : Search Tracked := do
  followImport p map (← members ((← p.globalScope).block.items .body))

/-! ## Globals -/

/-- The uses of an object that is there without a declaration, under the given name, in the global
scope. -/
def followGlobal (p : Program) (s : Scope) (name : String) (map : TraceMap) : Search Tracked :=
  let v := s.find? name
  if v.any p.isModified then .done
  else
    let declared := if v.isSome then follow p ⟨p.global, name⟩ [name] map true else .done
    let unresolved := p.graph.referencesOf s.through
    declared ++ do
      let r ← .ofList (unresolved.filter fun r => r.name == name && r.access.reads)
      reportUse r.identifier [name] .read map ++
        (occurrence p r.identifier [name] map >>= followOutcome p)

/-- The uses of the global objects in a trace map. -/
def globals (p : Program) (map : TraceMap) : Search Tracked := do
  let s ← p.globalScope
  let (name, next) ← .ofList map.members
  followGlobal p s name next

end RefFlow.Trace
