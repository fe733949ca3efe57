import RefFlow.Convert.Function

/-!
# Imports, exports, enumerations and namespaces
-/

namespace RefFlow.Convert

/-- The text of a module's address, if it is given. -/
def moduleSource (i : Input) (y : Layer Parsed) : Making (Slot Draft) :=
  slotFor (fun c => stringLiteral i c.span) (y.child? "source")

/-! ## Imports -/

/-- A name imported from a module. -/
def importSpecifier (i : Input) (c : Parsed) : Making Draft := do
  let name ← required c.layer "name"
  let bound := (c.layer.child? "alias").getD name
  make c.span .importSpecifier
    [(.imported, .node (← moduleName i name)), (.localName, .node (← identifier i bound))]

/-- What one component of an import clause binds. -/
def importSpecifiers (i : Input) (c : Parsed) : Making (List Draft) :=
  match c.symbol with
  | "identifier" => do
    return [← make c.span .importDefaultSpecifier [(.localName, .node (← identifier i c))]]
  | "namespace_import" =>
    match c.layer.first? with
    | some l => do
      return [← make c.span .importNamespaceSpecifier [(.localName, .node (← identifier i l))]]
    | none => throw (.missingNode "local")
  | "named_imports" =>
    (c.layer.constructs.filter (·.symbol == "import_specifier")).mapM (importSpecifier i)
  | _ => return []

/-- An import. -/
def importStatement (i : Input) (y : Layer Parsed) : Making Draft := do
  let specifiers ← match y.construct? "import_clause" with
    | some c => do pure (← c.layer.constructs.mapM (importSpecifiers i)).flatten
    | none => pure []
  make y.span .importDeclaration
    [(.specifiers, .ofList specifiers), (.source, ← moduleSource i y)]

/-! ## Exports -/

/-- A name that is exported. -/
def exportSpecifier (i : Input) (c : Parsed) : Making Draft := do
  let name ← required c.layer "name"
  let outside := (c.layer.child? "alias").getD name
  make c.span .exportSpecifier
    [(.localName, .node (← moduleName i name)), (.exported, .node (← moduleName i outside))]

/-- An export: of one value under the default name, of all names of another module, or of given
names. -/
def exportStatement (i : Input) (y : Layer Parsed) : Making Draft := do
  if y.hasToken "default" then
    let exported := (y.child? "declaration").orElse fun _ => y.child? "value"
    make y.span .exportDefaultDeclaration [(.declaration, .ofOption (← value exported))]
  else if y.hasToken "*" then
    make y.span .exportAllDeclaration [(.source, ← moduleSource i y)]
  else
    let specifiers ← match y.construct? "export_clause" with
      | some c =>
        (c.layer.constructs.filter (·.symbol == "export_specifier")).mapM (exportSpecifier i)
      | none => pure []
    make y.span .exportNamedDeclaration
      [(.declaration, ← valueAt y "declaration"), (.specifiers, .ofList specifiers),
       (.source, ← moduleSource i y)]

/-! ## Enumerations and namespaces -/

/-- A member of an enumeration. -/
def enumMember (i : Input) (c : Parsed) : Making Draft :=
  if c.symbol == "enum_assignment" then
    match (c.layer.child? "name").orElse fun _ => c.layer.first? with
    | none => throw (.missingNode "name")
    | some n => do
      let k ← key i n
      make c.span .tsEnumMember
        [(.id, .ofOption k.node), (.initializer, ← valueAt c.layer "value")]
  else do
    let k ← key i c
    make c.span .tsEnumMember [(.id, .ofOption k.node), (.initializer, .blank)]

/-- An enumeration. -/
def enumDeclaration (i : Input) (y : Layer Parsed) : Making Draft := do
  let members ← match y.child? "body" with
    | some b => b.layer.parts.mapM (enumMember i)
    | none => pure []
  make y.span .tsEnumDeclaration
    [(.id, ← identifierAt i y "name"), (.members, .ofList members),
     (.isConst, .flag (y.hasToken "const"))]

/-- A namespace. It binds its name only if that is a plain identifier. -/
def namespaceDeclaration (i : Input) (y : Layer Parsed) : Making Draft := do
  let name := (y.child? "name").filter (·.symbol == "identifier")
  make y.span .tsModuleDeclaration
    [(.id, ← slotFor (identifier i) name), (.body, ← valueAt y "body")]

end RefFlow.Convert
