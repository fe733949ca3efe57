import RefFlow.Convert.Basic

/-!
# Markup elements

Names of elements and attributes get kinds of their own: they never refer to variables, and only
expressions in braces do.
-/

namespace RefFlow.Convert

/-! ## Names -/

/-- The first and the last component of a name. -/
def nameEnds (y : Layer Parsed) : Making (Parsed × Parsed) :=
  match y.parts.head?, y.parts.getLast? with
  | some a, some b => return (a, b)
  | _, _ => throw .emptyName

/-- What a construct becomes as a name. -/
def readName (i : Input) (y : Layer Parsed) : Making Draft :=
  match y.symbol with
  | "member_expression" | "nested_identifier" => do
    let (object, property) ← match y.child? "object", y.child? "property" with
      | some o, some p => pure (o, p)
      | _, _ => nameEnds y
    make y.span .jsxMemberExpression
      [(.object, .node (← object.label.name)), (.property, .node (← property.label.name))]
  | "jsx_namespace_name" => do
    let (space, name) ← nameEnds y
    make y.span .jsxNamespacedName
      [(.namespaceName, .node (← space.label.name)), (.name, .node (← name.label.name))]
  | _ => make y.span .jsxIdentifier [(.name, .text (i.source.text y.span))]

/-- The part for an optional name. -/
def nameSlot : Option Parsed → Making (Slot Draft) := slotFor (·.label.name)

/-! ## Elements -/

/-- The attributes of a tag: its components other than the name. -/
def attributes (y : Layer Parsed) : Making (List Draft) :=
  values (y.parts.filter fun c => (y.child? "name").all fun n => c.span.start != n.span.start)

/-- An opening tag. -/
def openingTag (selfClosing : Bool) (y : Layer Parsed) : Making Draft := do
  make y.span .jsxOpeningElement
    [(.name, ← nameSlot (y.child? "name")), (.attributes, .ofList (← attributes y)),
     (.selfClosing, .flag selfClosing)]

/-- A closing tag. -/
def closingTag (y : Layer Parsed) : Making Draft := do
  make y.span .jsxClosingElement [(.name, ← nameSlot (y.child? "name"))]

/-- An element without content. -/
def emptyElement (y : Layer Parsed) : Making Draft := do
  make y.span .jsxElement
    [(.openingElement, .node (← openingTag true y)), (.nodes, .list []), (.closingElement, .blank)]

/-- The components of an element that have been read so far. -/
structure ElementParts where
  opening : Slot Draft := .blank
  content : List Draft := []
  closing : Slot Draft := .blank

/-- Takes one more component of an element: a tag, of which the last counts, or content. -/
def ElementParts.add (e : ElementParts) (c : Parsed) : Making ElementParts :=
  match c.symbol with
  | "jsx_opening_element" => do return { e with opening := .node (← openingTag false c.layer) }
  | "jsx_closing_element" => do return { e with closing := .node (← closingTag c.layer) }
  | _ => do return { e with content := e.content ++ (← c.label.value).toList }

/-- An element with content. -/
def element (y : Layer Parsed) : Making Draft := do
  let e ← y.parts.foldlM ElementParts.add {}
  make y.span .jsxElement
    [(.openingElement, e.opening), (.nodes, .ofList e.content), (.closingElement, e.closing)]

/-- An attribute. -/
def elementAttribute (y : Layer Parsed) : Making Draft := do
  make y.span .jsxAttribute
    [(.name, ← nameSlot y.parts.head?), (.value, .ofOption (← value y.parts[1]?))]

/-- An expression in braces, or attributes that are spread out. -/
def braces (y : Layer Parsed) : Making Draft :=
  match y.first?.filter (·.symbol == "spread_element") with
  | some s => do make y.span .jsxSpreadAttribute [(.argument, ← firstValue s.layer)]
  | none => do make y.span .jsxExpressionContainer [(.expression, ← firstValue y)]

/-- Text between tags. -/
def markupText (i : Input) (y : Layer Parsed) : Making Draft :=
  make y.span .jsxText [(.value, .text (i.source.text y.span))]

end RefFlow.Convert
