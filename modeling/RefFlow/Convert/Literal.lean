import RefFlow.Convert.Basic

/-!
# Names and literals

The leaves of the tree. A string keeps what stands between its quotes as it is written, escapes
included; a template without substitutions likewise.
-/

namespace RefFlow.Convert

/-- A text without its first and last character. -/
def unquote (cs : List Char) : String := String.ofList (cs.drop 1).dropLast

/-- A literal that covers a span. -/
def literal (span : Span) (value : Slot Draft) (raw : String) : Making Draft :=
  make span .literal [(.value, value), (.raw, .text raw)]

/-- A string. -/
def stringLiteral (i : Input) (span : Span) : Making Draft :=
  let raw := i.source.chars span
  literal span (.text (unquote raw)) (String.ofList raw)

/-- A number; text that is no number stands for itself. -/
def numberLiteral (i : Input) (span : Span) : Making Draft :=
  let raw := i.source.chars span
  let value := match Numeral.read? raw with
    | some n => .numeral n
    | none => .text (String.ofList raw)
  literal span value (String.ofList raw)

/-- A truth value. -/
def booleanLiteral (span : Span) (b : Bool) : Making Draft :=
  literal span (.flag b) (if b then "true" else "false")

/-- The null value. -/
def nullLiteral (span : Span) : Making Draft := literal span .blank "null"

/-- A regular expression, which has no value of its own. -/
def regexLiteral (i : Input) (span : Span) : Making Draft :=
  literal span .blank (i.source.text span)

/-- A private name, without its mark. -/
def privateIdentifier (i : Input) (span : Span) : Making Draft :=
  make span .privateIdentifier
    [(.name, .text (String.ofList ((i.source.chars span).dropWhile (· == '#'))))]

/-- A template. It has a text of its own only if nothing is substituted into it. -/
def template (i : Input) (y : Layer Parsed) : Making Draft := do
  let substitutions := y.constructs.filter (·.symbol == "template_substitution")
  let cooked : Slot Draft :=
    if substitutions.isEmpty then .text (unquote (i.source.chars y.span)) else .blank
  make y.span .templateLiteral
    [(.expressions, .ofList (← values substitutions)), (.cooked, cooked)]

/-- The name of a module export: a string or an identifier. -/
def moduleName (i : Input) (c : Parsed) : Making Draft :=
  if c.symbol == "string" then stringLiteral i c.span else identifier i c

end RefFlow.Convert
