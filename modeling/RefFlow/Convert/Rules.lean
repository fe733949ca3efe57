import RefFlow.Convert.Element
import RefFlow.Convert.Expression
import RefFlow.Convert.Module
import RefFlow.Convert.Pattern
import RefFlow.Convert.Statement
import RefFlow.Tree.Preorder

/-!
# The conversion

`rules` says for each symbol of the grammar what a construct with that symbol becomes as a value.
`read` puts the readings of a construct together, `draft` reads a whole tree, and
`Convert.build` numbers the nodes of the result.
-/

namespace RefFlow.Convert

/-- The rule that reads a construct as one node. -/
def always (f : Layer Parsed → Making Draft) : Rule := fun y => some <$> f y

/-- The rule for a construct that stands for its first component. -/
def transparent : Rule := fun y => value y.first?

/-- The rule for a name. -/
def nameRule (i : Input) : Rule :=
  always fun y => make y.span .identifier [(.name, .text (i.source.text y.span))]

/-- The rules, by symbol. -/
def rules (i : Input) : List (String × Rule) :=
  [("program", always (program i)),
   ("expression_statement", always expressionStatement),
   ("lexical_declaration", always (declaration i)),
   ("variable_declaration", always (declaration i)),
   ("identifier", nameRule i),
   ("shorthand_property_identifier", nameRule i),
   ("undefined", nameRule i),
   ("property_identifier", nameRule i),
   ("private_property_identifier", always fun y => privateIdentifier i y.span),
   ("this", always fun y => make y.span .thisExpression []),
   ("super", always fun y => make y.span .superExpression []),
   ("string", always fun y => stringLiteral i y.span),
   ("number", always fun y => numberLiteral i y.span),
   ("true", always fun y => booleanLiteral y.span true),
   ("false", always fun y => booleanLiteral y.span false),
   ("null", always fun y => nullLiteral y.span),
   ("regex", always fun y => regexLiteral i y.span),
   ("template_string", always (template i)),
   ("template_substitution", transparent),
   ("parenthesized_expression", transparent),
   ("else_clause", transparent),
   ("member_expression", always member),
   ("subscript_expression", always subscript),
   ("call_expression", always (call i)),
   ("new_expression", always construction),
   ("assignment_expression", always assignment),
   ("augmented_assignment_expression", always (combiningAssignment i)),
   ("update_expression", always (update i)),
   ("binary_expression", always (binary i)),
   ("unary_expression", always (unary i)),
   ("ternary_expression", always conditional),
   ("sequence_expression", always sequence),
   ("await_expression", always await),
   ("yield_expression", always yield),
   ("object", always (object i)),
   ("array", always array),
   ("spread_element", always spread),
   ("function_declaration", always (function i .functionDeclaration false)),
   ("generator_function_declaration", always (function i .functionDeclaration true)),
   ("function_expression", always (function i .functionExpression false)),
   ("function", always (function i .functionExpression false)),
   ("generator_function", always (function i .functionExpression true)),
   ("arrow_function", always arrowFunction),
   ("statement_block", always block),
   ("return_statement", always returnStatement),
   ("if_statement", always ifStatement),
   ("for_statement", always forStatement),
   ("for_in_statement", always (forEachStatement i)),
   ("while_statement", always whileStatement),
   ("do_statement", always doStatement),
   ("try_statement", always tryStatement),
   ("catch_clause", always catchClause),
   ("class_declaration", always (classNode i .classDeclaration)),
   ("abstract_class_declaration", always (classNode i .classDeclaration)),
   ("class", always (classNode i .classExpression)),
   ("import_statement", always (importStatement i)),
   ("export_statement", always (exportStatement i)),
   ("as_expression", always ascription),
   ("satisfies_expression", always ascription),
   ("non_null_expression", always presence),
   ("enum_declaration", always (enumDeclaration i)),
   ("internal_module", always (namespaceDeclaration i)),
   ("module", always (namespaceDeclaration i)),
   ("jsx_element", always element),
   ("jsx_self_closing_element", always emptyElement),
   ("jsx_opening_element", always (openingTag false)),
   ("jsx_closing_element", always closingTag),
   ("jsx_attribute", always elementAttribute),
   ("jsx_expression", always braces),
   ("jsx_text", always (markupText i))]

/-- What a construct becomes as a value. -/
def readValue (i : Input) (y : Layer Parsed) : Making (Option Draft) :=
  ((rules i).lookup y.symbol).getD (always generic) y

/-- What a construct becomes among the operands of a sequence. -/
def readOperands (y : Layer Parsed) (value : Making (Option Draft)) :
    Making (List Draft) :=
  if y.symbol == "sequence_expression" then sequenceOperands y else Option.toList <$> value

/-- All readings of a construct. One that is skipped reads as nothing, and yet it can name an
element. -/
def read (i : Input) (y : Layer Parsed) : Reading :=
  if skippedSymbols.contains y.symbol then
    { value := pure none, target := pure none, name := readName i y, operands := pure [] }
  else
    let value := readValue i y
    { value := value
      target := readTarget i y value
      name := readName i y
      operands := readOperands y value }

/-- The abstract tree of a concrete one, as it is made. -/
def draft (i : Input) (c : Concrete Unit) : Except Fault Draft := do
  match ← (c.annotate (read i)).label.value.run' 0 with
  | some d => return d
  | none => throw (.missingNode "program")

/-- The numbered abstract tree of a concrete one. -/
def build (i : Input) (c : Concrete Unit) : Except Fault Node := Tree.numbered <$> draft i c

end RefFlow.Convert
