/-!
# Node kinds

The kinds of nodes of an abstract syntax tree, under their conventional names, and `Kind.other`
for constructs of a grammar that have no kind of their own.

A kind says what a node is called and not what it carries. A construct that was not understood may
bear the name of a known kind (an object pattern inside a stretch of broken code, for instance) and
yet lack the fields of that kind, so every access to a field has to reckon with its absence.
-/

namespace RefFlow

/-- What a node is. -/
inductive Kind where
  | program | expressionStatement | blockStatement | returnStatement | ifStatement | forStatement
  | forInStatement | forOfStatement | whileStatement | doWhileStatement | tryStatement
  | catchClause | switchBody | variableDeclaration | variableDeclarator | functionDeclaration
  | functionExpression | arrowFunctionExpression | classDeclaration | classExpression | classBody
  | methodDefinition | propertyDefinition | staticBlock | importDeclaration | importSpecifier
  | importDefaultSpecifier | importNamespaceSpecifier | exportNamedDeclaration
  | exportDefaultDeclaration | exportAllDeclaration | exportSpecifier | identifier
  | privateIdentifier | thisExpression | superExpression | literal | templateLiteral
  | taggedTemplateExpression | memberExpression | callExpression | newExpression
  | assignmentExpression | updateExpression | unaryExpression | binaryExpression
  | logicalExpression | conditionalExpression | sequenceExpression | awaitExpression
  | yieldExpression | chainExpression | spreadElement | arrayExpression | objectExpression
  | property | objectPattern | arrayPattern | assignmentPattern | restElement | tsAsExpression
  | tsNonNullExpression | tsEnumDeclaration | tsEnumMember | tsModuleDeclaration | jsxElement
  | jsxOpeningElement | jsxClosingElement | jsxAttribute | jsxSpreadAttribute
  | jsxExpressionContainer | jsxText | jsxIdentifier | jsxMemberExpression | jsxNamespacedName
  /-- A construct without a kind of its own. -/
  | other (name : String)
deriving DecidableEq, Repr

namespace Kind

/-- The name of a kind. -/
def name : Kind → String
  | .program => "Program"
  | .expressionStatement => "ExpressionStatement"
  | .blockStatement => "BlockStatement"
  | .returnStatement => "ReturnStatement"
  | .ifStatement => "IfStatement"
  | .forStatement => "ForStatement"
  | .forInStatement => "ForInStatement"
  | .forOfStatement => "ForOfStatement"
  | .whileStatement => "WhileStatement"
  | .doWhileStatement => "DoWhileStatement"
  | .tryStatement => "TryStatement"
  | .catchClause => "CatchClause"
  | .switchBody => "SwitchBody"
  | .variableDeclaration => "VariableDeclaration"
  | .variableDeclarator => "VariableDeclarator"
  | .functionDeclaration => "FunctionDeclaration"
  | .functionExpression => "FunctionExpression"
  | .arrowFunctionExpression => "ArrowFunctionExpression"
  | .classDeclaration => "ClassDeclaration"
  | .classExpression => "ClassExpression"
  | .classBody => "ClassBody"
  | .methodDefinition => "MethodDefinition"
  | .propertyDefinition => "PropertyDefinition"
  | .staticBlock => "StaticBlock"
  | .importDeclaration => "ImportDeclaration"
  | .importSpecifier => "ImportSpecifier"
  | .importDefaultSpecifier => "ImportDefaultSpecifier"
  | .importNamespaceSpecifier => "ImportNamespaceSpecifier"
  | .exportNamedDeclaration => "ExportNamedDeclaration"
  | .exportDefaultDeclaration => "ExportDefaultDeclaration"
  | .exportAllDeclaration => "ExportAllDeclaration"
  | .exportSpecifier => "ExportSpecifier"
  | .identifier => "Identifier"
  | .privateIdentifier => "PrivateIdentifier"
  | .thisExpression => "ThisExpression"
  | .superExpression => "Super"
  | .literal => "Literal"
  | .templateLiteral => "TemplateLiteral"
  | .taggedTemplateExpression => "TaggedTemplateExpression"
  | .memberExpression => "MemberExpression"
  | .callExpression => "CallExpression"
  | .newExpression => "NewExpression"
  | .assignmentExpression => "AssignmentExpression"
  | .updateExpression => "UpdateExpression"
  | .unaryExpression => "UnaryExpression"
  | .binaryExpression => "BinaryExpression"
  | .logicalExpression => "LogicalExpression"
  | .conditionalExpression => "ConditionalExpression"
  | .sequenceExpression => "SequenceExpression"
  | .awaitExpression => "AwaitExpression"
  | .yieldExpression => "YieldExpression"
  | .chainExpression => "ChainExpression"
  | .spreadElement => "SpreadElement"
  | .arrayExpression => "ArrayExpression"
  | .objectExpression => "ObjectExpression"
  | .property => "Property"
  | .objectPattern => "ObjectPattern"
  | .arrayPattern => "ArrayPattern"
  | .assignmentPattern => "AssignmentPattern"
  | .restElement => "RestElement"
  | .tsAsExpression => "TSAsExpression"
  | .tsNonNullExpression => "TSNonNullExpression"
  | .tsEnumDeclaration => "TSEnumDeclaration"
  | .tsEnumMember => "TSEnumMember"
  | .tsModuleDeclaration => "TSModuleDeclaration"
  | .jsxElement => "JSXElement"
  | .jsxOpeningElement => "JSXOpeningElement"
  | .jsxClosingElement => "JSXClosingElement"
  | .jsxAttribute => "JSXAttribute"
  | .jsxSpreadAttribute => "JSXSpreadAttribute"
  | .jsxExpressionContainer => "JSXExpressionContainer"
  | .jsxText => "JSXText"
  | .jsxIdentifier => "JSXIdentifier"
  | .jsxMemberExpression => "JSXMemberExpression"
  | .jsxNamespacedName => "JSXNamespacedName"
  | .other n => n

/-- The kinds with a constructor of their own. -/
def known : List Kind :=
  [.program, .expressionStatement, .blockStatement, .returnStatement, .ifStatement, .forStatement,
   .forInStatement, .forOfStatement, .whileStatement, .doWhileStatement, .tryStatement,
   .catchClause, .switchBody, .variableDeclaration, .variableDeclarator, .functionDeclaration,
   .functionExpression, .arrowFunctionExpression, .classDeclaration, .classExpression, .classBody,
   .methodDefinition, .propertyDefinition, .staticBlock, .importDeclaration, .importSpecifier,
   .importDefaultSpecifier, .importNamespaceSpecifier, .exportNamedDeclaration,
   .exportDefaultDeclaration, .exportAllDeclaration, .exportSpecifier, .identifier,
   .privateIdentifier, .thisExpression, .superExpression, .literal, .templateLiteral,
   .taggedTemplateExpression, .memberExpression, .callExpression, .newExpression,
   .assignmentExpression, .updateExpression, .unaryExpression, .binaryExpression,
   .logicalExpression, .conditionalExpression, .sequenceExpression, .awaitExpression,
   .yieldExpression, .chainExpression, .spreadElement, .arrayExpression, .objectExpression,
   .property, .objectPattern, .arrayPattern, .assignmentPattern, .restElement, .tsAsExpression,
   .tsNonNullExpression, .tsEnumDeclaration, .tsEnumMember, .tsModuleDeclaration, .jsxElement,
   .jsxOpeningElement, .jsxClosingElement, .jsxAttribute, .jsxSpreadAttribute,
   .jsxExpressionContainer, .jsxText, .jsxIdentifier, .jsxMemberExpression, .jsxNamespacedName]

/-- The kind of a given name. -/
def ofName (n : String) : Kind := (known.find? (·.name == n)).getD (.other n)

@[simp] theorem name_ofName (n : String) : (ofName n).name = n := by
  unfold ofName
  cases h : known.find? (·.name == n) with
  | none => rfl
  | some k => simpa using List.find?_some h

end Kind

end RefFlow
