/-!
# Field names

The names under which the nodes of an abstract syntax tree hold their parts.
-/

namespace RefFlow

/-- The name of a part of a node. -/
inductive Field where
  | body | sourceType | expression | kind | declarations | id | init | test | consequent
  | alternate | update | left | right | block | handler | finalizer | param | specifiers | source
  | localName | declaration | imported | exported | name | value | raw | expressions | cooked
  | object | property | computed | optional | tag | quasi | callee | arguments | operator
  | beforeOperand | argument | delegate | elements | properties | key | shorthand | method | params
  | generator | isAsync | superClass | static | members | isConst | initializer | openingElement
  | closingElement | attributes | selfClosing | namespaceName | nodes
deriving DecidableEq, Repr

/-- The name as it is written. -/
def Field.text : Field → String
  | .body => "body"
  | .sourceType => "sourceType"
  | .expression => "expression"
  | .kind => "kind"
  | .declarations => "declarations"
  | .id => "id"
  | .init => "init"
  | .test => "test"
  | .consequent => "consequent"
  | .alternate => "alternate"
  | .update => "update"
  | .left => "left"
  | .right => "right"
  | .block => "block"
  | .handler => "handler"
  | .finalizer => "finalizer"
  | .param => "param"
  | .specifiers => "specifiers"
  | .source => "source"
  | .localName => "local"
  | .declaration => "declaration"
  | .imported => "imported"
  | .exported => "exported"
  | .name => "name"
  | .value => "value"
  | .raw => "raw"
  | .expressions => "expressions"
  | .cooked => "cooked"
  | .object => "object"
  | .property => "property"
  | .computed => "computed"
  | .optional => "optional"
  | .tag => "tag"
  | .quasi => "quasi"
  | .callee => "callee"
  | .arguments => "arguments"
  | .operator => "operator"
  | .beforeOperand => "prefix"
  | .argument => "argument"
  | .delegate => "delegate"
  | .elements => "elements"
  | .properties => "properties"
  | .key => "key"
  | .shorthand => "shorthand"
  | .method => "method"
  | .params => "params"
  | .generator => "generator"
  | .isAsync => "is_async"
  | .superClass => "superClass"
  | .static => "static"
  | .members => "members"
  | .isConst => "const"
  | .initializer => "initializer"
  | .openingElement => "openingElement"
  | .closingElement => "closingElement"
  | .attributes => "attributes"
  | .selfClosing => "selfClosing"
  | .namespaceName => "namespace"
  | .nodes => "nodes"

end RefFlow
