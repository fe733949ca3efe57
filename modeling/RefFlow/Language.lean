import RefFlow.Component
import RefFlow.Path

/-!
# Languages and grammars

A program is parsed by one of three grammars. A source is either a plain program in one of them, or
a component whose scripts name the grammar.
-/

namespace RefFlow

/-- The rules by which a program is parsed. -/
inductive Grammar where
  | javascript | typescript | tsx
deriving DecidableEq, Repr

/-- The name of a grammar. -/
def Grammar.name : Grammar → String
  | .javascript => "javascript"
  | .typescript => "typescript"
  | .tsx => "tsx"

/-- What a source holds. -/
inductive Language where
  /-- A program. -/
  | plain (g : Grammar)
  /-- Markup with scripts. -/
  | component
deriving DecidableEq, Repr

namespace Language

/-- The name of a language. -/
def name : Language → String
  | plain g => g.name
  | component => "vue"

/-- All languages. -/
def all : List Language := [plain .javascript, plain .typescript, plain .tsx, component]

/-- The language of a given name. -/
def ofName? (name : String) : Option Language := all.find? (·.name == name)

/-- The languages of files, by their suffixes. -/
def suffixes : List (String × Language) :=
  [(".js", plain .javascript), (".jsx", plain .javascript), (".mjs", plain .javascript),
   (".cjs", plain .javascript), (".ts", plain .typescript), (".mts", plain .typescript),
   (".cts", plain .typescript), (".tsx", plain .tsx), (".vue", component)]

/-- The language of a file, by its suffix in any letter case. -/
def ofPath? (p : Path) : Option Language :=
  suffixes.lookup (String.ofList (Text.lower p.suffix.toList))

/-- The grammar for the scripts of a component. -/
def scriptGrammar (ss : List Component.Script) : Grammar :=
  match (Component.leading? ss).bind Component.Script.language? with
  | some l =>
    if l == Component.ascii "ts" then .typescript
    else if l == Component.ascii "tsx" then .tsx
    else .javascript
  | none => .javascript

/-- The source to be parsed, and the grammar for it. -/
def prepare (l : Language) (s : Source) : Source × Grammar :=
  match l with
  | plain g => (s, g)
  | component => (⟨Component.mask s.bytes⟩, scriptGrammar (Component.scripts s.bytes))

end Language

end RefFlow
