import RefFlow.Text.LowerCase

/-!
# File paths

A path is a root and a list of components. Empty components and those that name the current
directory do not count. Two slashes at the front are a root of their own, and any other number of
slashes is the plain root.
-/

namespace RefFlow

/-- A file path. -/
structure Path where
  /-- What the path starts from: nothing, or one or two slashes. -/
  root : String
  components : List String
deriving DecidableEq, Repr

namespace Path

/-- The component that names the current directory. -/
def current : String := "."

/-- The component that names the directory above. -/
def parentName : String := ".."

/-- The root of a path with the given number of slashes at its front. -/
def rootOf : Nat → String
  | 0 => ""
  | 2 => "//"
  | _ => "/"

/-- The path that a text spells. -/
def ofString (s : String) : Path :=
  let cs := s.toList
  { root := rootOf (cs.takeWhile (· == '/')).length
    components := ((cs.splitOn '/').map String.ofList).filter fun c => c != "" && c != current }

/-- The text of a path. -/
def text (p : Path) : String :=
  let t := p.root ++ "/".intercalate p.components
  if t == "" then current else t

/-- The last component. -/
def name (p : Path) : String := p.components.getLast?.getD ""

/-- The last component from its last dot on, provided that there is something before and after. -/
def suffix (p : Path) : String :=
  let cs := p.name.toList
  let tail := (cs.reverse.takeWhile (· != '.')).reverse
  if tail.isEmpty || cs.length ≤ tail.length + 1 then ""
  else String.ofList ('.' :: tail)

end Path

end RefFlow
