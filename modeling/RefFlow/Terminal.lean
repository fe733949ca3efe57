import RefFlow.Text.LowerCase

/-!
# Terminals

What a terminal can show is known by the name of its encoding. Glyphs that a terminal cannot show
are replaced by plain characters.
-/

namespace RefFlow

/-- What is known of a terminal. -/
structure Terminal where
  /-- The encoding that the terminal names. -/
  encoding : Option String
  /-- The encoding that the system prefers. -/
  preferred : Option String

namespace Terminal

/-- A name in lower case. -/
def lowerName (s : String) : String := String.ofList (Text.lower s.toList)

/-- The encoding of the terminal: the one that it names, or else the one that the system prefers, or
else the plainest. -/
def detected (t : Terminal) : String :=
  match t.encoding.filter (· != "") with
  | some e => lowerName e
  | none => match t.preferred with
    | some p => lowerName p
    | none => "ascii"

/-- The terminal can show all characters. -/
def isUtf8 (t : Terminal) : Bool :=
  let name := String.ofList (t.detected.toList.map fun c => if c == '_' then '-' else c)
  name == "utf-8" || name == "utf8"

/-- Glyphs, and what stands for them where they cannot be shown. -/
def glyphs : List (Char × String) :=
  [('✓', "[OK]"), ('✗', "[FAIL]"), ('⚠', "[WARN]"), ('→', "->"), ('⇒', "=>"), ('…', "..."),
   ('•', "*"), ('│', "|"), ('─', "-")]

/-- A character as it can be shown everywhere, if it is a glyph. -/
def plain (c : Char) : List Char :=
  match glyphs.lookup c with
  | some s => s.toList
  | none => [c]

/-- A text as the terminal can show it. -/
def sanitize (t : Terminal) (s : String) : String :=
  if t.isUtf8 then s else String.ofList (s.toList.flatMap plain)

end Terminal

/-- A console on a terminal. What the terminal can show is looked at when the console is made, and
again when something is printed. -/
structure Console where
  /-- The terminal could not show all characters when the console was made. -/
  isLimited : Bool

namespace Console

/-- A console on a terminal. -/
def on (t : Terminal) : Console := ⟨!t.isUtf8⟩

/-- A text as the console prints it, given the terminal at that time. -/
def render (c : Console) (t : Terminal) (s : String) : String :=
  if c.isLimited then t.sanitize s else s

end Console

end RefFlow
