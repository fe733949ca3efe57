/-!
# Text inside markup

Text that is printed may hold markup: tags in square brackets. `escape` makes text stand for itself:
it puts a backslash before whatever looks like a tag, and doubles the backslashes that are there.
-/

namespace RefFlow.Text.Markup

/-- A character that a tag may start with. -/
def startsTag (c : Char) : Bool := ('a' ≤ c && c ≤ 'z') || c == '#' || c == '/' || c == '@'

/-- A closing bracket comes before any opening one. -/
def closes (cs : List Char) : Bool :=
  match cs.find? fun c => c == '[' || c == ']' with
  | some c => c == ']'
  | none => false

/-- After an opening bracket, the text goes on as a tag does. -/
def isTag : List Char → Bool
  | c :: cs => startsTag c && closes cs
  | [] => false

/-- Backslashes, as many as given. -/
def backslashes (n : Nat) : List Char := List.replicate n '\\'

/-- Escapes the tags of a text that comes after the given number of backslashes. -/
def escapeTags (n : Nat) : List Char → List Char
  | [] => backslashes n
  | c :: cs =>
    if c == '\\' then escapeTags (n + 1) cs
    else if c == '[' && isTag cs then backslashes (2 * n + 1) ++ c :: escapeTags 0 cs
    else backslashes n ++ c :: escapeTags 0 cs

/-- The text ends in one backslash, and not in two. -/
def endsInBackslash (cs : List Char) : Bool :=
  match cs.reverse with
  | '\\' :: '\\' :: _ => false
  | '\\' :: _ => true
  | _ => false

/-- The text that stands for the given one where markup is understood. A single backslash at the end
is doubled, since it would otherwise escape what comes next. -/
def escape (cs : List Char) : List Char :=
  let t := escapeTags 0 cs
  if endsInBackslash t then t ++ ['\\'] else t

/-- The text that is shown for text with markup: tags are left out, and a backslash before a tag
makes it stand for itself. The number is that of the backslashes just before, and in a tag
everything up to its closing bracket is left out. -/
def shownAfter (n : Nat) (inTag : Bool) : List Char → List Char
  | [] => backslashes n
  | c :: cs =>
    if inTag then shownAfter 0 (c != ']') cs
    else if c == '\\' then shownAfter (n + 1) false cs
    else if c == '[' && isTag cs then
      if n % 2 == 0 then backslashes (n / 2) ++ shownAfter 0 true cs
      else backslashes (n / 2) ++ c :: shownAfter 0 false cs
    else backslashes n ++ c :: shownAfter 0 false cs

/-- The text that is shown for text with markup. -/
def shown (cs : List Char) : List Char := shownAfter 0 false cs

end RefFlow.Text.Markup
