import RefFlow.Concrete

/-!
# Reading concrete trees

The textual form of a concrete tree: nested lists in square brackets, whose items are quoted texts,
numbers, the word `null`, and lists again. A node is the list of its symbol, one or zero for whether
it is named, its role or `null`, the ends of its span, and the list of its children.

Reading goes in three passes, each of which is recursion on what the pass before gave: characters to
tokens, tokens to nested lists, nested lists to trees.
-/

namespace RefFlow.Concrete

/-! ## Tokens -/

/-- A token of the textual form. -/
inductive Token where
  | opening | closing
  | text (s : String)
  | number (n : Nat)
  | nothing
deriving DecidableEq, Repr

/-- What the reader is in the middle of. -/
inductive Scan where
  | between
  | number (n : Nat)
  | word (back : List Char)
  | text (back : List Char)
  /-- After a backslash in a text. -/
  | escape (back : List Char)
  /-- In the code of a character, with the number of digits still to come. -/
  | code (back : List Char) (digits value : Nat)
  | failed
deriving DecidableEq, Repr

/-- The value of a digit in base sixteen. -/
def hexDigit? (c : Char) : Option Nat :=
  if c.isDigit then some (c.toNat - 48)
  else if 'a' ≤ c && c ≤ 'f' then some (c.toNat - 87)
  else if 'A' ≤ c && c ≤ 'F' then some (c.toNat - 55)
  else none

/-- The character that a letter after a backslash stands for. -/
def escaped? (c : Char) : Option Char :=
  [('"', '"'), ('\\', '\\'), ('/', '/'), ('n', '\n'), ('t', '\t'), ('r', '\r')].lookup c

/-- The token that a word or a number ends in. -/
def Scan.finish : Scan → List Token
  | number n => [.number n]
  | word back => if back == "llun".toList then [.nothing] else [.text (String.ofList back.reverse)]
  | _ => []

/-- Takes one character outside texts. -/
def Scan.start (c : Char) : List Token × Scan :=
  if c == '[' then ([.opening], between)
  else if c == ']' then ([.closing], between)
  else if c == '"' then ([], text [])
  else if c.isDigit then ([], number (c.toNat - 48))
  else if c.isAlpha then ([], word [c])
  else if c.isWhitespace || c == ',' then ([], between)
  else ([], failed)

/-- Takes one character. -/
def Scan.step (s : Scan) (c : Char) : List Token × Scan :=
  match s with
  | between => start c
  | number n =>
    if c.isDigit then ([], number (10 * n + (c.toNat - 48)))
    else ((number n).finish ++ (start c).1, (start c).2)
  | word back =>
    if c.isAlpha then ([], word (c :: back)) else ((word back).finish ++ (start c).1, (start c).2)
  | text back =>
    if c == '"' then ([.text (String.ofList back.reverse)], between)
    else if c == '\\' then ([], escape back)
    else ([], text (c :: back))
  | escape back =>
    if c == 'u' then ([], code back 4 0)
    else match escaped? c with
      | some d => ([], text (d :: back))
      | none => ([], failed)
  | code back digits value =>
    match hexDigit? c with
    | none => ([], failed)
    | some d =>
      if digits ≤ 1 then ([], text (Char.ofNat (16 * value + d) :: back))
      else ([], code back (digits - 1) (16 * value + d))
  | failed => ([], failed)

/-- The tokens of a text. -/
def tokens : Scan → List Char → Option (List Token)
  | .failed, _ => none
  | s, [] => some s.finish
  | s, c :: cs => (tokens (s.step c).2 cs).map ((s.step c).1 ++ ·)

/-! ## Nested lists -/

/-- A nested list. -/
inductive Datum where
  | text (s : String)
  | number (n : Nat)
  | nothing
  | list (items : List Datum)

/-- Adds an item to the innermost of the lists that are open. -/
def addItem (d : Datum) : List (List Datum) → Option (List (List Datum))
  | [] => none
  | items :: rest => some ((d :: items) :: rest)

/-- Takes one token, given the lists that are open, each with its last item first. -/
def takeToken (unclosed : List (List Datum)) : Token → Option (List (List Datum))
  | .opening => some ([] :: unclosed)
  | .closing => match unclosed with
    | items :: rest => addItem (.list items.reverse) rest
    | [] => none
  | .text s => addItem (.text s) unclosed
  | .number n => addItem (.number n) unclosed
  | .nothing => addItem .nothing unclosed

/-- The nested list that tokens spell. -/
def datum? (ts : List Token) : Option Datum :=
  match ts.foldlM takeToken [[]] with
  | some [[d]] => some d
  | _ => none

/-! ## Trees -/

mutual

/-- The tree that a nested list stands for. -/
def ofDatum? : Datum → Option (Concrete Unit)
  | .list [.text symbol, .number named, role, .number start, .number stop, .list children] =>
    let role := match role with
      | .text r => some r
      | _ => none
    (ofData? children).map fun cs => mk () ⟨symbol, named != 0, role, ⟨start, stop⟩, cs⟩
  | _ => none

/-- `ofDatum?` on a list. -/
def ofData? : List Datum → Option (List (Concrete Unit))
  | [] => some []
  | d :: ds =>
    match ofDatum? d, ofData? ds with
    | some c, some cs => some (c :: cs)
    | _, _ => none

end

/-- The tree that a text spells. -/
def read? (cs : List Char) : Option (Concrete Unit) := do
  ofDatum? (← datum? (← tokens .between cs))

end RefFlow.Concrete
