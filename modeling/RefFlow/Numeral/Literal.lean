import RefFlow.Numeral.Shortest
import RefFlow.Text.Digit

/-!
# Numeric literals

The value of a numeric literal of the analysed language. Separators (`_`) and the suffix `n` of big
integers are dropped first. What remains is read as a whole number (decimal without leading zeros,
or with the mark `0x`, `0o` or `0b` in either case), and where that fails as a decimal number with a
point or an exponent, rounded to floating point. Text that is neither has no value as a number.

Between decimal digits and a whole number there is a limit: `digitLimit` digits are the most that
are read as a whole number, and the most that are written as a name. Marked numbers can be larger,
since their digits are bits, but such a number names no property.

Main definitions: `Numeral.read?`, which gives the value of a literal, `Numeral.text`, which writes
a value, and `Numeral.name?`, which writes it as the name of a property.
-/

namespace RefFlow

/-- The value of a numeric literal. -/
inductive Numeral where
  | integer (n : Int)
  | real (x : Double)
deriving DecidableEq, Repr

namespace Numeral

/-! ## Whole numbers -/

/-- The value of a digit in bases up to sixteen, letters in either case. -/
def digit? (c : Char) : Option Nat :=
  if '0' ≤ c ∧ c ≤ '9' then some (c.toNat - '0'.toNat)
  else if 'a' ≤ c ∧ c ≤ 'f' then some (c.toNat - 'a'.toNat + 10)
  else if 'A' ≤ c ∧ c ≤ 'F' then some (c.toNat - 'A'.toNat + 10)
  else none

/-- Reads digits of a base after the number `acc`. -/
def digits? (base : Nat) : Nat → List Char → Option Nat
  | acc, [] => some acc
  | acc, c :: cs =>
    match digit? c with
    | some d => if d < base then digits? base (acc * base + d) cs else none
    | none => none

/-- Reads one or more digits of a base. -/
def natural? (base : Nat) : List Char → Option Nat
  | [] => none
  | c :: cs => digits? base 0 (c :: cs)

/-- The base that a letter after a leading zero marks. -/
def baseMark? (c : Char) : Option Nat :=
  if c = 'x' ∨ c = 'X' then some 16
  else if c = 'o' ∨ c = 'O' then some 8
  else if c = 'b' ∨ c = 'B' then some 2
  else none

/-- The largest number of decimal digits that is converted to a whole number or back. -/
def digitLimit : Nat := 4300

/-- Reads one or more decimal digits, as far as they are not too many. A number may start with a
zero only if it has no other digits. -/
def decimalNatural? (cs : List Char) : Option Nat :=
  if digitLimit < cs.length then none
  else match cs with
    | '0' :: cs => if cs.all (· == '0') then some 0 else none
    | cs => natural? 10 cs

/-- Reads a whole number without a sign. -/
def magnitude? : List Char → Option Nat
  | '0' :: c :: cs =>
    match baseMark? c with
    | some base => natural? base cs
    | none => decimalNatural? ('0' :: c :: cs)
  | cs => decimalNatural? cs

/-- Reads an optional sign, then what `read` reads. -/
def signed? {α : Type} (read : List Char → Option α) : List Char → Option (Bool × α)
  | '-' :: cs => (read cs).map (true, ·)
  | '+' :: cs => (read cs).map (false, ·)
  | cs => (read cs).map (false, ·)

/-- Reads a whole number. -/
def integer? (cs : List Char) : Option Int :=
  (signed? magnitude? cs).map fun (negative, n) => if negative then -(n : Int) else n

/-! ## Decimal numbers -/

/-- A decimal digit. -/
def isDecimal (c : Char) : Bool := '0' ≤ c && c ≤ '9'

/-- Reads the exponent of a decimal number: nothing, or a mark, an optional sign and digits. -/
def exponent? : List Char → Option Int
  | [] => some 0
  | c :: cs =>
    if c = 'e' ∨ c = 'E' then
      (signed? (natural? 10) cs).map fun (negative, n) => if negative then -(n : Int) else n
    else none

/-- The digits after the point, and what follows them. -/
def fraction : List Char → List Char × List Char
  | '.' :: cs => (cs.takeWhile isDecimal, cs.dropWhile isDecimal)
  | cs => ([], cs)

/-- Reads a decimal number without a sign: digits with a point anywhere among them, then an
exponent. -/
def decimal? (cs : List Char) : Option Double.Decimal :=
  let whole := cs.takeWhile isDecimal
  let (part, rest) := fraction (cs.dropWhile isDecimal)
  match natural? 10 (whole ++ part), exponent? rest with
  | some n, some e => some ⟨n, e - part.length⟩
  | _, _ => none

/-- Reads a floating-point number without a sign. -/
def unsignedReal? (cs : List Char) : Option (Bool → Double) :=
  let word := String.ofList (cs.map Char.toLower)
  if word = "inf" ∨ word = "infinity" then some .infinite
  else if word = "nan" then some fun _ => .notANumber
  else (decimal? cs).map fun d negative => .ofDecimal negative d.digits d.exponent

/-- Reads a floating-point number. -/
def real? (cs : List Char) : Option Double :=
  (signed? unsignedReal? cs).map fun (negative, x) => x negative

/-! ## Literals -/

/-- The blanks of ASCII, which may stand around a number. -/
def isPlainBlank (c : Char) : Bool := c == ' ' || (9 ≤ c.toNat && c.toNat ≤ 13)

/-- The text of a literal without separators and suffix. -/
def stripped (cs : List Char) : List Char :=
  ((cs.filter (· != '_')).reverse.dropWhile (· == 'n')).reverse

/-- The value of a numeric literal. -/
def read? (cs : List Char) : Option Numeral :=
  let plain := Text.trimBy isPlainBlank ((stripped cs).map Text.plainChar)
  match integer? plain with
  | some n => some (.integer n)
  | none => (real? plain).map .real

/-- The text of a whole number. -/
def integerText (n : Int) : String :=
  String.ofList (match n with
    | .ofNat m => Nat.toDigits 10 m
    | .negSucc m => '-' :: Nat.toDigits 10 (m + 1))

/-- The text of a number. -/
def text : Numeral → String
  | .integer n => integerText n
  | .real x => x.text

/-- The number has too many digits to be written as a name. -/
def isOverlong : Numeral → Bool
  | .integer n => digitLimit < (Nat.toDigits 10 n.natAbs).length
  | .real _ => false

/-- The text of a number, as it names a property. -/
def name? (n : Numeral) : Option String := if n.isOverlong then none else some n.text

end Numeral

end RefFlow
