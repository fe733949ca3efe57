import RefFlow.Numeral.Double

/-!
# The shortest decimal text of a floating-point number

A floating-point number is written with the fewest decimal digits that read back as the same
number; of the candidates with that many digits the nearest is taken. `Double.shortest` finds the
digits by looking, for one digit, two digits and so on, at the two neighbours of the number on that
decimal grid. `Double.text` lays them out: positionally while the decimal exponent is at least -4
and below 16, with an exponent of at least two digits otherwise, and always with a point or an
exponent, so that the text is not taken for a whole number.
-/

namespace RefFlow.Double

/-- A decimal number `digits * 10 ^ exponent`. -/
structure Decimal where
  digits : Nat
  exponent : Int
deriving DecidableEq, Repr

/-- Compares `a * 10 ^ p` with the fraction `num / den`. -/
def compareDecimal (a : Nat) (p : Int) (num den : Nat) : Ordering :=
  if 0 ≤ p then compare (a * Nat.pow 10 p.toNat * den) num
  else compare (a * den) (num * Nat.pow 10 (-p).toNat)

/-- The numbers that round to one floating-point number, as fractions over one denominator: the
number itself, the ends on both sides, and whether the ends belong to it. -/
structure Interval where
  value : Nat
  low : Nat
  high : Nat
  den : Nat
  closed : Bool

/-- The numbers that round to `m * 2 ^ e`. The gap below a power of two is half as wide as the gap
above it; the ends belong to the even neighbour. -/
def interval (m : Nat) (e : Int) : Interval :=
  let below := if m = Nat.pow 2 (precision - 1) ∧ leastExponent < e then 1 else 2
  let (unit, den) := scale 1 1 (e - 2)
  { value := 4 * m * unit
    low := (4 * m - below) * unit
    high := (4 * m + 2) * unit
    den := den
    closed := m % 2 == 0 }

/-- The decimal `a * 10 ^ p` lies in the interval. -/
def Interval.holds (i : Interval) (a : Nat) (p : Int) : Bool :=
  (match compareDecimal a p i.low i.den with
    | .gt => true
    | .eq => i.closed
    | .lt => false) &&
  (match compareDecimal a p i.high i.den with
    | .lt => true
    | .eq => i.closed
    | .gt => false)

/-- The number of digits that the value has before the point; zero or less for a value below
one tenth. -/
def Interval.point (i : Interval) : Int :=
  let bits : Int := (i.value.log2 : Int) - i.den.log2
  let guess := bits * 30103 / 100000
  let candidates := [guess - 1, guess, guess + 1, guess + 2]
  (candidates.find? fun k => compareDecimal 1 k i.value i.den == .gt).getD (guess + 3)

/-- The multiple of `10 ^ p` in the interval that is nearest to the value, if there is one. -/
def Interval.nearest? (i : Interval) (p : Int) : Option Decimal :=
  let (num, den) :=
    if 0 ≤ p then (i.value, i.den * Nat.pow 10 p.toNat)
    else (i.value * Nat.pow 10 (-p).toNat, i.den)
  let a := num / den
  let twice := 2 * (num % den)
  let preferLow := twice < den || (twice == den && a % 2 == 0)
  match i.holds a p, i.holds (a + 1) p with
  | true, true => some ⟨if preferLow then a else a + 1, p⟩
  | true, false => some ⟨a, p⟩
  | false, true => some ⟨a + 1, p⟩
  | false, false => none

/-- As many digits as any number needs. -/
def mostDigits : Nat := 17

/-- The shortest decimal that reads back as the positive number `m * 2 ^ e`. -/
def shortest (m : Nat) (e : Int) : Decimal :=
  let i := interval m e
  let point := i.point
  ((List.range mostDigits).findSome? fun (n : Nat) => i.nearest? (point - (n + 1))).getD ⟨m, e⟩

/-- The digits of a whole number. -/
def digitChars (n : Nat) : List Char := Nat.toDigits 10 n

/-- Exponents are written with at least two digits. -/
def exponentChars (n : Nat) : List Char :=
  if n < 10 then '0' :: digitChars n else digitChars n

/-- The least decimal exponent that is written positionally. -/
def leastPositional : Int := -4

/-- The least decimal exponent, above the positional ones, that is written out. -/
def leastScientific : Int := 16

/-- Lays out digits with the point after the first `point` of them. -/
def layout (digits : List Char) (point : Int) : List Char :=
  if leastPositional ≤ point - 1 ∧ point - 1 < leastScientific then
    if point ≤ 0 then '0' :: '.' :: List.replicate (-point).toNat '0' ++ digits
    else
      let whole := digits.take point.toNat
      let zeros := List.replicate (point.toNat - digits.length) '0'
      let rest := digits.drop point.toNat
      whole ++ zeros ++ '.' :: (if rest.isEmpty then ['0'] else rest)
  else
    let mantissa := match digits with
      | [] => []
      | [d] => [d]
      | d :: rest => d :: '.' :: rest
    let exponent := point - 1
    mantissa ++ 'e' :: (if exponent < 0 then '-' else '+') :: exponentChars exponent.natAbs

/-- The characters of a positive number's text. -/
def positiveChars (m : Nat) (e : Int) : List Char :=
  let d := shortest m e
  let all := digitChars d.digits
  let significant := (all.reverse.dropWhile (· == '0')).reverse
  layout significant (all.length + d.exponent)

/-- The text of a floating-point number. -/
def text : Double → String
  | .notANumber => "nan"
  | .infinite negative => if negative then "-inf" else "inf"
  | .finite negative m e =>
    let magnitude := if m = 0 then ['0', '.', '0'] else positiveChars m e
    String.ofList (if negative then '-' :: magnitude else magnitude)

end RefFlow.Double
