/-!
# Binary floating-point numbers

A `Double` is a number of the 64-bit binary format: a sign, a significand below `2 ^ 53` and a
power of two, or one of the special values. The only operation is `Double.ofDecimal`, which rounds
a decimal number to the nearest such value, a tie going to the even significand. All arithmetic is
on whole numbers, so nothing is lost on the way.
-/

namespace RefFlow

/-- A number of the 64-bit binary floating-point format. -/
inductive Double where
  /-- The number `significand * 2 ^ exponent`, with a sign that zero has too. -/
  | finite (negative : Bool) (significand : Nat) (exponent : Int)
  | infinite (negative : Bool)
  | notANumber
deriving DecidableEq, Repr

namespace Double

/-- The number of bits of a significand. -/
def precision : Nat := 53

/-- The exponent of the smallest numbers. -/
def leastExponent : Int := -1074

/-- Numbers from two to this power on are infinite. -/
def overflowBits : Int := 1024

/-- The whole number nearest to `num / den`, the even one of two that are equally near. -/
def roundDiv (num den : Nat) : Nat :=
  let quotient := num / den
  let twice := 2 * (num % den)
  if twice < den then quotient
  else if den < twice then quotient + 1
  else quotient + quotient % 2

/-- `num * 2 ^ e / den` as a fraction of whole numbers. -/
def scale (num den : Nat) (e : Int) : Nat × Nat :=
  if 0 ≤ e then (num * Nat.pow 2 e.toNat, den) else (num, den * Nat.pow 2 (-e).toNat)

/-- The exponent with which `num / den` has a significand of full length, or the least one. -/
def exponentOf (num den : Nat) : Int :=
  let guess : Int := (num.log2 : Int) - den.log2 - precision
  let (n, d) := scale num den (-(guess + precision))
  max (if d ≤ n then guess + 1 else guess) leastExponent

/-- The number nearest to the positive fraction `num / den`. -/
def ofFraction (negative : Bool) (num den : Nat) : Double :=
  let e := exponentOf num den
  let (n, d) := scale num den (-e)
  let m := roundDiv n d
  let (m, e) := if m = Nat.pow 2 precision then (Nat.pow 2 (precision - 1), e + 1) else (m, e)
  if overflowBits < e + m.log2 + 1 then .infinite negative else .finite negative m e

/-- Decimal numbers with more digits before the point than this are infinite, and those with more
zeros after it before the first digit are zero. -/
def decimalReach : Int := 400

/-- The number nearest to `digits * 10 ^ exponent`. -/
def ofDecimal (negative : Bool) (digits : Nat) (exponent : Int) : Double :=
  if digits = 0 then .finite negative 0 0
  else
    let point : Int := (Nat.toDigits 10 digits).length + exponent
    if decimalReach < point then .infinite negative
    else if point < -decimalReach then .finite negative 0 0
    else if 0 ≤ exponent then ofFraction negative (digits * Nat.pow 10 exponent.toNat) 1
    else ofFraction negative digits (Nat.pow 10 (-exponent).toNat)

end Double

end RefFlow
