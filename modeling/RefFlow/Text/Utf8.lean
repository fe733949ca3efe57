/-!
# Decoding UTF-8

Source text arrives as bytes that need not be well formed. `Utf8.decode` reads every byte
string: a well-formed sequence gives its character, and where a sequence breaks off the longest
part that some character could still start with gives one replacement character, after which
reading goes on at the byte that did not fit.

The work is done one character at a time by `Utf8.head`, which says what the character is and
how many bytes after the first it used; `decode` repeats that until the bytes are gone.
-/

namespace RefFlow.Utf8

/-- The character that stands for bytes that are no character. -/
def replacement : Char := Char.ofNat 0xFFFD

/-- A byte that continues a sequence. -/
def isTail (b : UInt8) : Bool := 0x80 ≤ b && b ≤ 0xBF

/-- The bits that a continuation byte adds to the code point read so far. -/
def addTail (code : Nat) (b : UInt8) : Nat := code * 64 + b.toNat % 64

/-- The second bytes that may follow the first byte `b` of a longer sequence. The narrow ranges
rule out overlong forms, surrogates and code points past the last one. -/
def second (b c : UInt8) : Bool :=
  if b == 0xE0 then 0xA0 ≤ c && c ≤ 0xBF
  else if b == 0xED then 0x80 ≤ c && c ≤ 0x9F
  else if b == 0xF0 then 0x90 ≤ c && c ≤ 0xBF
  else if b == 0xF4 then 0x80 ≤ c && c ≤ 0x8F
  else isTail c

/-- A sequence of two bytes, after its first. -/
def pair (b : UInt8) : List UInt8 → Char × Nat
  | c :: _ => if isTail c then (Char.ofNat (addTail (b.toNat % 32) c), 1) else (replacement, 0)
  | [] => (replacement, 0)

/-- A sequence of three bytes, after its first. -/
def triple (b : UInt8) : List UInt8 → Char × Nat
  | c :: d :: _ =>
    if second b c then
      if isTail d then (Char.ofNat (addTail (addTail (b.toNat % 16) c) d), 2) else (replacement, 1)
    else (replacement, 0)
  | [c] => (replacement, if second b c then 1 else 0)
  | [] => (replacement, 0)

/-- A sequence of four bytes, after its first. -/
def quadruple (b : UInt8) : List UInt8 → Char × Nat
  | c :: d :: e :: _ =>
    if second b c then
      if isTail d then
        if isTail e then
          (Char.ofNat (addTail (addTail (addTail (b.toNat % 8) c) d) e), 3)
        else (replacement, 2)
      else (replacement, 1)
    else (replacement, 0)
  | [c, d] => (replacement, if second b c then (if isTail d then 2 else 1) else 0)
  | [c] => (replacement, if second b c then 1 else 0)
  | [] => (replacement, 0)

/-- The character that starts at byte `b`, and the number of bytes it takes after `b`. -/
def head (b : UInt8) (rest : List UInt8) : Char × Nat :=
  if b < 0x80 then (Char.ofNat b.toNat, 0)
  else if 0xC2 ≤ b && b ≤ 0xDF then pair b rest
  else if 0xE0 ≤ b && b ≤ 0xEF then triple b rest
  else if 0xF0 ≤ b && b ≤ 0xF4 then quadruple b rest
  else (replacement, 0)

/-- The text of a byte string. -/
def decode : List UInt8 → List Char
  | [] => []
  | b :: rest => (head b rest).1 :: decode (rest.drop (head b rest).2)
termination_by bytes => bytes.length
decreasing_by simp only [List.length_cons, List.length_drop]; omega

/-- The bytes of a text. -/
def encode (text : String) : List UInt8 := text.toUTF8.toList

@[simp] theorem decode_nil : decode [] = [] := by simp [decode]

theorem decode_cons (b : UInt8) (rest : List UInt8) :
    decode (b :: rest) = (head b rest).1 :: decode (rest.drop (head b rest).2) := by
  rw [decode]

/-- An ASCII byte is its own character, whatever follows it. -/
theorem decode_cons_of_lt {b : UInt8} (h : b < 0x80) (rest : List UInt8) :
    decode (b :: rest) = Char.ofNat b.toNat :: decode rest := by
  simp [decode_cons, head, h]

end RefFlow.Utf8
