import RefFlow.Text.Utf8

/-!
# Source text and places in it

A program is read from bytes, and every place in it is a byte offset. This module holds the
byte string (`Source`), the half-open ranges of offsets that nodes cover (`Span`), and the line
and column of an offset (`Position`).

Lines end at line feeds only. A span may reach past the end of the bytes, as spans of damaged
trees do: the text it covers is then cut off at the end.
-/

namespace RefFlow

/-- The offsets from `start` up to, and without, `stop`. -/
structure Span where
  start : Nat
  stop : Nat
deriving DecidableEq, Repr, Inhabited

/-- The offset lies in the span. -/
def Span.Contains (s : Span) (offset : Nat) : Prop := s.start ≤ offset ∧ offset < s.stop

instance (s : Span) (offset : Nat) : Decidable (s.Contains offset) :=
  inferInstanceAs (Decidable (_ ∧ _))

/-- One span lies inside another. -/
def Span.Within (s outer : Span) : Prop := outer.start ≤ s.start ∧ s.stop ≤ outer.stop

instance (s outer : Span) : Decidable (s.Within outer) := inferInstanceAs (Decidable (_ ∧ _))

theorem Span.Within.refl (s : Span) : s.Within s := ⟨Nat.le_refl _, Nat.le_refl _⟩

theorem Span.Within.trans {a b c : Span} (h : a.Within b) (h' : b.Within c) : a.Within c :=
  ⟨Nat.le_trans h'.1 h.1, Nat.le_trans h.2 h'.2⟩

/-- A line, counted from one, and a column, counted in bytes from zero. -/
structure Position where
  line : Nat
  column : Nat
deriving DecidableEq, Repr, Inhabited

/-- The bytes of a program. -/
structure Source where
  bytes : List UInt8
deriving DecidableEq, Repr, Inhabited

namespace Source

/-- The byte that ends a line. -/
def lineFeed : UInt8 := 0x0A

/-- The number of bytes. -/
def size (s : Source) : Nat := s.bytes.length

/-- The bytes of a span, as far as the source has them. -/
def slice (s : Source) (r : Span) : List UInt8 := (s.bytes.take r.stop).drop r.start

/-- The characters that a span covers. -/
def chars (s : Source) (r : Span) : List Char := Utf8.decode (s.slice r)

/-- The text that a span covers. -/
def text (s : Source) (r : Span) : String := String.ofList (s.chars r)

/-- The line and column of an offset: one line for each line feed before it, and the distance
from the last of them. -/
def position (s : Source) (offset : Nat) : Position :=
  let before := s.bytes.take offset
  let sinceLine := (before.reverse.takeWhile (· != lineFeed)).length
  { line := before.count lineFeed + 1
    column := offset - (before.length - sinceLine) }

end Source

end RefFlow
