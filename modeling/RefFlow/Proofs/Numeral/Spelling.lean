import Mathlib.Algebra.Group.Nat.Defs
import Mathlib.Data.List.TakeWhile
import Mathlib.Tactic.Common
import RefFlow.Numeral.Literal

/-!
# Spellings of whole numbers

A whole number can be written in many ways: in four bases, with the mark of the base and the digits
in either case, with separators between the digits, and with the suffix of big integers.  `Spells`
is the grammar of these literals, together with the number that each of them stands for.  It says
nothing about how they are read.

Reading takes off separators and suffix first, and what is left is the digits alone
(`Spells.exists_body`).  A literal with a mark is then read as the number it stands for, however
large it is.  Decimal digits without a leading zero are those of the number
(`Digits.eq_toDigits`), and this is where the limit comes in: from `10 ^ digitLimit` on there are
too many of them, and they are read as the floating-point number that is out of reach
(`Spells.read?_of_decimal`).
-/

namespace RefFlow.Numeral

variable {base n d : Nat} {c : Char} {cs : List Char}

/-! ## The grammar -/

/-- The character is a digit of the base, in either case, and has this value. -/
def Digit (base : Nat) (c : Char) (d : Nat) : Prop :=
  d < base ∧ (c = d.digitChar ∨ c = d.digitChar.toUpper)

/-- Digits of a base with separators between them, and the number that they stand for. -/
inductive Digits (base : Nat) : List Char → Nat → Prop
  | first {c : Char} {d : Nat} (digit : Digit base c d) : Digits base [c] d
  | next {cs : List Char} {n : Nat} {c : Char} {d : Nat} (digits : Digits base cs n)
      (separators : Nat) (digit : Digit base c d) :
      Digits base (cs ++ List.replicate separators '_' ++ [c]) (n * base + d)

/-- The letters that mark a base. -/
def marks : List (Char × Nat) := [('x', 16), ('X', 16), ('o', 8), ('O', 8), ('b', 2), ('B', 2)]

/-- The two ways to write a whole number. -/
inductive Style where
  /-- In base ten. -/
  | decimal
  /-- In the base that a mark says. -/
  | marked
deriving DecidableEq

/-- The text is a literal of a whole number without a suffix. -/
inductive Body : Style → List Char → Nat → Prop
  /-- Only zero itself starts with a zero. -/
  | decimal {cs : List Char} {n : Nat} (digits : Digits 10 cs n)
      (unpadded : cs.head? = some '0' → cs = ['0']) : Body .decimal cs n
  | marked {mark : Char} {base : Nat} {cs : List Char} {n : Nat} (isMark : (mark, base) ∈ marks)
      (digits : Digits base cs n) : Body .marked ('0' :: mark :: cs) n

/-- The text is a literal of the whole number, possibly of a big integer. -/
def Spells (style : Style) (cs : List Char) (n : Nat) : Prop :=
  Body style cs n ∨ ∃ body, cs = body ++ ['n'] ∧ Body style body n

/-! ## Characters of a literal -/

/-- The character is left alone when a literal is read. -/
def IsInert (c : Char) : Bool :=
  c.toNat < 127 && c != '_' && c != 'n' && c != '+' && c != '-' && !isPlainBlank c

/-- What can be said of all digits up to sixteen, in either case. -/
lemma Digit.of_forall {P : Char → Nat → Prop}
    (hall : ∀ d : Fin 16, P d.val.digitChar d.val ∧ P d.val.digitChar.toUpper d.val)
    (h : Digit base c d) (hbase : base ≤ 16) : P c d := by
  obtain ⟨hd, hc⟩ := h
  obtain ⟨hlower, hupper⟩ := hall ⟨d, by omega⟩
  rcases hc with rfl | rfl
  · exact hlower
  · exact hupper

lemma Digit.digit? (h : Digit base c d) (hbase : base ≤ 16) : digit? c = some d :=
  h.of_forall (P := fun c d => Numeral.digit? c = some d) (by decide) hbase

lemma Digit.isInert (h : Digit base c d) (hbase : base ≤ 16) : IsInert c = true :=
  h.of_forall (P := fun c _ => IsInert c = true) (by decide) hbase

lemma ne_separator_of_isInert (h : IsInert c = true) : (c != '_') = true := by
  simp only [IsInert, Bool.and_eq_true] at h
  exact h.1.1.1.1.2

/-- The text without separators. -/
def joined (cs : List Char) : List Char := cs.filter (· != '_')

lemma joined_append (cs ds : List Char) : joined (cs ++ ds) = joined cs ++ joined ds :=
  List.filter_append ..

lemma joined_cons (h : IsInert c = true) (cs : List Char) : joined (c :: cs) = c :: joined cs :=
  List.filter_cons_of_pos (ne_separator_of_isInert h)

@[simp] lemma joined_replicate (k : Nat) : joined (List.replicate k '_') = [] := by
  rw [joined, List.filter_eq_nil_iff]
  intro c hc
  rw [List.eq_of_mem_replicate hc]
  decide

lemma Digits.joined_next (digit : Digit base c d) (hbase : base ≤ 16) (cs : List Char) (k : Nat) :
    joined (cs ++ List.replicate k '_' ++ [c]) = joined cs ++ [c] := by
  rw [joined_append, joined_append, joined_replicate, List.append_nil,
    joined_cons (digit.isInert hbase)]
  rfl

/-- What holds of every digit holds of all that is left without the separators. -/
lemma Digits.forall_joined {P : Char → Prop} (hP : ∀ c d, Digit base c d → P c)
    (h : Digits base cs n) (hbase : base ≤ 16) : ∀ c ∈ joined cs, P c := by
  induction h with
  | first digit =>
    rw [joined_cons (digit.isInert hbase)]
    exact List.forall_mem_singleton.2 (hP _ _ digit)
  | next _ separators digit ih =>
    rw [joined_next digit hbase, List.forall_mem_append]
    exact ⟨ih, List.forall_mem_singleton.2 (hP _ _ digit)⟩

lemma Digits.isInert (h : Digits base cs n) (hbase : base ≤ 16) :
    ∀ c ∈ joined cs, IsInert c = true :=
  h.forall_joined (fun _ _ digit => digit.isInert hbase) hbase

lemma Body.isInert {style : Style} (h : Body style cs n) : ∀ c ∈ joined cs, IsInert c = true := by
  cases h with
  | decimal digits => exact digits.isInert (by omega)
  | @marked mark base cs _ isMark digits =>
    have hall : ∀ m ∈ marks, m.2 ≤ 16 ∧ IsInert m.1 = true := by decide
    obtain ⟨hbase, hmark⟩ := hall _ isMark
    rw [joined_cons (by decide), joined_cons hmark, List.forall_mem_cons, List.forall_mem_cons]
    exact ⟨by decide, hmark, digits.isInert hbase⟩

/-! ## Taking off the suffix -/

/-- What is left of a literal without separators and suffix are the characters of its body. -/
lemma Spells.exists_body {style : Style} (h : Spells style cs n) :
    ∃ body, Body style body n ∧ stripped cs = joined body := by
  have hsuffix : ∀ body, Body style body n →
      (joined body).reverse.dropWhile (· == 'n') = (joined body).reverse := by
    intro body hbody
    refine List.dropWhile_eq_self_iff.2 fun hlength => ?_
    have hinert := hbody.isInert _ (List.mem_reverse.1 (List.getElem_mem hlength))
    simp only [IsInert, Bool.and_eq_true] at hinert
    simpa using hinert.1.1.1.2
  rcases h with hbody | ⟨body, rfl, hbody⟩
  · refine ⟨cs, hbody, ?_⟩
    show ((joined cs).reverse.dropWhile (· == 'n')).reverse = joined cs
    rw [hsuffix cs hbody, List.reverse_reverse]
  · refine ⟨body, hbody, ?_⟩
    show ((joined (body ++ ['n'])).reverse.dropWhile (· == 'n')).reverse = joined body
    have hconcat : (joined (body ++ ['n'])).reverse = 'n' :: (joined body).reverse := by
      rw [joined_append, List.reverse_append]
      rfl
    rw [hconcat, List.dropWhile_cons_of_pos (by decide), hsuffix body hbody, List.reverse_reverse]

/-! ## Reading inert characters -/

section

variable {ds : List Char} (hinert : ∀ c ∈ ds, IsInert c = true)
include hinert

/-- Characters that are inert are neither rewritten nor trimmed. -/
lemma trimBy_of_isInert : Text.trimBy isPlainBlank (ds.map Text.plainChar) = ds := by
  have hplain : ds.map Text.plainChar = ds := by
    refine (List.map_congr_left fun c hc => ?_).trans (List.map_id ds)
    have hc := hinert c hc
    simp only [IsInert, Bool.and_eq_true, decide_eq_true_eq] at hc
    exact Text.plainChar_of_lt hc.1.1.1.1.1
  have hblank : ∀ c ∈ ds, ¬isPlainBlank c = true := by
    intro c hc
    have hc := hinert c hc
    simp only [IsInert, Bool.and_eq_true] at hc
    simpa using hc.2
  have hstart : ds.dropWhile isPlainBlank = ds :=
    List.dropWhile_eq_self_iff.2 fun hlength => hblank _ (List.getElem_mem hlength)
  have hend : ds.reverse.dropWhile isPlainBlank = ds.reverse :=
    List.dropWhile_eq_self_iff.2 fun hlength =>
      hblank _ (List.mem_reverse.1 (List.getElem_mem hlength))
  rw [hplain, Text.trimBy, hstart, hend, List.reverse_reverse]

lemma signed?_of_isInert {α : Type} (read : List Char → Option α) :
    signed? read ds = (read ds).map (false, ·) := by
  unfold signed?
  split
  · exact absurd (hinert '-' List.mem_cons_self) (by decide)
  · exact absurd (hinert '+' List.mem_cons_self) (by decide)
  · rfl

variable (hstripped : stripped cs = ds)
include hstripped

lemma read?_of_magnitude? (h : magnitude? ds = some n) : read? cs = some (.integer n) := by
  have hinteger : integer? ds = some (n : Int) := by
    rw [integer?, signed?_of_isInert hinert, h]
    rfl
  rw [read?, hstripped, trimBy_of_isInert hinert, hinteger]

lemma read?_of_unsignedReal? (h : magnitude? ds = none) {x : Bool → Double}
    (hx : unsignedReal? ds = some x) : read? cs = some (.real (x false)) := by
  have hinteger : integer? ds = none := by
    rw [integer?, signed?_of_isInert hinert, h]
    rfl
  have hreal : real? ds = some (x false) := by
    rw [real?, signed?_of_isInert hinert, hx]
    rfl
  rw [read?, hstripped, trimBy_of_isInert hinert, hinteger, hreal]
  rfl

end

/-! ## Reading digits -/

lemma digits?_concat (base acc : Nat) (cs : List Char) (c : Char) :
    digits? base acc (cs ++ [c]) = (digits? base acc cs).bind fun n => digits? base n [c] := by
  induction cs generalizing acc with
  | nil => rfl
  | cons b cs ih =>
    rw [List.cons_append, digits?, digits?]
    split
    · split
      · exact ih _
      · rfl
    · rfl

lemma Digit.digits? (h : Digit base c d) (hbase : base ≤ 16) (n : Nat) :
    digits? base n [c] = some (n * base + d) := by
  rw [Numeral.digits?, h.digit? hbase]
  dsimp only
  rw [if_pos h.1, Numeral.digits?]

/-- Digits are read as the number that they stand for. -/
lemma Digits.digits? (h : Digits base cs n) (hbase : base ≤ 16) :
    digits? base 0 (joined cs) = some n := by
  induction h with
  | first digit =>
    rw [joined_cons (digit.isInert hbase)]
    simpa [joined] using digit.digits? hbase 0
  | next _ separators digit ih =>
    rw [joined_next digit hbase, digits?_concat, ih]
    exact digit.digits? hbase _

lemma Digits.exists_cons (h : Digits base cs n) : ∃ c d rest, cs = c :: rest ∧ Digit base c d := by
  induction h with
  | @first c d digit => exact ⟨c, d, [], rfl, digit⟩
  | @next _ _ c _ _ separators _ ih =>
    obtain ⟨c', d', rest, rfl, digit⟩ := ih
    exact ⟨c', d', rest ++ List.replicate separators '_' ++ [c], rfl, digit⟩

lemma Digits.natural? (h : Digits base cs n) (hbase : base ≤ 16) :
    natural? base (joined cs) = some n := by
  have hread := h.digits? hbase
  obtain ⟨c, d, rest, rfl, digit⟩ := h.exists_cons
  rw [joined_cons (digit.isInert hbase)] at hread ⊢
  exact hread

/-- A literal with a mark is read as the number that it stands for, however large it is. -/
lemma Body.magnitude?_of_marked (h : Body .marked cs n) : magnitude? (joined cs) = some n := by
  cases h with
  | @marked mark base cs _ isMark digits =>
    have hall : ∀ m ∈ marks, m.2 ≤ 16 ∧ IsInert m.1 = true ∧ baseMark? m.1 = some m.2 := by decide
    obtain ⟨hbase, hmark, hread⟩ := hall _ isMark
    rw [joined_cons (by decide), joined_cons hmark, magnitude?, hread]
    exact digits.natural? hbase

/-! ## Decimal digits -/

/-- The digits of base ten have no case. -/
lemma Digit.eq_digitChar (h : Digit 10 c d) : c = d.digitChar := by
  have hall : ∀ d : Fin 10, d.val.digitChar.toUpper = d.val.digitChar := by decide
  rcases h with ⟨hd, rfl | rfl⟩
  · rfl
  · exact hall ⟨d, hd⟩

/-- Decimal digits that do not start with a zero are those of the number. -/
lemma Digits.eq_toDigits (h : Digits 10 cs n) (hhead : cs.head? ≠ some '0') :
    joined cs = Nat.toDigits 10 n ∧ 0 < n := by
  induction h with
  | @first c d digit =>
    rw [joined_cons (digit.isInert (by omega)), Nat.toDigits_of_lt_base digit.1,
      ← digit.eq_digitChar]
    refine ⟨rfl, Nat.pos_of_ne_zero ?_⟩
    rintro rfl
    exact hhead (congrArg some digit.eq_digitChar)
  | @next cs n c d digits separators digit ih =>
    have hfirst : (cs ++ List.replicate separators '_' ++ [c]).head? = cs.head? := by
      obtain ⟨c', _, rest, rfl, -⟩ := digits.exists_cons
      rfl
    obtain ⟨hjoined, hpos⟩ := ih (hfirst ▸ hhead)
    rw [joined_next digit (by omega), hjoined, digit.eq_digitChar,
      ← Nat.toDigits_of_lt_base digit.1, Nat.toDigits_append_toDigits (by omega) hpos digit.1,
      Nat.mul_comm]
    exact ⟨rfl, by omega⟩

lemma digitLimit_lt_length_iff :
    digitLimit < (Nat.toDigits 10 n).length ↔ ¬n < 10 ^ digitLimit := by
  rw [← Nat.length_toDigits_le_iff (by omega) (by decide), Nat.not_le]

lemma magnitude?_of_ne_zero (hc : c ≠ '0') (cs : List Char) : magnitude? (c :: cs) =
    if digitLimit < (c :: cs).length then none else natural? 10 (c :: cs) := by
  have hhead : ∀ ds, c :: cs = '0' :: ds → False := fun _ h => hc (List.cons.inj h).1
  rw [magnitude?, decimalNatural?]
  · exact hhead
  · exact fun c cs => hhead (c :: cs)

/-- A decimal literal is read as the number that it stands for, unless it has too many digits. -/
lemma Body.magnitude?_of_decimal (h : Body .decimal cs n) :
    magnitude? (joined cs) = if n < 10 ^ digitLimit then some n else none := by
  cases h with
  | decimal digits unpadded =>
    by_cases hhead : cs.head? = some '0'
    · obtain rfl := unpadded hhead
      obtain rfl : 0 = n := Option.some.inj (digits.digits? (by omega))
      rw [if_pos (Nat.pow_pos (by omega))]
      rfl
    · obtain ⟨hjoined, -⟩ := digits.eq_toDigits hhead
      have hlength : digitLimit < (joined cs).length ↔ ¬n < 10 ^ digitLimit := by
        rw [hjoined, digitLimit_lt_length_iff]
      have hread := digits.natural? (by omega)
      obtain ⟨c, d, rest, rfl, digit⟩ := digits.exists_cons
      have hc : c ≠ '0' := fun hc => hhead (congrArg some hc)
      rw [joined_cons (digit.isInert (by omega))] at hread hlength ⊢
      rw [magnitude?_of_ne_zero hc, hread]
      by_cases hn : n < 10 ^ digitLimit
      · rw [if_pos hn, if_neg (mt hlength.1 (not_not.2 hn))]
      · rw [if_neg hn, if_pos (hlength.2 hn)]

/-! ## Numbers with too many digits -/

/-- Digits are a decimal number without a fraction. -/
lemma decimal?_of_isDecimal (hall : ∀ c ∈ cs, isDecimal c = true) (h : natural? 10 cs = some n) :
    decimal? cs = some ⟨n, 0⟩ := by
  have htake : cs.takeWhile isDecimal = cs := List.takeWhile_eq_self_iff.2 hall
  have hdrop : cs.dropWhile isDecimal = [] := List.dropWhile_eq_nil_iff.2 hall
  have hfraction : fraction [] = ([], []) := rfl
  rw [decimal?, htake, hdrop, hfraction]
  dsimp only
  rw [List.append_nil, h, exponent?]
  rfl

/-- A number with too many digits is out of the reach of floating point. -/
lemma ofDecimal_of_le (hn : 10 ^ digitLimit ≤ n) (negative : Bool) :
    Double.ofDecimal negative n 0 = .infinite negative := by
  have hlength := digitLimit_lt_length_iff.2 (Nat.not_lt.2 hn)
  have hpos : n ≠ 0 := by
    rintro rfl
    exact absurd hn (Nat.not_le.2 (Nat.pow_pos (by omega)))
  have hreach : Double.decimalReach < (Nat.toDigits 10 n).length + 0 := by
    rw [digitLimit] at hlength
    rw [Double.decimalReach]
    omega
  rw [Double.ofDecimal, if_neg hpos]
  dsimp only
  rw [if_pos hreach]

/-- Digits do not spell a word. -/
lemma ofList_ne_word {word : String} {letter : Char} (h : ∀ c ∈ cs, c.toLower ≠ letter)
    (hletter : letter ∈ word.toList) : String.ofList (cs.map Char.toLower) ≠ word := by
  rintro rfl
  rw [String.toList_ofList] at hletter
  obtain ⟨c, hc, hlower⟩ := List.mem_map.1 hletter
  exact h c hc hlower

lemma Body.unsignedReal?_of_decimal (h : Body .decimal cs n) (hn : 10 ^ digitLimit ≤ n) :
    unsignedReal? (joined cs) = some .infinite := by
  cases h with
  | decimal digits =>
    have hchars : ∀ c ∈ joined cs, isDecimal c = true ∧ c.toLower ≠ 'i' ∧ c.toLower ≠ 'a' := by
      refine digits.forall_joined (fun c d digit => ?_) (by omega)
      have hall : ∀ d : Fin 10, isDecimal d.val.digitChar = true ∧
          d.val.digitChar.toLower ≠ 'i' ∧ d.val.digitChar.toLower ≠ 'a' := by decide
      rw [digit.eq_digitChar]
      exact hall ⟨d, digit.1⟩
    have hword : ∀ c ∈ joined cs, c.toLower ≠ 'i' := fun c hc => (hchars c hc).2.1
    have hnan : ∀ c ∈ joined cs, c.toLower ≠ 'a' := fun c hc => (hchars c hc).2.2
    have hread := decimal?_of_isDecimal (fun c hc => (hchars c hc).1) (digits.natural? (by omega))
    have hinf : ¬(String.ofList ((joined cs).map Char.toLower) = "inf" ∨
        String.ofList ((joined cs).map Char.toLower) = "infinity") :=
      not_or.2 ⟨ofList_ne_word hword (by decide), ofList_ne_word hword (by decide)⟩
    rw [unsignedReal?, if_neg hinf, if_neg (ofList_ne_word hnan (by decide)), hread]
    exact congrArg some (funext (ofDecimal_of_le hn))

/-! ## Literals and names -/

section

variable {style : Style}

/-- A literal with a mark has the value that it stands for. -/
lemma Spells.read?_of_marked (h : Spells .marked cs n) : read? cs = some (.integer n) := by
  obtain ⟨body, hbody, hstripped⟩ := h.exists_body
  exact read?_of_magnitude? hbody.isInert hstripped hbody.magnitude?_of_marked

/-- A literal has the value that it stands for, as long as this has not too many digits. -/
lemma Spells.read?_of_lt (h : Spells style cs n) (hn : n < 10 ^ digitLimit) :
    read? cs = some (.integer n) := by
  cases style with
  | marked => exact h.read?_of_marked
  | decimal =>
    obtain ⟨body, hbody, hstripped⟩ := h.exists_body
    refine read?_of_magnitude? hbody.isInert hstripped ?_
    rw [hbody.magnitude?_of_decimal, if_pos hn]

/-- A decimal literal with too many digits is an infinite number. -/
lemma Spells.read?_of_decimal (h : Spells .decimal cs n) (hn : 10 ^ digitLimit ≤ n) :
    read? cs = some (.real (.infinite false)) := by
  obtain ⟨body, hbody, hstripped⟩ := h.exists_body
  refine read?_of_unsignedReal? hbody.isInert hstripped ?_ (hbody.unsignedReal?_of_decimal hn)
  rw [hbody.magnitude?_of_decimal, if_neg (Nat.not_lt.2 hn)]

end

/-- A whole number is written with its decimal digits, as far as they are not too many. -/
lemma name?_integer (n : Nat) : name? (.integer n) =
    if n < 10 ^ digitLimit then some (toString n) else none := by
  have hoverlong : isOverlong (.integer n) = true ↔ ¬n < 10 ^ digitLimit := by
    rw [isOverlong, decide_eq_true_iff, Int.natAbs_natCast, digitLimit_lt_length_iff]
  rw [name?]
  by_cases hn : n < 10 ^ digitLimit
  · rw [if_pos hn, if_neg (mt hoverlong.1 (not_not.2 hn))]
    rfl
  · rw [if_neg hn, if_pos (hoverlong.2 hn)]

end RefFlow.Numeral
