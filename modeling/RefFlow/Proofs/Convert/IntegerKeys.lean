import RefFlow.Proofs.Convert.Built
import RefFlow.Proofs.Numeral.Spelling
import RefFlow.Tree.StaticName

/-!
# Members that are named by whole numbers

A member can be named by a number, and then it is the value of the number that counts and not the
way in which it is written: `o[16]`, `o[0x1_0]` and `o[16n]` are one member.

This module follows a literal from the text of a concrete node to the name of the member whose key
it is.  `Numeral.Spells` says what the text may be, `value_of_number` what it is converted to, and
`Keyed.staticName` what name results.  As long as a number has no more than `digitLimit` decimal
digits, all its spellings name the member that has these digits as its name.  Beyond that none of
them does, and the spelling decides what happens instead (`staticName_of_spells`).
-/

namespace RefFlow.Convert

open Fallible
open Making (Makes makes_make)
open Numeral (Spells Style digitLimit)

variable {i : Input} {c : Concrete Unit} {root m key : Node} {f : Field} {v : Numeral}

/-! ## The literal -/

/-- A concrete number is converted to a literal. -/
lemma value_of_number (hc : c.symbol = "number") :
    (c.annotate (read i)).label.value = some <$> numberLiteral i c.span := by
  obtain ⟨l, symbol, named, role, span, children⟩ := c
  obtain rfl : symbol = "number" := hc
  rfl

/-- The literal has the value that is read from the text. -/
lemma makes_numberLiteral {span : Span} : Makes (numberLiteral i span) fun d =>
    d.kind = .literal ∧ ∀ v, Numeral.read? (i.source.chars span) = some v →
      d.shape.slot? .value = some (.numeral v) := by
  refine makes_make fun label => ⟨rfl, fun v hv => ?_⟩
  rw [Tree.shape_mk, hv]
  rfl

/-! ## Numbers as keys -/

/-- The nodes that name a member, and the part of them that does. -/
def keyFields : List (Kind × Field) :=
  [(.memberExpression, .property), (.property, .key), (.methodDefinition, .key),
   (.propertyDefinition, .key)]

/-- The node of a converted tree names a member, and its key is what the concrete node is converted
to, numbered in some way. -/
inductive Keyed (i : Input) (c : Concrete Unit) : Node → Prop
  | intro {tree : Concrete Unit} {root m : Node} {f : Field} {d : Draft} {made next : Nat}
      {number : Draft → Shape Node → Nat} (built : build i tree = .ok root)
      (contains : root.Contains m) (isKey : (m.kind, f) ∈ keyFields)
      (reading : (c.annotate (read i)).label.value made = .ok (some d, next))
      (key : m.child f = .ok (some (d.annotate number))) : Keyed i c m

/-- A text around a number that makes it the key of a node of the kind: `o[k]`, `({k:o})`,
`class A{k(){}}` or `class A{k}`. -/
def programWithKey (kind : Kind) (k : Span) : Concrete Unit :=
  match kind with
  | .memberExpression =>
    .node "program" none (k.start - 2) (k.stop + 1)
      [.node "expression_statement" none (k.start - 2) (k.stop + 1)
        [.node "subscript_expression" none (k.start - 2) (k.stop + 1)
          [.identifier (some "object") (k.start - 2) (k.start - 1),
           .node "number" (some "index") k.start k.stop []]]]
  | .property =>
    .node "program" none (k.start - 2) (k.stop + 4)
      [.node "expression_statement" none (k.start - 2) (k.stop + 4)
        [.node "parenthesized_expression" none (k.start - 2) (k.stop + 4)
          [.node "object" none (k.start - 1) (k.stop + 3)
            [.node "pair" none k.start (k.stop + 2)
              [.node "number" (some "key") k.start k.stop [],
               .identifier (some "value") (k.stop + 1) (k.stop + 2)]]]]]
  | .methodDefinition =>
    classWith (.node "method_definition" none k.start (k.stop + 4)
      [.node "number" (some "name") k.start k.stop [],
       .node "formal_parameters" (some "parameters") k.stop (k.stop + 2) [],
       .node "statement_block" (some "body") (k.stop + 2) (k.stop + 4) []])
  | _ =>
    classWith (.node "field_definition" none k.start k.stop
      [.node "number" (some "property") k.start k.stop []])
where
  /-- The text of a class around one member. -/
  classWith (member : Concrete Unit) : Concrete Unit :=
    .node "program" none (member.span.start - 8) (member.span.stop + 1)
      [.node "class_declaration" none (member.span.start - 8) (member.span.stop + 1)
        [.identifier (some "name") (member.span.start - 2) (member.span.start - 1),
         .node "class_body" (some "body") (member.span.start - 1) (member.span.stop + 1) [member]]]

/-- A number that is the key of a node of the draft is that of a node of the tree. -/
lemma exists_keyed_of_contains {e : Kind × Field} {tree : Concrete Unit} {draft n d : Draft}
    {made : Nat} (hc : c.symbol = "number") (he : e ∈ keyFields)
    (hdraft : Convert.draft i tree = .ok draft) (contains : draft.Contains n)
    (hkind : n.kind = e.1) (key : n.child e.2 = .ok (some d))
    (hd : numberLiteral i c.span made = .ok (d, made + 1)) :
    ∃ m, m.kind = e.1 ∧ Keyed i c m := by
  have hreading : (c.annotate (read i)).label.value made = .ok (some d, made + 1) := by
    rw [value_of_number hc]
    exact Making.map_ok_iff.2 ⟨d, hd, rfl⟩
  obtain ⟨number, hnumber⟩ : ∃ number, draft.numbered = draft.annotate number := ⟨_, rfl⟩
  have hm : (n.annotate number).kind = e.1 := by rw [Tree.kind_annotate, hkind]
  have hkey : (n.annotate number).child e.2 = .ok (some (d.annotate number)) := by
    rw [Tree.child, Tree.shape_annotate, Shape.child_map]
    exact map_ok_iff.2 ⟨some d, key, rfl⟩
  exact ⟨_, hm, .intro (map_ok_iff.2 ⟨draft, hdraft, hnumber⟩) (contains.annotate number)
    (by rwa [hm]) hreading hkey⟩

/-- The first item of a child of the first item. -/
lemma contains_below (f g h : Field) {m n a b : Draft} {ts us : List (Option Draft)}
    (hf : n.items f = .ok (some a :: ts)) (hg : a.child g = .ok (some b))
    (hh : b.items h = .ok (some m :: us)) : n.Contains m := by
  have ha : n.Contains a := Tree.contains_of_item hf List.mem_cons_self
  have hb : a.Contains b := Tree.contains_of_child hg
  exact (ha.trans hb).trans (Tree.contains_of_item hh List.mem_cons_self)

/-- A number can be the key of every kind of node that names a member. -/
lemma exists_keyed (hc : c.symbol = "number") (i : Input) :
    ∀ e ∈ keyFields, ∃ m, m.kind = e.1 ∧ Keyed i c m := by
  -- The texts are symbolic, so that their conversion is checked without reading the number.
  simp only [keyFields, List.forall_mem_cons]
  refine ⟨?_, ?_, ?_, ?_, List.forall_mem_nil _⟩
  · have hdraft : draft i (programWithKey .memberExpression c.span) = .ok _ := rfl
    exact exists_keyed_of_contains (e := (_, .property)) hc (by decide) hdraft
      ((Tree.contains_of_item (f := .body) rfl List.mem_cons_self).trans
        (Tree.contains_of_child (f := .expression) rfl)) rfl rfl rfl
  · have hdraft : draft i (programWithKey .property c.span) = .ok _ := rfl
    exact exists_keyed_of_contains (e := (_, .key)) hc (by decide) hdraft
      (contains_below .body .expression .properties rfl rfl rfl) rfl rfl rfl
  · have hdraft : draft i (programWithKey .methodDefinition c.span) = .ok _ := rfl
    exact exists_keyed_of_contains (e := (_, .key)) hc (by decide) hdraft
      (contains_below .body .body .body rfl rfl rfl) rfl rfl rfl
  · have hdraft : draft i (programWithKey .propertyDefinition c.span) = .ok _ := rfl
    exact exists_keyed_of_contains (e := (_, .key)) hc (by decide) hdraft
      (contains_below .body .body .body rfl rfl rfl) rfl rfl rfl

/-! ## The name -/

/-- A node with a key knows whether the key is computed. -/
lemma exists_computed (hm : m.shape.Conforms) (hf : (m.kind, f) ∈ keyFields)
    (hkey : m.child f = .ok (some key)) : ∃ b, m.flag .computed = .ok b := by
  have hall : ∀ e ∈ keyFields, (.computed, .datum) ∈ e.1.parts ∧ e.2 ≠ .nodes := by decide
  obtain ⟨hpart, hnodes⟩ := hall _ hf
  rcases hm.part hpart with ⟨v, hv, -⟩ | ⟨ts, hts⟩
  · rw [Tree.flag, Shape.flag, hv]
    cases v <;> exact ⟨_, rfl⟩
  · obtain ⟨v, hv, -⟩ := bind_ok_iff.1 hkey
    rw [Shape.slot, Shape.slot?, hts, List.lookup_cons, beq_false_of_ne hnodes] at hv
    cases hv

/-- A member that is named by a literal has the name that the literal spells. -/
lemma staticName_of_literal (hm : m.shape.Conforms) (hf : (m.kind, f) ∈ keyFields)
    (hkey : m.child f = .ok (some key)) (hliteral : key.kind = .literal) :
    m.staticName = key.literalName := by
  have hall : ∀ e ∈ keyFields, Node.keyField? e.1 = some e.2 := by decide
  obtain ⟨computed, hcomputed⟩ := exists_computed hm hf hkey
  rw [Node.staticName, hall _ hf]
  dsimp only
  rw [hkey, ok_bind]
  dsimp only
  rw [hcomputed, ok_bind, Node.keyName, hliteral]

lemma literalName_of_numeral (h : key.shape.slot? .value = some (.numeral v)) :
    key.literalName = v.name?.elim (.error .overlongNumber) fun name => .ok (some name) := by
  rw [Node.literalName, Shape.slot, h, ok_bind]
  dsimp only
  cases v.name? <;> rfl

/-- A number names the member that its value spells. -/
lemma Keyed.staticName (h : Keyed i c m) (hc : c.symbol = "number")
    (hread : Numeral.read? (i.source.chars c.span) = some v) :
    m.staticName = v.name?.elim (.error .overlongNumber) fun name => .ok (some name) := by
  cases h with
  | @intro _ _ _ _ d made next number built contains isKey reading key =>
    rw [value_of_number hc] at reading
    obtain ⟨_, hd, ⟨⟩⟩ := Making.map_ok_iff.1 reading
    obtain ⟨hkind, hvalue⟩ := makes_numberLiteral made _ hd
    have hliteral : (d.annotate number).kind = .literal := by rw [Tree.kind_annotate, hkind]
    rw [staticName_of_literal (conforming_build built m contains).1 isKey key hliteral]
    refine literalName_of_numeral ?_
    rw [Tree.shape_annotate, Shape.slot?_map, hvalue v hread]
    rfl

section

variable {style : Style} {n : Nat} (hm : Keyed i c m) (hc : c.symbol = "number")
include hm hc

/-- A member that is named by a whole number has the digits of the number as its name. -/
lemma Keyed.staticName_of_lt (h : Spells style (i.source.chars c.span) n)
    (hn : n < 10 ^ digitLimit) : m.staticName = .ok (some (toString n)) := by
  rw [hm.staticName hc (h.read?_of_lt hn), Numeral.name?_integer, if_pos hn]
  rfl

/-- A number with too many digits has no name if it is written with a mark. -/
lemma Keyed.staticName_of_marked (h : Spells .marked (i.source.chars c.span) n)
    (hn : 10 ^ digitLimit ≤ n) : m.staticName = .error .overlongNumber := by
  rw [hm.staticName hc h.read?_of_marked, Numeral.name?_integer, if_neg (Nat.not_lt.2 hn)]
  rfl

/-- A number with too many digits has the name of an infinite one if it is written in decimal. -/
lemma Keyed.staticName_of_decimal (h : Spells .decimal (i.source.chars c.span) n)
    (hn : 10 ^ digitLimit ≤ n) : m.staticName = .ok (some "inf") := by
  rw [hm.staticName hc (h.read?_of_decimal hn)]
  rfl

end

/-- **Whole numbers as names.**  A literal that spells a whole number `n` is converted to a literal
node.  If `n` has no more than `digitLimit` decimal digits, the value of the node is `n`, and a
member that is named by it has the digits of `n` as its name, so that any two spellings of `n` name
the same member.  If it has more, then a literal with a mark has the value `n` and no name can be
had for it, while a decimal literal is a floating-point number that is infinite and bears its
name. -/
theorem staticName_of_spells {style : Style} {n : Nat} (hc : c.symbol = "number")
    (h : Spells style (i.source.chars c.span) n) :
    ∀ made, ∃ d : Draft, (c.annotate (read i)).label.value made = .ok (some d, made + 1) ∧
      d.kind = .literal ∧
      (n < 10 ^ digitLimit →
        d.shape.slot? .value = some (.numeral (.integer n)) ∧
        (∀ m, Keyed i c m → m.staticName = .ok (some (toString n))) ∧
        ∀ (i' : Input) (c' : Concrete Unit) (style' : Style) (m m' : Node),
          c'.symbol = "number" → Spells style' (i'.source.chars c'.span) n →
          Keyed i c m → Keyed i' c' m' → m.staticName = m'.staticName) ∧
      (10 ^ digitLimit ≤ n → style = .marked →
        d.shape.slot? .value = some (.numeral (.integer n)) ∧
        ∀ m, Keyed i c m → m.staticName = .error .overlongNumber) ∧
      (10 ^ digitLimit ≤ n → style = .decimal →
        d.shape.slot? .value = some (.numeral (.real (.infinite false))) ∧
        ∀ m, Keyed i c m → m.staticName = .ok (some "inf")) := by
  intro made
  obtain ⟨d, hd⟩ : ∃ d, numberLiteral i c.span made = .ok (d, made + 1) := ⟨_, rfl⟩
  obtain ⟨hkind, hvalue⟩ := makes_numberLiteral made _ hd
  have hreading : (c.annotate (read i)).label.value made = .ok (some d, made + 1) := by
    rw [value_of_number hc]
    exact Making.map_ok_iff.2 ⟨d, hd, rfl⟩
  refine ⟨d, hreading, hkind, fun hn => ?_, ?_, ?_⟩
  · refine ⟨hvalue _ (h.read?_of_lt hn), fun m hm => hm.staticName_of_lt hc h hn, ?_⟩
    intro i' c' style' m m' hc' h' hm hm'
    rw [hm.staticName_of_lt hc h hn, hm'.staticName_of_lt hc' h' hn]
  · rintro hn rfl
    exact ⟨hvalue _ h.read?_of_marked, fun m hm => hm.staticName_of_marked hc h hn⟩
  · rintro hn rfl
    exact ⟨hvalue _ (h.read?_of_decimal hn),
      fun m hm => hm.staticName_of_decimal hc h hn⟩

/-! ### One number in two spellings -/

/-- The text `o[0xF_F];o[255n]`, in which one member is read twice. -/
def twoSpellings : Input := ⟨⟨"o[0xF_F];o[255n]".toUTF8.toList⟩, "module"⟩

lemma spells_hexadecimal : Spells .marked (twoSpellings.source.chars ⟨2, 7⟩) 255 := by
  have hchars : twoSpellings.source.chars ⟨2, 7⟩ = "0xF_F".toList := by decide +kernel
  have hdigit : Numeral.Digit 16 'F' 15 := ⟨by decide, .inr (by decide)⟩
  have hmark : ('x', 16) ∈ Numeral.marks := by decide
  rw [hchars]
  exact .inl (.marked hmark (.next (.first hdigit) 1 hdigit))

lemma spells_bigInteger : Spells .decimal (twoSpellings.source.chars ⟨11, 15⟩) 255 := by
  have hchars : twoSpellings.source.chars ⟨11, 15⟩ = "255n".toList := by decide +kernel
  have hdigit : ∀ d < 10, Numeral.Digit 10 d.digitChar d := fun d hd => ⟨hd, .inl rfl⟩
  have htwo := Numeral.Digits.first (hdigit 2 (by decide))
  have hall := (htwo.next 0 (hdigit 5 (by decide))).next 0 (hdigit 5 (by decide))
  rw [hchars]
  exact .inr ⟨"255".toList, by decide, .decimal hall (by decide)⟩

/-- Both literals of the text can be the key of every kind of node that names a member, and then
these are named `255`. -/
theorem staticName_twoSpellings :
    Spells .marked (twoSpellings.source.chars ⟨2, 7⟩) 255 ∧
    Spells .decimal (twoSpellings.source.chars ⟨11, 15⟩) 255 ∧
    ∀ span ∈ [Span.mk 2 7, ⟨11, 15⟩], ∀ e ∈ keyFields,
      ∃ m, m.kind = e.1 ∧ Keyed twoSpellings (.node "number" none span.start span.stop []) m ∧
        m.staticName = .ok (some "255") := by
  have hsmall : 255 < 10 ^ digitLimit :=
    Nat.lt_of_lt_of_le (by decide : 255 < 10 ^ 3) (Nat.pow_le_pow_right (by decide) (by decide))
  have hnamed : ∀ {style : Style} {span : Span},
      Spells style (twoSpellings.source.chars span) 255 → ∀ e ∈ keyFields,
      ∃ m, m.kind = e.1 ∧ Keyed twoSpellings (.node "number" none span.start span.stop []) m ∧
        m.staticName = .ok (some "255") := by
    intro style span hspells e he
    have hc : (Concrete.node "number" none span.start span.stop []).symbol = "number" := rfl
    obtain ⟨m, hkind, hm⟩ := exists_keyed hc twoSpellings e he
    obtain ⟨d, -, -, hname, -⟩ := staticName_of_spells hc hspells 0
    exact ⟨m, hkind, hm, (hname hsmall).2.1 m hm⟩
  refine ⟨spells_hexadecimal, spells_bigInteger, ?_⟩
  rw [List.forall_mem_cons, List.forall_mem_singleton]
  exact ⟨hnamed spells_hexadecimal, hnamed spells_bigInteger⟩

/-! ### A number with one digit too many -/

/-- The bytes of a one, some zeros and the suffix of a big integer. -/
def powerBytes (zeros : Nat) : List UInt8 := 0x31 :: (List.replicate zeros 0x30 ++ [0x6E])

/-- The bytes of the text `o[10…0n]`. -/
def powerKey (zeros : Nat) : Input := ⟨⟨0x6F :: 0x5B :: (powerBytes zeros ++ [0x5D])⟩, "module"⟩

/-- The part of the text between the brackets. -/
def powerNumber (zeros : Nat) : Concrete Unit :=
  .node "number" none 2 ((powerBytes zeros).length + 2) []

lemma decode_zeros (k : Nat) (rest : List UInt8) :
    Utf8.decode (List.replicate k 0x30 ++ rest) = List.replicate k '0' ++ Utf8.decode rest := by
  induction k with
  | zero => rfl
  | succ k ih =>
    rw [List.replicate_succ, List.cons_append, Utf8.decode_cons_of_lt (by decide), ih]
    rfl

lemma chars_powerKey (k : Nat) : (powerKey k).source.chars (powerNumber k).span =
    '1' :: List.replicate k '0' ++ ['n'] := by
  have hslice : (powerKey k).source.slice (powerNumber k).span = powerBytes k := List.take_left
  rw [Source.chars, hslice, powerBytes, Utf8.decode_cons_of_lt (by decide), decode_zeros,
    Utf8.decode_cons_of_lt (by decide), Utf8.decode_nil]
  rfl

lemma digits_power (k : Nat) : Numeral.Digits 10 ('1' :: List.replicate k '0') (10 ^ k) := by
  induction k with
  | zero => exact .first ⟨by decide, .inl (by decide)⟩
  | succ k ih =>
    have hzero : Numeral.Digit 10 '0' 0 := ⟨by decide, .inl (by decide)⟩
    have hnext := ih.next 0 hzero
    rwa [List.replicate_zero, List.append_nil, List.cons_append, ← List.replicate_succ',
      Nat.add_zero, ← Nat.pow_succ] at hnext

lemma spells_powerKey (k : Nat) :
    Spells .decimal ((powerKey k).source.chars (powerNumber k).span) (10 ^ k) :=
  .inr ⟨_, chars_powerKey k, .decimal (digits_power k) (by simp)⟩

lemma toString_ne_inf {n : Nat} (hn : 10 ^ digitLimit ≤ n) : toString n ≠ "inf" := by
  intro h
  have hlength := Numeral.digitLimit_lt_length_iff.2 (Nat.not_lt.2 hn)
  rw [Nat.toString_eq_ofList_toDigits] at h
  rw [← String.toList_ofList (l := Nat.toDigits 10 n), h] at hlength
  exact absurd hlength (by decide)

/-- With as many zeros as there may be digits, the literal still spells a power of ten, and the
member that is read from `o` is not named by its digits. -/
theorem staticName_powerKey :
    Spells .decimal ((powerKey digitLimit).source.chars (powerNumber digitLimit).span)
      (10 ^ digitLimit) ∧
    ∃ m, m.kind = .memberExpression ∧ Keyed (powerKey digitLimit) (powerNumber digitLimit) m ∧
      m.staticName = .ok (some "inf") ∧
      m.staticName ≠ .ok (some (toString (10 ^ digitLimit))) := by
  have hspells := spells_powerKey digitLimit
  obtain ⟨m, hkind, hm⟩ := exists_keyed (c := powerNumber digitLimit) rfl (powerKey digitLimit)
    (.memberExpression, .property) (by decide)
  have hname := hm.staticName_of_decimal rfl hspells (Nat.le_refl _)
  refine ⟨hspells, m, hkind, hm, hname, ?_⟩
  rw [hname]
  exact fun h => toString_ne_inf (Nat.le_refl _) (Option.some.inj (Except.ok.inj h)).symm

end RefFlow.Convert
