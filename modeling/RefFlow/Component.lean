import RefFlow.Source

/-!
# Components with embedded scripts

A component file holds markup with scripts in it. It is analysed as if it consisted of its scripts
alone: everything else is *masked* by spaces, line feeds excepted, so that every script stays at its
offset, line and column.

A script runs from an opening tag to the first closing tag after it. The opening tag ends at the
first closing angle bracket, and letter case does not matter in the tag's name. `Component.parts`
cuts a file into scripts and single bytes of markup.
-/

namespace RefFlow.Component

/-! ## Bytes -/

/-- The bytes of an ASCII text. -/
def ascii (s : String) : List UInt8 := s.toList.map fun c => c.toNat.toUInt8

/-- A byte with an upper-case letter made lower-case. -/
def lower (b : UInt8) : UInt8 := if 65 ≤ b ∧ b ≤ 90 then b + 32 else b

/-- A letter, a digit or an underscore. -/
def isWord (b : UInt8) : Bool :=
  (65 ≤ b && b ≤ 90) || (97 ≤ b && b ≤ 122) || (48 ≤ b && b ≤ 57) || b == 95

/-- A blank: a space, or a control character that moves on. -/
def isBlank (b : UInt8) : Bool := b == 32 || (9 ≤ b && b ≤ 13)

/-- A byte that ends a tag. -/
def tagEnd : UInt8 := 62

/-- The byte that hides another one. -/
def maskByte (b : UInt8) : UInt8 := if b == Source.lineFeed then b else 32

/-- Cuts a word off the front, in any letter case: the word as it is written, and the rest. -/
def word? : List UInt8 → List UInt8 → Option (List UInt8 × List UInt8)
  | [], bs => some ([], bs)
  | _ :: _, [] => none
  | w :: ws, b :: bs =>
    if lower b == w then (word? ws bs).map fun (front, rest) => (b :: front, rest) else none

/-! ## Scripts -/

/-- A script with its tags, as it is written. -/
structure Script where
  /-- The start of the opening tag, up to its attributes. -/
  opening : List UInt8
  attributes : List UInt8
  content : List UInt8
  closing : List UInt8
deriving DecidableEq, Repr

/-- The closing tag at the front: the tag, and the rest. -/
def closing? (bs : List UInt8) : Option (List UInt8 × List UInt8) := do
  let (tag, rest) ← word? (ascii "</script") bs
  match rest.dropWhile isBlank with
  | b :: rest' =>
    if b == tagEnd then some (tag ++ rest.takeWhile isBlank ++ [b], rest') else none
  | [] => none

/-- The content of a script: what comes before the first closing tag, the tag, and the rest. -/
def content? (bs : List UInt8) : Option (List UInt8 × List UInt8 × List UInt8) :=
  match closing? bs with
  | some (tag, rest) => some ([], tag, rest)
  | none => match bs with
    | [] => none
    | b :: bs => (content? bs).map fun (content, tail) => (b :: content, tail)

/-- The script at the front, and the rest. -/
def script? (bs : List UInt8) : Option (Script × List UInt8) := do
  let (tag, rest) ← word? (ascii "<script") bs
  if rest.head?.any isWord then none
  else match rest.dropWhile (· != tagEnd) with
    | [] => none
    | _ :: body => do
      let (content, closing, rest') ← content? body
      some (⟨tag, rest.takeWhile (· != tagEnd), content, closing⟩, rest')

/-! ### A script takes something off the front -/

theorem word?_length {w bs front rest : List UInt8} (h : word? w bs = some (front, rest)) :
    rest.length + w.length = bs.length := by
  induction w generalizing bs front rest with
  | nil => simp only [word?, Option.some.injEq, Prod.mk.injEq] at h; simp [h.2]
  | cons c w ih =>
    cases bs with
    | nil => simp [word?] at h
    | cons b bs =>
      simp only [word?] at h
      split at h
      · simp only [Option.map_eq_some_iff, Prod.mk.injEq] at h
        obtain ⟨⟨f, r⟩, h, -, rfl⟩ := h
        have := ih h
        simp only [List.length_cons]
        omega
      · simp at h

theorem closing?_length {bs tag rest : List UInt8} (h : closing? bs = some (tag, rest)) :
    rest.length ≤ bs.length := by
  simp only [closing?, Option.bind_eq_bind, Option.bind_eq_some_iff] at h
  obtain ⟨⟨t, r⟩, hw, h⟩ := h
  have hr := word?_length hw
  have hd := (r.dropWhile_sublist isBlank).length_le
  split at h
  · rename_i b r' heq
    split at h
    · simp only [Option.some.injEq, Prod.mk.injEq] at h
      rw [heq, List.length_cons] at hd
      rw [← h.2]
      omega
    · simp at h
  · simp at h

theorem content?_length {bs content tag rest : List UInt8}
    (h : content? bs = some (content, tag, rest)) : rest.length ≤ bs.length := by
  induction bs generalizing content with
  | nil =>
    unfold content? at h
    split at h
    · rename_i hc
      simp only [Option.some.injEq, Prod.mk.injEq] at h
      rw [← h.2.2]
      exact closing?_length hc
    · simp at h
  | cons b bs ih =>
    unfold content? at h
    split at h
    · rename_i hc
      simp only [Option.some.injEq, Prod.mk.injEq] at h
      rw [← h.2.2]
      exact closing?_length hc
    · simp only [Option.map_eq_some_iff, Prod.mk.injEq] at h
      obtain ⟨⟨c, t⟩, h, -, rfl⟩ := h
      have := ih h
      simp only [List.length_cons]
      omega

theorem script?_length {bs rest : List UInt8} {s : Script} (h : script? bs = some (s, rest)) :
    rest.length < bs.length := by
  simp only [script?, Option.bind_eq_bind, Option.bind_eq_some_iff] at h
  obtain ⟨⟨t, r⟩, hw, h⟩ := h
  have hr := word?_length hw
  have h7 : (ascii "<script").length = 7 := by decide
  have hd := (r.dropWhile_sublist (· != tagEnd)).length_le
  dsimp only at h
  split at h
  · simp at h
  · split at h
    · simp at h
    · rename_i body heq
      simp only [Option.bind_eq_some_iff] at h
      obtain ⟨⟨c, cl, r'⟩, hc, h⟩ := h
      simp only [Option.some.injEq, Prod.mk.injEq] at h
      have := content?_length hc
      rw [heq, List.length_cons] at hd
      rw [← h.2]
      omega

/-! ## Files -/

/-- A piece of a component file. -/
inductive Part where
  /-- One byte outside all scripts. -/
  | markup (b : UInt8)
  | script (s : Script)
deriving DecidableEq, Repr

/-- Cuts a file into its pieces. -/
def parts (bs : List UInt8) : List Part :=
  match h : script? bs with
  | some (s, rest) =>
    have := script?_length h
    .script s :: parts rest
  | none => match bs with
    | [] => []
    | b :: bs => .markup b :: parts bs
termination_by bs.length

/-- A piece as it is written. -/
def Part.bytes : Part → List UInt8
  | markup b => [b]
  | script s => s.opening ++ s.attributes ++ [tagEnd] ++ s.content ++ s.closing

/-- A piece with all but the content of a script masked. -/
def Part.masked : Part → List UInt8
  | markup b => [maskByte b]
  | script s =>
    (s.opening ++ s.attributes ++ [tagEnd]).map maskByte ++ s.content ++ s.closing.map maskByte

/-- The script in a piece. -/
def Part.script? : Part → Option Script
  | markup _ => none
  | script s => some s

/-- The scripts of a file. -/
def scripts (bs : List UInt8) : List Script := (parts bs).filterMap Part.script?

/-- A file with everything but its scripts masked. -/
def mask (bs : List UInt8) : List UInt8 := (parts bs).flatMap Part.masked

/-! ## Attributes -/

/-- The text after the first word that starts at a word boundary, or nothing. `inWord` says whether
the byte before is part of a word. -/
def afterWord? (w : List UInt8) (inWord : Bool) (bs : List UInt8)
    (accept : List UInt8 → Option α) : Option α :=
  let here := if inWord then none else
    if w.isPrefixOf bs then accept (bs.drop w.length) else none
  match here with
  | some a => some a
  | none => match bs with
    | [] => none
    | b :: bs => afterWord? w (isWord b) bs accept

/-- The script is the one that sets the component up. -/
def Script.isSetup (s : Script) : Bool :=
  (afterWord? (ascii "setup") false s.attributes fun rest =>
    if rest.head?.any isWord then none else some ()).isSome

/-- A byte of a language's name. -/
def isNameByte (b : UInt8) : Bool := isWord b || b == 45

/-- The value of an attribute, after its name: an equals sign, perhaps a quote, and a name. -/
def attributeValue? (bs : List UInt8) : Option (List UInt8) :=
  match bs.dropWhile isBlank with
  | 61 :: rest =>
    let value := match rest.dropWhile isBlank with
      | b :: more => if b == 34 || b == 39 then more else b :: more
      | [] => []
    match value.takeWhile isNameByte with
    | [] => none
    | name => some name
  | _ => none

/-- The language that a script is written in, as it names it. -/
def Script.language? (s : Script) : Option (List UInt8) :=
  (afterWord? (ascii "lang") false s.attributes attributeValue?).map (·.map lower)

/-- The script that decides on the language of all: the first one that sets the component up, or
else the first one. -/
def leading? (ss : List Script) : Option Script :=
  (ss.find? Script.isSetup).orElse fun _ => ss.head?

end RefFlow.Component
