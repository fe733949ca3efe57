import Mathlib.Data.List.TakeWhile
import RefFlow.Component

/-!
# How a component is cut into pieces

The rules by which a component is cut into scripts and markup, stated on the bytes alone, without
the scan that does it.

* `IsScript s rest`: the script `s` is one, if `rest` comes after it.  Its opening tag ends at the
  first closing angle bracket, and its content at the first closing tag.
* `Cut bs ps`: the pieces `ps` are those of the file `bs`.  At every offset a script is cut off if
  there is one, and else a single byte.

Each function of the scan takes off the front of a file exactly what the rules say, and nothing if
there is nothing (`word?_eq_some_iff` and the like).  So a file is cut in one way only, which is the
way the scan cuts it (`cut_iff`).
-/

namespace RefFlow.Component

/-! ## The rules -/

/-- The bytes spell the word, in any letter case. -/
def Spells (bs word : List UInt8) : Prop := bs.map lower = word

/-- The bytes are a closing tag. -/
def IsClosing (tag : List UInt8) : Prop :=
  ∃ word blanks, tag = word ++ blanks ++ [tagEnd] ∧ Spells word (ascii "</script") ∧
    ∀ b ∈ blanks, isBlank b = true

/-- The bytes start with a closing tag. -/
def Closes (bs : List UInt8) : Prop := ∃ tag rest, IsClosing tag ∧ bs = tag ++ rest

/-- The content, in front of a closing tag and the rest, has no closing tag before that one. -/
def IsContent (content tag rest : List UInt8) : Prop :=
  ∀ front back, content = front ++ back → back ≠ [] → ¬Closes (back ++ tag ++ rest)

/-- The bytes of the script are one, with the given rest after them. -/
structure IsScript (s : Script) (rest : List UInt8) : Prop where
  opening : Spells s.opening (ascii "<script")
  /-- The name of the tag ends where the attributes start. -/
  boundary : s.attributes.head?.any isWord = false
  attributes : tagEnd ∉ s.attributes
  content : IsContent s.content s.closing rest
  closing : IsClosing s.closing

/-- The pieces are those of the file. -/
inductive Cut : List UInt8 → List Part → Prop
  | nil : Cut [] []
  | script {s : Script} {rest : List UInt8} {ps : List Part} (isScript : IsScript s rest)
      (cut : Cut rest ps) : Cut ((Part.script s).bytes ++ rest) (.script s :: ps)
  | markup {b : UInt8} {bs : List UInt8} {ps : List Part}
      (none : ∀ s rest, IsScript s rest → b :: bs ≠ (Part.script s).bytes ++ rest)
      (cut : Cut bs ps) : Cut (b :: bs) (.markup b :: ps)

/-! ## Taking off the front -/

lemma word?_eq_some_iff {w bs front rest : List UInt8} :
    word? w bs = some (front, rest) ↔ bs = front ++ rest ∧ Spells front w := by
  induction w generalizing bs front with
  | nil =>
    simp only [word?, Spells, Option.some.injEq, Prod.mk.injEq, List.map_eq_nil_iff]
    constructor
    · rintro ⟨rfl, rfl⟩
      exact ⟨rfl, rfl⟩
    · rintro ⟨rfl, rfl⟩
      exact ⟨rfl, rfl⟩
  | cons c w ih =>
    cases bs with
    | nil =>
      refine iff_of_false ?_ ?_
      · intro h
        cases h
      · rintro ⟨hnil, hspells⟩
        rw [(List.append_eq_nil_iff.1 hnil.symm).1] at hspells
        cases hspells
    | cons b bs =>
      rw [word?]
      constructor
      · intro h
        split at h
        · rename_i hb
          obtain ⟨⟨f, r⟩, hw, heq⟩ := Option.map_eq_some_iff.1 h
          cases heq
          obtain ⟨rfl, hspells⟩ := ih.1 hw
          refine ⟨rfl, ?_⟩
          rw [Spells, List.map_cons, beq_iff_eq.1 hb, hspells]
        · cases h
      · rintro ⟨heq, hspells⟩
        cases front with
        | nil => cases hspells
        | cons f front =>
          obtain ⟨rfl, hbs⟩ := List.cons.inj heq
          obtain ⟨hb, hspells⟩ := List.cons.inj hspells
          rw [if_pos (beq_iff_eq.2 hb), ih.2 ⟨hbs, hspells⟩, Option.map_some]

/-- What comes before the first byte of a sort, and what comes from it on. -/
lemma takeWhile_dropWhile_append {q : UInt8 → Bool} {front : List UInt8} {b : UInt8}
    (hfront : ∀ c ∈ front, q c = true) (hb : q b = false) (rest : List UInt8) :
    (front ++ b :: rest).takeWhile q = front ∧ (front ++ b :: rest).dropWhile q = b :: rest := by
  rw [List.takeWhile_append_of_pos hfront, List.dropWhile_append_of_pos hfront]
  simp [hb]

lemma closing?_eq_some_iff {bs tag rest : List UInt8} :
    closing? bs = some (tag, rest) ↔ IsClosing tag ∧ bs = tag ++ rest := by
  constructor
  · intro h
    obtain ⟨⟨word, more⟩, hw, hmore⟩ := Option.bind_eq_some_iff.1 h
    obtain ⟨rfl, hspells⟩ := word?_eq_some_iff.1 hw
    dsimp only at hmore
    split at hmore
    · rename_i b rest' heq
      split at hmore
      · rename_i hb
        cases hmore
        rw [beq_iff_eq.1 hb] at heq ⊢
        refine ⟨⟨word, more.takeWhile isBlank, rfl, hspells, fun c hc => ?_⟩, ?_⟩
        · exact List.mem_takeWhile_imp hc
        · rw [List.append_assoc, List.append_assoc, List.singleton_append, ← heq,
            List.takeWhile_append_dropWhile]
      · cases hmore
    · cases hmore
  · rintro ⟨⟨word, blanks, rfl, hspells, hblanks⟩, rfl⟩
    have hw : word? (ascii "</script") (word ++ blanks ++ [tagEnd] ++ rest) =
        some (word, blanks ++ tagEnd :: rest) :=
      word?_eq_some_iff.2 ⟨by simp, hspells⟩
    obtain ⟨htake, hdrop⟩ := takeWhile_dropWhile_append (b := tagEnd) hblanks rfl rest
    simp only [closing?, hw, Option.bind_eq_bind, Option.bind_some, htake, hdrop, beq_self_eq_true]
    rfl

lemma closing?_eq_none_iff {bs : List UInt8} : closing? bs = none ↔ ¬Closes bs := by
  constructor
  · rintro h ⟨tag, rest, hcloses⟩
    rw [closing?_eq_some_iff.2 hcloses] at h
    cases h
  · intro h
    refine Option.eq_none_iff_forall_ne_some.2 ?_
    rintro ⟨tag, rest⟩ hsome
    exact h ⟨tag, rest, closing?_eq_some_iff.1 hsome⟩

lemma isContent_cons {b : UInt8} {content tag rest : List UInt8} :
    IsContent (b :: content) tag rest ↔
      ¬Closes (b :: content ++ tag ++ rest) ∧ IsContent content tag rest := by
  constructor
  · intro h
    refine ⟨h [] (b :: content) rfl nofun, ?_⟩
    rintro front back rfl hback
    exact h (b :: front) back rfl hback
  · rintro ⟨hfirst, hrest⟩ front back heq hback
    cases front with
    | nil =>
      rw [List.nil_append] at heq
      rwa [← heq]
    | cons c front =>
      exact hrest front back (List.cons.inj heq).2 hback

lemma content?_eq_some_iff {bs content tag rest : List UInt8} :
    content? bs = some (content, tag, rest) ↔
      bs = content ++ tag ++ rest ∧ IsClosing tag ∧ IsContent content tag rest := by
  induction content generalizing bs with
  | nil =>
    constructor
    · intro h
      unfold content? at h
      split at h
      · rename_i hc
        cases h
        obtain ⟨hclosing, hbs⟩ := closing?_eq_some_iff.1 hc
        refine ⟨hbs, hclosing, fun front back heq hback => ?_⟩
        exact absurd (List.append_eq_nil_iff.1 heq.symm).2 hback
      · split at h
        · cases h
        · obtain ⟨x, -, heq⟩ := Option.map_eq_some_iff.1 h
          cases heq
    · rintro ⟨hbs, hclosing, -⟩
      have hc : closing? bs = some (tag, rest) := closing?_eq_some_iff.2 ⟨hclosing, hbs⟩
      unfold content?
      rw [hc]
  | cons b content ih =>
    rw [isContent_cons]
    constructor
    · intro h
      unfold content? at h
      split at h
      · cases h
      · rename_i hnone
        split at h
        · cases h
        · rename_i c bs
          obtain ⟨⟨content', tail⟩, hc, heq⟩ := Option.map_eq_some_iff.1 h
          cases heq
          obtain ⟨rfl, hclosing, hcontent⟩ := ih.1 hc
          exact ⟨rfl, hclosing, closing?_eq_none_iff.1 hnone, hcontent⟩
    · rintro ⟨rfl, hclosing, hfirst, hcontent⟩
      unfold content?
      rw [closing?_eq_none_iff.2 hfirst]
      simp only [List.cons_append, ih.2 ⟨rfl, hclosing, hcontent⟩, Option.map_some]

/-- The end of a tag is found. -/
lemma takeWhile_dropWhile_tagEnd {front : List UInt8} (h : tagEnd ∉ front) (rest : List UInt8) :
    (front ++ tagEnd :: rest).takeWhile (· != tagEnd) = front ∧
      (front ++ tagEnd :: rest).dropWhile (· != tagEnd) = tagEnd :: rest := by
  refine takeWhile_dropWhile_append (fun c hc => bne_iff_ne.2 fun heq => h ?_) (by simp) rest
  rwa [← heq]

lemma tagEnd_not_mem_takeWhile {bs : List UInt8} : tagEnd ∉ bs.takeWhile (· != tagEnd) := by
  intro hmem
  have hne := List.mem_takeWhile_imp hmem
  simp at hne

/-- Whether a word goes on is seen before the end of the tag. -/
lemma any_head?_takeWhile_tagEnd (bs : List UInt8) :
    (bs.takeWhile (· != tagEnd)).head?.any isWord = bs.head?.any isWord := by
  cases bs with
  | nil => rfl
  | cons b bs =>
    by_cases hb : b = tagEnd
    · subst hb
      rfl
    · simp [hb]

lemma script?_eq_some_iff {bs rest : List UInt8} {s : Script} :
    script? bs = some (s, rest) ↔ IsScript s rest ∧ bs = (Part.script s).bytes ++ rest := by
  constructor
  · intro h
    obtain ⟨⟨tag, more⟩, hw, hbody⟩ := Option.bind_eq_some_iff.1 h
    obtain ⟨rfl, hspells⟩ := word?_eq_some_iff.1 hw
    dsimp only at hbody
    split at hbody
    · cases hbody
    · rename_i hboundary
      split at hbody
      · cases hbody
      · rename_i b body heq
        obtain ⟨⟨content, closing, rest'⟩, hc, hresult⟩ := Option.bind_eq_some_iff.1 hbody
        cases hresult
        obtain ⟨rfl, hclosing, hcontent⟩ := content?_eq_some_iff.1 hc
        have hb : b = tagEnd := by
          have hstop := List.head?_dropWhile_not (· != tagEnd) more
          simpa [heq] using hstop
        rw [hb] at heq
        have hmore : more.takeWhile (· != tagEnd) ++ [tagEnd] ++ (content ++ closing ++ rest') =
            more := by
          rw [List.append_assoc, List.singleton_append, ← heq, List.takeWhile_append_dropWhile]
        refine ⟨⟨hspells, ?_, tagEnd_not_mem_takeWhile, hcontent, hclosing⟩, ?_⟩
        · rw [any_head?_takeWhile_tagEnd, Bool.eq_false_iff]
          exact hboundary
        · have hbytes := congrArg (tag ++ ·) hmore
          simpa only [Part.bytes, List.append_assoc] using hbytes.symm
  · rintro ⟨hs, rfl⟩
    have hw : word? (ascii "<script") ((Part.script s).bytes ++ rest) =
        some (s.opening, s.attributes ++ tagEnd :: (s.content ++ s.closing ++ rest)) :=
      word?_eq_some_iff.2 ⟨by simp [Part.bytes], hs.opening⟩
    obtain ⟨htake, hdrop⟩ := takeWhile_dropWhile_tagEnd hs.attributes
      (s.content ++ s.closing ++ rest)
    have hboundary : (s.attributes ++ tagEnd :: (s.content ++ s.closing ++ rest)).head?.any isWord =
        false := by
      rw [← any_head?_takeWhile_tagEnd, htake, hs.boundary]
    have hc : content? (s.content ++ s.closing ++ rest) = some (s.content, s.closing, rest) :=
      content?_eq_some_iff.2 ⟨rfl, hs.closing, hs.content⟩
    simp only [script?, hw, Option.bind_eq_bind, Option.bind_some, hboundary, htake, hdrop, hc]
    rfl

lemma script?_eq_none_iff {bs : List UInt8} :
    script? bs = none ↔ ∀ s rest, IsScript s rest → bs ≠ (Part.script s).bytes ++ rest := by
  constructor
  · intro h s rest hs heq
    rw [script?_eq_some_iff.2 ⟨hs, heq⟩] at h
    cases h
  · intro h
    refine Option.eq_none_iff_forall_ne_some.2 ?_
    rintro ⟨s, rest⟩ hsome
    obtain ⟨hs, heq⟩ := script?_eq_some_iff.1 hsome
    exact h s rest hs heq

/-! ## Cutting a file -/

/-- A file is cut in one way only, which is the one of the scan. -/
lemma cut_iff {bs : List UInt8} {ps : List Part} : Cut bs ps ↔ ps = parts bs := by
  constructor
  · intro h
    induction h with
    | nil => rw [parts]; rfl
    | @script s rest ps isScript cut ih =>
      have hs := script?_eq_some_iff.2 ⟨isScript, rfl⟩
      rw [parts]
      split
      · rename_i s' rest' hs'
        cases hs.symm.trans hs'
        rw [ih]
      · rename_i hnone
        rw [hs] at hnone
        cases hnone
    | @markup b bs ps none cut ih =>
      have hnone := script?_eq_none_iff.2 none
      rw [parts]
      split
      · rename_i hs'
        rw [hnone] at hs'
        cases hs'
      · rw [ih]
  · rintro rfl
    fun_induction parts bs with
    | case1 bs s rest h _ ih =>
      obtain ⟨hs, rfl⟩ := script?_eq_some_iff.1 h
      exact .script hs ih
    | case2 => exact .nil
    | case3 b bs h ih => exact .markup (script?_eq_none_iff.1 h) ih

lemma Cut.bytes {bs : List UInt8} {ps : List Part} (h : Cut bs ps) :
    ps.flatMap Part.bytes = bs := by
  induction h with
  | nil => rfl
  | script _ _ ih => rw [List.flatMap_cons, ih]
  | markup _ _ ih => rw [List.flatMap_cons, ih, Part.bytes, List.singleton_append]

/-- The pieces of a file, one after the other, are the file. -/
lemma bytes_parts (bs : List UInt8) : (parts bs).flatMap Part.bytes = bs :=
  (cut_iff.2 rfl).bytes

end RefFlow.Component
