import RefFlow.Proofs.Component.Scan

/-!
# Components as they are written

A component as its author writes it: markup, and scripts with attributes whose values are in quotes
(`Document`).  The scan does not know about quotes.  An opening tag ends for it at the first closing
angle bracket, be it in a value or not, and what is left of the tag *spills* into the script
(`Element.spill`).

Nothing else goes wrong.  If no closing tag starts in what is spilled, the scan takes a document
apart into just its texts and its scripts (`cut_pieces`), so that the mask shows the contents of the
scripts and what has been spilled.  `mask_document` says when this is what the author means.
-/

namespace RefFlow.Component

/-! ## Words in a text -/

/-- The word occurs in the bytes, in any letter case. -/
def Occurs (word bs : List UInt8) : Prop := word <:+: bs.map lower

instance (word bs : List UInt8) : Decidable (Occurs word bs) :=
  inferInstanceAs (Decidable (_ <:+: _))

lemma Occurs.mono {word bs cs : List UInt8} (h : Occurs word bs) (hbs : bs <:+: cs) :
    Occurs word cs := h.trans (hbs.map lower)

/-- A word does not reach over a byte that is not in it. -/
lemma Occurs.of_append_cons {word bs cs : List UInt8} {b : UInt8} (hb : lower b ∉ word)
    (h : Occurs word (bs ++ b :: cs)) : Occurs word bs ∨ Occurs word cs := by
  obtain ⟨front, back, heq⟩ := h
  rw [List.map_append, List.map_cons, List.append_eq_append_iff] at heq
  rcases heq with ⟨more, hmore, -⟩ | ⟨more, hmore, hback⟩
  · exact .inl ⟨front, more, hmore.symm⟩
  · cases more with
    | nil => exact .inl ⟨front, [], by simpa using hmore⟩
    | cons c more =>
      obtain ⟨rfl, hcs⟩ := List.cons.inj hback
      rcases List.append_eq_append_iff.1 hmore with ⟨x, -, hword⟩ | ⟨x, -, hword⟩
      · exact absurd (by rw [hword]; simp) hb
      · cases x with
        | nil => exact absurd (by rw [List.nil_append] at hword; rw [← hword]; simp) hb
        | cons d x =>
          obtain ⟨rfl, hmore⟩ := List.cons.inj hword
          exact .inr ⟨x, back, by rw [hcs, hmore]; rfl⟩

lemma Occurs.ne_nil {word bs : List UInt8} (h : Occurs word bs) (hword : word ≠ []) : bs ≠ [] := by
  rintro rfl
  exact hword (List.infix_nil.1 h)

lemma Occurs.of_cons {word cs : List UInt8} {b : UInt8} (hb : lower b ∉ word) (hword : word ≠ [])
    (h : Occurs word (b :: cs)) : Occurs word cs := by
  have happend : Occurs word ([] ++ b :: cs) := h
  rcases happend.of_append_cons hb with hnil | hcs
  · exact absurd rfl (hnil.ne_nil hword)
  · exact hcs

/-- The byte that starts a tag. -/
def tagStart : UInt8 := 60

/-- A tag does not start in a text in which it does not occur, if the text is followed by nothing
or by the start of another tag. -/
lemma ne_append_of_not_occurs {word bs more : List UInt8} (honce : tagStart ∉ word.tail)
    (hbs : bs ≠ []) (hno : ¬Occurs word bs) (hmore : ∀ b ∈ more.head?, b = tagStart)
    {front rest : List UInt8} (hfront : Spells front word) : bs ++ more ≠ front ++ rest := by
  intro heq
  rcases List.append_eq_append_iff.1 heq with ⟨x, hx, hrest⟩ | ⟨x, hx, -⟩
  · cases x with
    | nil =>
      rw [List.append_nil] at hx
      have hword : bs.map lower = word := by rw [← hx, hfront]
      exact hno (hword ▸ List.infix_rfl)
    | cons b x =>
      -- The word would go on with the byte that it starts with.
      have hb : b = tagStart := hmore b (by simp [hrest])
      obtain ⟨d, ds, rfl⟩ := List.exists_cons_of_ne_nil hbs
      refine honce ?_
      rw [← hfront, hx, hb, List.map_append, List.map_cons, List.map_cons, List.cons_append,
        List.tail_cons]
      exact List.mem_append_right _ List.mem_cons_self
  · refine hno ?_
    rw [hx, Occurs, List.map_append, hfront]
    exact (List.prefix_append _ _).isInfix

/-! ## Documents -/

/-- The byte around the values of attributes. -/
def quote : UInt8 := 34

/-- A byte that cannot stand in the name of an attribute. -/
def endsName (b : UInt8) : Bool :=
  isBlank b || b == quote || b == 39 || b == 47 || b == 61 || b == tagEnd

/-- An attribute of a script. -/
structure Attribute where
  name : List UInt8
  value : List UInt8
  name_plain : ∀ b ∈ name, endsName b = false
  value_plain : quote ∉ value

/-- A script with its attributes. -/
structure Element where
  attributes : List Attribute
  content : List UInt8
  content_plain : ¬Occurs (ascii "</script") content

/-- Markup without scripts. -/
structure Markup where
  bytes : List UInt8
  plain : ¬Occurs (ascii "<script") bytes

/-- A component: markup, and scripts with the markup after each of them. -/
structure Document where
  front : Markup
  scripts : List (Element × Markup)

/-- An attribute as it is written, with a space in front of it. -/
def Attribute.bytes (a : Attribute) : List UInt8 :=
  32 :: a.name ++ 61 :: quote :: a.value ++ [quote]

namespace Element

/-- The attributes as they are written. -/
def attributeBytes (e : Element) : List UInt8 := e.attributes.flatMap Attribute.bytes

/-- The opening tag. -/
def openingTag (e : Element) : List UInt8 := ascii "<script" ++ e.attributeBytes ++ [tagEnd]

/-- A script as it is written. -/
def bytes (e : Element) : List UInt8 := e.openingTag ++ e.content ++ ascii "</script>"

/-- A script with its tags masked. -/
def masked (e : Element) : List UInt8 :=
  e.openingTag.map maskByte ++ e.content ++ (ascii "</script>").map maskByte

end Element

namespace Document

/-- A component as it is written. -/
def bytes (d : Document) : List UInt8 :=
  d.front.bytes ++ d.scripts.flatMap fun e => e.1.bytes ++ e.2.bytes

/-- A component with all but the contents of its scripts masked. -/
def masked (d : Document) : List UInt8 :=
  d.front.bytes.map maskByte ++ d.scripts.flatMap fun e => e.1.masked ++ e.2.bytes.map maskByte

end Document

/-! ## Scripts as the scan sees them -/

namespace Element

variable (e : Element)

/-- What comes in the opening tag after its first closing angle bracket. -/
def spill : List UInt8 := ((e.attributeBytes ++ [tagEnd]).dropWhile (· != tagEnd)).tail

/-- The script that the scan sees. -/
def script : Script where
  opening := ascii "<script"
  attributes := (e.attributeBytes ++ [tagEnd]).takeWhile (· != tagEnd)
  content := e.spill ++ e.content
  closing := ascii "</script>"

variable {e}

lemma mem_attributeBytes_iff :
    tagEnd ∈ e.attributeBytes ↔ ∃ a ∈ e.attributes, tagEnd ∈ a.value := by
  have hname : ∀ a : Attribute, tagEnd ∉ a.name := by
    intro a h
    have hend := a.name_plain tagEnd h
    cases hend
  have hbytes : ∀ a : Attribute, tagEnd ∈ a.bytes ↔ tagEnd ∈ a.value := by
    intro a
    have h32 : tagEnd ≠ 32 := by decide
    have h61 : tagEnd ≠ 61 := by decide
    have hquote : tagEnd ≠ quote := by decide
    simp [Attribute.bytes, hname a, h32, h61, hquote]
  simp only [attributeBytes, List.mem_flatMap, hbytes]

/-- The opening tag has no closing angle bracket before its end, or is cut at the first one. -/
lemma spill_cases : (tagEnd ∉ e.attributeBytes ∧ e.script.attributes = e.attributeBytes ∧
      e.spill = []) ∨
    ∃ front back, tagEnd ∉ front ∧ e.attributeBytes = front ++ tagEnd :: back ∧
      e.script.attributes = front ∧ e.spill = back ++ [tagEnd] := by
  by_cases h : tagEnd ∈ e.attributeBytes
  · obtain ⟨front, back, heq, hfront⟩ := List.eq_append_cons_of_mem h
    obtain ⟨htake, hdrop⟩ := takeWhile_dropWhile_tagEnd hfront (back ++ [tagEnd])
    refine .inr ⟨front, back, hfront, heq, ?_, ?_⟩
    · rw [script, heq, List.append_assoc, List.cons_append, htake]
    · rw [spill, heq, List.append_assoc, List.cons_append, hdrop, List.tail_cons]
  · obtain ⟨htake, hdrop⟩ := takeWhile_dropWhile_tagEnd h []
    exact .inl ⟨h, htake, by rw [spill, hdrop, List.tail_cons]⟩

lemma spill_eq_nil_iff : e.spill = [] ↔ ∀ a ∈ e.attributes, tagEnd ∉ a.value := by
  have hattributes : e.spill = [] ↔ tagEnd ∉ e.attributeBytes := by
    rcases spill_cases (e := e) with ⟨h, -, hspill⟩ | ⟨front, back, -, heq, -, hspill⟩
    · exact iff_of_true hspill h
    · exact iff_of_false (by simp [hspill]) (by simp [heq])
  rw [hattributes, mem_attributeBytes_iff]
  simp only [not_exists, not_and]

lemma openingTag_eq : e.openingTag = e.script.opening ++ e.script.attributes ++ [tagEnd] ++
    e.spill := by
  rcases spill_cases (e := e) with ⟨-, hattributes, hspill⟩ | ⟨front, back, -, heq, hfront, hspill⟩
  · rw [hattributes, hspill, openingTag, script, List.append_nil]
  · rw [hfront, hspill, openingTag, heq, script]
    simp

lemma bytes_script_eq : (Part.script e.script).bytes = e.bytes := by
  rw [bytes, openingTag_eq, Part.bytes, script]
  simp only [List.append_assoc]

/-- The script with its tags masked, as the scan sees it: what is spilled is shown. -/
lemma masked_script_eq : (Part.script e.script).masked =
    (e.script.opening ++ e.script.attributes ++ [tagEnd]).map maskByte ++ e.spill ++ e.content ++
      (ascii "</script>").map maskByte := by
  rw [Part.masked, script]
  simp only [List.append_assoc]

lemma length_masked_script : (Part.script e.script).masked.length = e.masked.length := by
  rw [masked_script_eq, masked, openingTag_eq]
  simp only [List.map_append, List.length_append, List.length_map]

/-- The scan masks a script as the author means it exactly if nothing is spilled. -/
lemma masked_script_iff : (Part.script e.script).masked = e.masked ↔ e.spill = [] := by
  rw [masked_script_eq, masked, openingTag_eq]
  constructor
  · intro h
    rw [@List.map_append _ _ maskByte _ e.spill] at h
    simp only [List.append_assoc, List.append_cancel_left_eq] at h
    obtain ⟨hspill, -⟩ := List.append_inj h (by simp)
    rcases spill_cases (e := e) with ⟨-, -, hnil⟩ | ⟨front, back, -, -, -, hback⟩
    · exact hnil
    · rw [hback, List.map_append, List.map_singleton] at hspill
      obtain ⟨-, hlast⟩ := List.append_inj hspill (by simp)
      cases hlast
  · intro h
    rw [h, List.append_nil, List.append_nil]

/-! ### The scan sees a script -/

lemma isClosing_closing : IsClosing (ascii "</script>") :=
  ⟨ascii "</script", [], rfl, rfl, nofun⟩

/-- If no closing tag starts in what is spilled, none does in what is spilled and the content. -/
lemma not_occurs_spill_append (h : ¬Occurs (ascii "</script") e.spill) :
    ¬Occurs (ascii "</script") (e.spill ++ e.content) := by
  intro hoccurs
  rcases spill_cases (e := e) with ⟨-, -, hspill⟩ | ⟨front, back, -, -, -, hspill⟩
  · rw [hspill, List.nil_append] at hoccurs
    exact e.content_plain hoccurs
  · rw [hspill] at h hoccurs
    rw [List.append_assoc, List.singleton_append] at hoccurs
    rcases hoccurs.of_append_cons (by decide) with hback | hcontent
    · exact h (hback.mono (List.prefix_append _ _).isInfix)
    · exact e.content_plain hcontent

lemma isContent_script (h : ¬Occurs (ascii "</script") e.spill) (rest : List UInt8) :
    IsContent (e.spill ++ e.content) (ascii "</script>") rest := by
  rintro front back heq hback ⟨tag, more, ⟨word, blanks, rfl, hword, -⟩, hcloses⟩
  have hno : ¬Occurs (ascii "</script") back := by
    intro hoccurs
    refine not_occurs_spill_append h (hoccurs.mono ?_)
    rw [heq]
    exact (List.suffix_append _ _).isInfix
  have hstart : ∀ b ∈ (ascii "</script>" ++ rest).head?, b = tagStart := by
    rintro b ⟨⟩
    rfl
  have hne : back ++ (ascii "</script>" ++ rest) ≠ word ++ (blanks ++ [tagEnd] ++ more) :=
    ne_append_of_not_occurs (by decide) hback hno hstart hword
  refine hne ?_
  rw [← List.append_assoc, hcloses]
  simp only [List.append_assoc]

lemma isScript_script (h : ¬Occurs (ascii "</script") e.spill) (rest : List UInt8) :
    IsScript e.script rest where
  opening := rfl
  boundary := by
    have hhead : e.attributeBytes = [] ∨ ∃ more, e.attributeBytes = 32 :: more := by
      unfold attributeBytes
      cases e.attributes with
      | nil => exact .inl rfl
      | cons a more => exact .inr ⟨_, rfl⟩
    rcases hhead with heq | ⟨more, heq⟩
    · rw [script, heq]
      rfl
    · rw [script, heq]
      rfl
  attributes := tagEnd_not_mem_takeWhile
  content := isContent_script h rest
  closing := isClosing_closing

lemma eq_slash_of_lower {b : UInt8} (h : lower b = 47) : b = 47 := by
  unfold lower at h
  grind

lemma not_occurs_name (a : Attribute) : ¬Occurs (ascii "</script") a.name := by
  intro hoccurs
  have hslash : (47 : UInt8) ∈ a.name.map lower := hoccurs.subset (by decide)
  obtain ⟨b, hb, hlower⟩ := List.mem_map.1 hslash
  have hend := a.name_plain b hb
  rw [eq_slash_of_lower hlower] at hend
  cases hend

lemma not_occurs_attributes {as : List Attribute}
    (h : ∀ a ∈ as, ¬Occurs (ascii "</script") a.value) :
    ¬Occurs (ascii "</script") (as.flatMap Attribute.bytes) := by
  induction as with
  | nil => exact fun hoccurs => hoccurs.ne_nil (by decide) rfl
  | cons a as ih =>
    obtain ⟨ha, has⟩ := List.forall_mem_cons.1 h
    intro hoccurs
    -- The word is in none of the parts of an attribute, and does not reach over what parts them.
    have hbytes : (a :: as).flatMap Attribute.bytes =
        32 :: (a.name ++ 61 :: quote :: (a.value ++ quote :: as.flatMap Attribute.bytes)) := by
      simp [Attribute.bytes]
    rw [hbytes] at hoccurs
    rcases (hoccurs.of_cons (by decide) (by decide)).of_append_cons (by decide) with hin | hafter
    · exact not_occurs_name a hin
    · rcases (hafter.of_cons (by decide) (by decide)).of_append_cons (by decide) with hin | hrest
      · exact ha hin
      · exact ih has hrest

/-- Closing tags start in what is spilled only if they do in a value. -/
lemma not_occurs_spill (h : ∀ a ∈ e.attributes, ¬Occurs (ascii "</script") a.value) :
    ¬Occurs (ascii "</script") e.spill := by
  intro hoccurs
  rcases spill_cases (e := e) with ⟨-, -, hspill⟩ | ⟨front, back, -, heq, -, hspill⟩
  · exact hoccurs.ne_nil (by decide) hspill
  · rw [hspill] at hoccurs
    rcases hoccurs.of_append_cons (by decide) with hback | hnil
    · refine not_occurs_attributes h (hback.mono ?_)
      rw [← attributeBytes, heq]
      exact ((List.suffix_cons tagEnd back).trans (List.suffix_append front _)).isInfix
    · exact hnil.ne_nil (by decide) rfl

end Element

/-! ## Documents as the scan sees them -/

/-- Markup is cut into single bytes. -/
lemma cut_markup {text bs : List UInt8} {ps : List Part} (htext : ¬Occurs (ascii "<script") text)
    (hbs : ∀ b ∈ bs.head?, b = tagStart) (h : Cut bs ps) :
    Cut (text ++ bs) (text.map .markup ++ ps) := by
  induction text with
  | nil => exact h
  | cons b text ih =>
    have hrest : ¬Occurs (ascii "<script") text := fun hoccurs =>
      htext (hoccurs.mono (List.suffix_cons b text).isInfix)
    refine .markup (fun s rest hs heq => ?_) (ih hrest)
    have hne : b :: text ++ bs ≠
        s.opening ++ (s.attributes ++ [tagEnd] ++ s.content ++ s.closing ++ rest) :=
      ne_append_of_not_occurs (by decide) (List.cons_ne_nil b text) htext hbs hs.opening
    refine hne (heq.trans ?_)
    simp only [Part.bytes, List.append_assoc]

namespace Document

/-- The pieces that the scan cuts a component into. -/
def pieces (d : Document) : List Part :=
  d.front.bytes.map .markup ++
    d.scripts.flatMap fun e => .script e.1.script :: e.2.bytes.map .markup

lemma cut_pieces {d : Document}
    (h : ∀ e ∈ d.scripts, ¬Occurs (ascii "</script") e.1.spill) : Cut d.bytes d.pieces := by
  obtain ⟨front, scripts⟩ := d
  have hscripts : Cut (scripts.flatMap fun e => e.1.bytes ++ e.2.bytes)
      (scripts.flatMap fun e => .script e.1.script :: e.2.bytes.map .markup) ∧
      ∀ b ∈ (scripts.flatMap fun e => e.1.bytes ++ e.2.bytes).head?, b = tagStart := by
    induction scripts with
    | nil => exact ⟨.nil, nofun⟩
    | cons e scripts ih =>
      obtain ⟨hfirst, hrest⟩ := List.forall_mem_cons.1 h
      obtain ⟨hcut, hhead⟩ := ih hrest
      constructor
      · rw [List.flatMap_cons, List.flatMap_cons, List.append_assoc, ← Element.bytes_script_eq,
          List.cons_append]
        exact .script (Element.isScript_script hfirst _) (cut_markup e.2.plain hhead hcut)
      · exact fun b hb => (Option.some_inj.1 hb).symm
  exact cut_markup front.plain hscripts.2 hscripts.1

lemma mask_eq {d : Document} (h : ∀ e ∈ d.scripts, ¬Occurs (ascii "</script") e.1.spill) :
    mask d.bytes = d.front.bytes.map maskByte ++
      d.scripts.flatMap fun e => (Part.script e.1.script).masked ++ e.2.bytes.map maskByte := by
  have hmarkup : ∀ text : List UInt8,
      (text.map Part.markup).flatMap Part.masked = text.map maskByte := by
    intro text
    induction text with
    | nil => rfl
    | cons b text ih => rw [List.map_cons, List.flatMap_cons, ih, Part.masked]; rfl
  rw [mask, ← cut_iff.1 (cut_pieces h), pieces, List.flatMap_append, hmarkup, List.flatMap_assoc]
  simp only [List.flatMap_cons, hmarkup]

/-- A component is masked as the author means it exactly if nothing is spilled. -/
lemma mask_eq_masked_iff {d : Document}
    (h : ∀ e ∈ d.scripts, ¬Occurs (ascii "</script") e.1.spill) :
    mask d.bytes = d.masked ↔ ∀ e ∈ d.scripts, e.1.spill = [] := by
  rw [mask_eq h, masked, List.append_cancel_left_eq]
  induction d.scripts with
  | nil => simp
  | cons e scripts ih =>
    rw [List.flatMap_cons, List.flatMap_cons, List.forall_mem_cons, ← ih,
      ← Element.masked_script_iff]
    constructor
    · intro heq
      obtain ⟨hfirst, hrest⟩ := List.append_inj heq (by simp [Element.length_masked_script])
      exact ⟨(List.append_inj hfirst Element.length_masked_script).1, hrest⟩
    · rintro ⟨hfirst, hrest⟩
      rw [hfirst, hrest]

end Document

/-- **Scripts in a component.**  A component is masked as its author means it, with the contents of
its scripts shown and everything else hidden, if no value of an attribute has a closing angle
bracket in it.  Unless a value has a closing tag in it, this is the only case: the rest of the
opening tag after such a bracket is shown. -/
theorem mask_document (d : Document) :
    ((∀ e ∈ d.scripts, ∀ a ∈ e.1.attributes, tagEnd ∉ a.value) → mask d.bytes = d.masked) ∧
    ((∀ e ∈ d.scripts, ∀ a ∈ e.1.attributes, ¬Occurs (ascii "</script") a.value) →
      (mask d.bytes = d.masked ↔ ∀ e ∈ d.scripts, ∀ a ∈ e.1.attributes, tagEnd ∉ a.value)) := by
  constructor
  · intro h
    have hnil : ∀ e ∈ d.scripts, e.1.spill = [] := fun e he => Element.spill_eq_nil_iff.2 (h e he)
    refine (Document.mask_eq_masked_iff fun e he hoccurs => ?_).2 hnil
    exact hoccurs.ne_nil (by decide) (hnil e he)
  · intro h
    rw [Document.mask_eq_masked_iff fun e he => Element.not_occurs_spill (h e he)]
    exact forall₂_congr fun e _ => Element.spill_eq_nil_iff

/-! ### Tags in values and in texts -/

/-- The component `<script lang="ts" generic="T extends Array<string>">let a</script>`, in which an
opening tag has a closing angle bracket in a value. -/
def Document.typed : Document where
  front := ⟨[], by decide +kernel⟩
  scripts :=
    [({ attributes := [⟨ascii "lang", ascii "ts", by decide +kernel, by decide +kernel⟩,
          ⟨ascii "generic", ascii "T extends Array<string>", by decide +kernel, by decide +kernel⟩]
        content := ascii "let a"
        content_plain := by decide +kernel }, ⟨[], by decide +kernel⟩)]

/-- The end of the opening tag, a quote and an angle bracket, is shown as part of the script. -/
theorem mask_typed :
    Document.typed.bytes =
      ascii "<script lang=\"ts\" generic=\"T extends Array<string>\">let a</script>" ∧
    Document.typed.masked = List.replicate 52 32 ++ ascii "let a" ++ List.replicate 9 32 ∧
    mask Document.typed.bytes =
      List.replicate 50 32 ++ ascii "\">let a" ++ List.replicate 9 32 := by
  refine ⟨by decide +kernel, by decide +kernel, ?_⟩
  rw [Document.mask_eq (by decide +kernel)]
  decide +kernel

/-- A component with two scripts, in which tags are begun in a value, in a script and in a text. -/
def Document.begun : Document where
  front := ⟨ascii "<p>a\n</p>\n", by decide +kernel⟩
  scripts :=
    [({ attributes := [⟨ascii "lang", ascii "ts", by decide +kernel, by decide +kernel⟩,
          ⟨ascii "data", ascii "<script", by decide +kernel, by decide +kernel⟩]
        content := ascii "a </ b\n<script </scrip"
        content_plain := by decide +kernel }, ⟨ascii "\n</SCRIPT><scrip", by decide +kernel⟩),
     ({ attributes := [], content := ascii "\nlet b", content_plain := by decide +kernel },
      ⟨ascii "\n", by decide +kernel⟩)]

/-- The scripts are shown as the author means them. -/
theorem mask_begun :
    (∀ e ∈ Document.begun.scripts, ∀ a ∈ e.1.attributes, tagEnd ∉ a.value) ∧
    mask Document.begun.bytes = Document.begun.masked ∧
    (∀ e ∈ Document.typed.scripts, ∀ a ∈ e.1.attributes, ¬Occurs (ascii "</script") a.value) ∧
    mask Document.typed.bytes ≠ Document.typed.masked := by
  have hbegun : ∀ e ∈ Document.begun.scripts, ∀ a ∈ e.1.attributes, tagEnd ∉ a.value := by
    decide +kernel
  have htyped : ∀ e ∈ Document.typed.scripts, ∀ a ∈ e.1.attributes,
      ¬Occurs (ascii "</script") a.value := by decide +kernel
  refine ⟨hbegun, (mask_document .begun).1 hbegun, htyped, ?_⟩
  rw [Ne, (mask_document .typed).2 htyped]
  decide +kernel

end RefFlow.Component
