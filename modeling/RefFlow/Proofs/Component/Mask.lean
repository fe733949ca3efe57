import RefFlow.Language
import RefFlow.Proofs.Component.Scan

/-!
# What a mask shows of a component

A component is cut into pieces, and the mask is put together from the pieces.  It shows a byte
exactly if the offset of the byte is in the content of a script.  `mask_eq_mapIdx` says this as an
equation between byte strings, by induction on the pieces with the offset at which they start, and
all that is said of offsets, lines, columns and texts follows from the equation.

Lines and columns agree because they depend only on where the line feeds are (`position_congr`), and
a mask has them where the file has them.  `prepare_component` puts the results together.
-/

namespace RefFlow

/-! ## Lines and columns -/

namespace Source

variable {s t : Source}

lemma count_lineFeed (bs : List UInt8) :
    bs.count lineFeed = (bs.map (· == lineFeed)).count true := by
  induction bs with
  | nil => rfl
  | cons b bs ih => simp [List.count_cons, ih]

lemma length_takeWhile_ne_lineFeed (bs : List UInt8) :
    (bs.takeWhile (· != lineFeed)).length =
      ((bs.map (· == lineFeed)).takeWhile (!·)).length := by
  rw [List.takeWhile_map, List.length_map]
  rfl

/-- Where an offset is depends only on where the lines end. -/
lemma position_congr (h : s.bytes.map (· == lineFeed) = t.bytes.map (· == lineFeed))
    (offset : Nat) : s.position offset = t.position offset := by
  have hlength : s.bytes.length = t.bytes.length := by simpa using congrArg List.length h
  simp only [position, count_lineFeed, length_takeWhile_ne_lineFeed, List.map_take,
    List.map_reverse, List.length_take, h, hlength]

end Source

namespace Component

open Source

/-! ## Where the scripts are -/

/-- The tag in front of the content of a script. -/
def Script.openingTag (s : Script) : List UInt8 := s.opening ++ s.attributes ++ [tagEnd]

/-- The offsets of the content of a script that starts at an offset. -/
def Script.contentSpan (s : Script) (offset : Nat) : Span :=
  ⟨offset + s.openingTag.length, offset + s.openingTag.length + s.content.length⟩

/-- The offsets of the contents of all scripts among pieces that start at an offset. -/
def spansFrom (offset : Nat) : List Part → List Span
  | [] => []
  | .markup _ :: ps => spansFrom (offset + 1) ps
  | .script s :: ps => s.contentSpan offset :: spansFrom (offset + (Part.script s).bytes.length) ps

/-- The offsets of the contents of the scripts of a file. -/
def contentSpans (bs : List UInt8) : List Span := spansFrom 0 (parts bs)

lemma bytes_script (s : Script) :
    (Part.script s).bytes = s.openingTag ++ s.content ++ s.closing := rfl

lemma masked_script (s : Script) :
    (Part.script s).masked = s.openingTag.map maskByte ++ s.content ++ s.closing.map maskByte := rfl

lemma le_of_mem_spansFrom {offset : Nat} {ps : List Part} {r : Span}
    (h : r ∈ spansFrom offset ps) : offset ≤ r.start := by
  fun_induction spansFrom offset ps with
  | case1 => cases h
  | case2 offset b ps ih => exact Nat.le_of_succ_le (ih h)
  | case3 offset s ps ih =>
    rcases List.mem_cons.1 h with rfl | h
    · exact Nat.le_add_right ..
    · exact Nat.le_trans (Nat.le_add_right ..) (ih h)

lemma pairwise_spansFrom (offset : Nat) (ps : List Part) :
    (spansFrom offset ps).Pairwise fun r t => r.stop ≤ t.start := by
  fun_induction spansFrom offset ps with
  | case1 => exact .nil
  | case2 offset b ps ih => exact ih
  | case3 offset s ps ih =>
    refine .cons (fun t ht => ?_) ih
    have hstart := le_of_mem_spansFrom ht
    simp only [bytes_script, List.length_append] at hstart
    simp only [Script.contentSpan]
    omega

lemma stop_le_of_mem_spansFrom {offset : Nat} {ps : List Part} {r : Span}
    (h : r ∈ spansFrom offset ps) :
    r.start ≤ r.stop ∧ r.stop ≤ offset + (ps.flatMap Part.bytes).length := by
  fun_induction spansFrom offset ps with
  | case1 => cases h
  | case2 offset b ps ih =>
    obtain ⟨hle, hstop⟩ := ih h
    simp only [List.flatMap_cons, Part.bytes, List.length_append, List.length_singleton]
    omega
  | case3 offset s ps ih =>
    rw [List.flatMap_cons, List.length_append]
    rcases List.mem_cons.1 h with rfl | h
    · simp only [Script.contentSpan, bytes_script, List.length_append]
      omega
    · obtain ⟨hle, hstop⟩ := ih h
      omega

/-! ## What the mask shows -/

/-- A byte as the mask has it that shows the given spans. -/
def veil (spans : List Span) (offset : Nat) (b : UInt8) : UInt8 :=
  if ∃ r ∈ spans, r.Contains offset then b else maskByte b

lemma veil_of_mem {spans : List Span} {r : Span} {offset : Nat} (hr : r ∈ spans)
    (h : r.Contains offset) (b : UInt8) : veil spans offset b = b := if_pos ⟨r, hr, h⟩

lemma veil_of_forall {spans : List Span} {offset : Nat} (h : ∀ r ∈ spans, ¬r.Contains offset)
    (b : UInt8) : veil spans offset b = maskByte b :=
  if_neg fun ⟨r, hr, hin⟩ => h r hr hin

/-- A span that does not cover the offset makes no difference. -/
lemma veil_cons {spans : List Span} {r : Span} {offset : Nat} (h : ¬r.Contains offset)
    (b : UInt8) : veil (r :: spans) offset b = veil spans offset b := by
  simp [veil, h]

/-- Bytes that are all changed in the same way, whatever their offsets. -/
lemma mapIdx_eq_map {f : Nat → UInt8 → UInt8} {g : UInt8 → UInt8} {bs : List UInt8}
    (h : ∀ i < bs.length, ∀ b, f i b = g b) : bs.mapIdx f = bs.map g := by
  refine List.ext_getElem (by simp) fun i hi _ => ?_
  rw [List.getElem_mapIdx, List.getElem_map]
  exact h i (by simpa using hi) _

/-- A script is masked up to its content and after it. -/
lemma mapIdx_script (s : Script) (offset : Nat) {later : List Span}
    (hlater : ∀ r ∈ later, offset + (Part.script s).bytes.length ≤ r.start) :
    (Part.script s).bytes.mapIdx (fun i => veil (s.contentSpan offset :: later) (offset + i)) =
      (Part.script s).masked := by
  have hout : ∀ i < (Part.script s).bytes.length, ∀ r ∈ later, ¬r.Contains (offset + i) := by
    intro i hi r hr hin
    have hstart := hlater r hr
    have := hin.1
    omega
  simp only [bytes_script, List.length_append] at hout
  rw [bytes_script, masked_script, List.mapIdx_append, List.mapIdx_append]
  have hopening : s.openingTag.mapIdx
      (fun i => veil (s.contentSpan offset :: later) (offset + i)) = s.openingTag.map maskByte := by
    refine mapIdx_eq_map fun i hi b => ?_
    have hbefore : ¬(s.contentSpan offset).Contains (offset + i) := by
      rintro ⟨hstart, -⟩
      simp only [Script.contentSpan] at hstart
      omega
    rw [veil_cons hbefore, veil_of_forall (hout i (by omega))]
  have hcontent : s.content.mapIdx
      (fun i => veil (s.contentSpan offset :: later) (offset + (i + s.openingTag.length))) =
        s.content := by
    rw [mapIdx_eq_map (g := id), List.map_id]
    intro i hi b
    refine veil_of_mem List.mem_cons_self ⟨?_, ?_⟩ b
    · simp only [Script.contentSpan]
      omega
    · simp only [Script.contentSpan]
      omega
  have hclosing : s.closing.mapIdx (fun i => veil (s.contentSpan offset :: later)
      (offset + (i + (s.openingTag ++ s.content).length))) = s.closing.map maskByte := by
    refine mapIdx_eq_map fun i hi b => ?_
    have hafter : ¬(s.contentSpan offset).Contains
        (offset + (i + (s.openingTag ++ s.content).length)) := by
      rintro ⟨-, hstop⟩
      simp only [Script.contentSpan, List.length_append] at hstop
      omega
    rw [veil_cons hafter, veil_of_forall (hout _ (by simp; omega))]
  rw [hopening, hcontent, hclosing]

lemma masked_parts (offset : Nat) (ps : List Part) : ps.flatMap Part.masked =
    (ps.flatMap Part.bytes).mapIdx fun i => veil (spansFrom offset ps) (offset + i) := by
  fun_induction spansFrom offset ps with
  | case1 => rfl
  | case2 offset b ps ih =>
    have hout : ∀ r ∈ spansFrom (offset + 1) ps, ¬r.Contains offset := by
      intro r hr hin
      have hstart := le_of_mem_spansFrom hr
      have := hin.1
      omega
    rw [List.flatMap_cons, List.flatMap_cons, List.mapIdx_append, ih]
    congr 1
    · simp [Part.bytes, Part.masked, veil_of_forall hout]
    · refine congrArg (List.mapIdx · _) (funext fun i => ?_)
      rw [Part.bytes, List.length_singleton, Nat.add_right_comm, Nat.add_assoc]
  | case3 offset s ps ih =>
    have hlater : ∀ r ∈ spansFrom (offset + (Part.script s).bytes.length) ps,
        offset + (Part.script s).bytes.length ≤ r.start := fun r hr => le_of_mem_spansFrom hr
    rw [List.flatMap_cons, List.flatMap_cons, List.mapIdx_append, mapIdx_script s offset hlater, ih]
    congr 1
    refine congrArg (List.mapIdx · _) (funext fun i => funext fun b => ?_)
    have hafter : ¬(s.contentSpan offset).Contains
        (offset + (i + (Part.script s).bytes.length)) := by
      rintro ⟨-, hstop⟩
      simp only [Script.contentSpan, bytes_script, List.length_append] at hstop
      omega
    rw [veil_cons hafter, Nat.add_right_comm, Nat.add_assoc]

/-- **A mask shows the contents of the scripts.**  It has the bytes of the file at the offsets of
the contents, and masked bytes at all other offsets. -/
lemma mask_eq_mapIdx (bs : List UInt8) : mask bs = bs.mapIdx (veil (contentSpans bs)) := by
  have h := masked_parts 0 (parts bs)
  rw [bytes_parts] at h
  rw [mask, h]
  exact congrArg (List.mapIdx · bs) (funext fun i => by rw [Nat.zero_add, contentSpans])

lemma maskByte_eq_lineFeed_iff {b : UInt8} : maskByte b = lineFeed ↔ b = lineFeed := by
  unfold maskByte
  split
  · rfl
  · rename_i h
    refine iff_of_false (by decide) ?_
    simpa using h

lemma maskByte_cases (b : UInt8) : maskByte b = lineFeed ∨ maskByte b = 32 := by
  unfold maskByte
  split
  · rename_i h
    exact .inl (by simpa using h)
  · exact .inr rfl

lemma veil_eq_lineFeed_iff {spans : List Span} {offset : Nat} {b : UInt8} :
    veil spans offset b = lineFeed ↔ b = lineFeed := by
  unfold veil
  split
  · rfl
  · exact maskByte_eq_lineFeed_iff

@[simp] lemma length_mask (bs : List UInt8) : (mask bs).length = bs.length := by
  rw [mask_eq_mapIdx, List.length_mapIdx]

lemma getElem?_mask (bs : List UInt8) (i : Nat) :
    (mask bs)[i]? = (bs[i]?).map (veil (contentSpans bs) i) := by
  rw [mask_eq_mapIdx, List.getElem?_mapIdx]

/-- A mask has its lines where the file has them. -/
lemma map_lineFeed_mask (bs : List UInt8) :
    (mask bs).map (· == lineFeed) = bs.map (· == lineFeed) := by
  refine List.ext_getElem? fun i => ?_
  rw [List.getElem?_map, getElem?_mask, List.getElem?_map, Option.map_map]
  refine Option.map_congr fun b _ => ?_
  rw [Function.comp_apply, Bool.eq_iff_iff, beq_iff_eq, beq_iff_eq, veil_eq_lineFeed_iff]

/-- Inside the content of a script, mask and file have the same bytes. -/
lemma slice_mask {bs : List UInt8} {r t : Span} (hr : r ∈ contentSpans bs) (ht : t.Within r) :
    Source.slice ⟨mask bs⟩ t = Source.slice ⟨bs⟩ t := by
  refine List.ext_getElem? fun i => ?_
  simp only [Source.slice, List.getElem?_drop, List.getElem?_take]
  split
  · rename_i hi
    rw [getElem?_mask]
    have hin : r.Contains (t.start + i) :=
      ⟨Nat.le_trans ht.1 (Nat.le_add_right ..), Nat.lt_of_lt_of_le hi ht.2⟩
    rw [Option.map_congr fun b _ => veil_of_mem hr hin b, Option.map_id']
  · rfl

/-! ## The contents of the scripts -/

lemma slice_append (front middle rest : List UInt8) :
    Source.slice ⟨front ++ middle ++ rest⟩ ⟨front.length, front.length + middle.length⟩ =
      middle := by
  simp only [Source.slice]
  rw [← List.length_append, List.take_left, List.drop_left]

/-- The spans among pieces that follow some bytes hold the contents of the scripts. -/
lemma slices_spansFrom (front : List UInt8) (ps : List Part) :
    (spansFrom front.length ps).map (Source.slice ⟨front ++ ps.flatMap Part.bytes⟩) =
      (ps.filterMap Part.script?).map (·.content) := by
  generalize hoffset : front.length = offset
  fun_induction spansFrom offset ps generalizing front with
  | case1 => rfl
  | case2 offset b ps ih =>
    have h := ih (front ++ [b]) (by simp [hoffset])
    rwa [List.append_assoc, ← Part.bytes, ← List.flatMap_cons] at h
  | case3 offset s ps ih =>
    have h := ih (front ++ (Part.script s).bytes) (by simp [hoffset])
    rw [List.append_assoc, ← List.flatMap_cons] at h
    rw [List.map_cons, h, List.filterMap_cons, Part.script?, List.map_cons]
    have hbytes : front ++ List.flatMap Part.bytes (.script s :: ps) =
        (front ++ s.openingTag) ++ s.content ++ (s.closing ++ ps.flatMap Part.bytes) := by
      simp only [List.flatMap_cons, bytes_script, List.append_assoc]
    have hspan : s.contentSpan offset = ⟨(front ++ s.openingTag).length,
        (front ++ s.openingTag).length + s.content.length⟩ := by
      rw [Script.contentSpan, List.length_append, hoffset]
    rw [hbytes, hspan, slice_append]

lemma slices_contentSpans (bs : List UInt8) :
    (contentSpans bs).map (Source.slice ⟨bs⟩) = (scripts bs).map (·.content) := by
  have h := slices_spansFrom [] (parts bs)
  rwa [List.nil_append, bytes_parts] at h

end Component

/-! ## Components to be parsed -/

namespace Language

open Source Component

/-- **A component is parsed at its place.**  There is one way to cut a component into scripts and
markup.  What is parsed of it has as many bytes as the file, and its line feeds at the same offsets.
It has the bytes of the file at the offsets of the contents of the scripts, which are in order and
do not overlap, and line feeds and spaces everywhere else.  So every offset is on the same line and
in the same column, and every text inside a script is the text of the file. -/
theorem prepare_component (s : Source) :
    ∃ ps, (∀ qs, Cut s.bytes qs ↔ qs = ps) ∧
      let m := (Language.component.prepare s).1
      let spans := spansFrom 0 ps
      m.size = s.size ∧
      (∀ i : Nat, m.bytes[i]? = some lineFeed ↔ s.bytes[i]? = some lineFeed) ∧
      spans.map s.slice = (ps.filterMap Part.script?).map (·.content) ∧
      (∀ r ∈ spans, r.start ≤ r.stop ∧ r.stop ≤ s.size) ∧
      (spans.Pairwise fun r t => r.stop ≤ t.start) ∧
      (∀ r ∈ spans, ∀ i, r.Contains i → m.bytes[i]? = s.bytes[i]?) ∧
      (∀ i < s.size, (∀ r ∈ spans, ¬r.Contains i) →
        m.bytes[i]? = some lineFeed ∨ m.bytes[i]? = some 32) ∧
      (∀ i, m.position i = s.position i) ∧
      ∀ r ∈ spans, ∀ t : Span, t.Within r → m.text t = s.text t := by
  refine ⟨parts s.bytes, fun qs => cut_iff, ?_⟩
  intro m spans
  have hbyte : ∀ i : Nat, m.bytes[i]? = (s.bytes[i]?).map (veil spans i) := getElem?_mask s.bytes
  refine ⟨length_mask s.bytes, fun i => ?_, slices_contentSpans s.bytes, fun r hr => ?_,
    pairwise_spansFrom 0 _, fun r hr i hi => ?_, fun i hi hout => ?_,
    position_congr (map_lineFeed_mask s.bytes), fun r hr t ht => ?_⟩
  · rw [hbyte, Option.map_eq_some_iff]
    constructor
    · rintro ⟨b, hb, hveil⟩
      rw [hb, veil_eq_lineFeed_iff.1 hveil]
    · intro h
      exact ⟨lineFeed, h, veil_eq_lineFeed_iff.2 rfl⟩
  · have hstop := stop_le_of_mem_spansFrom hr
    rwa [bytes_parts, Nat.zero_add] at hstop
  · rw [hbyte, Option.map_congr fun b _ => veil_of_mem hr hi b, Option.map_id']
  · have hget : s.bytes[i]? = some s.bytes[i] := List.getElem?_eq_getElem hi
    rw [hbyte, hget, Option.map_some, veil_of_forall hout, Option.some_inj, Option.some_inj]
    exact maskByte_cases _
  · have hslice : m.slice t = s.slice t := slice_mask hr ht
    rw [Source.text, Source.chars, hslice, Source.text, Source.chars]

end Language

end RefFlow
