import Mathlib.Data.List.Forall2
import Mathlib.Data.List.TakeWhile
import RefFlow.Proofs.Settings.Loading

/-!
# Options written back to the environment

A variable that holds a list is read by cutting its value at the commas, taking off the blanks
around the pieces, and leaving out the pieces that are nothing else.  This module states the rule
without the functions that follow it: `Text.Trims` says what a text without the blanks around it is,
and `Settings.Lists` what a value lists.  The elements of such a list are plain (`Settings.Plain`),
and a list of plain elements joined with commas lists just these (`pieces_intercalate`), whatever
blanks and empty pieces there were in the value that they came from.

`configure_written` is the result for options as a whole: written back to the environment, valid
options are found again.
-/

namespace RefFlow

/-! ## Blanks around a text -/

namespace Text

variable {cs core : List Char}

/-- The text has a blank neither at its start nor at its end. -/
def Trimmed (cs : List Char) : Prop :=
  (∀ c ∈ cs.head?, isBlank c = false) ∧ ∀ c ∈ cs.getLast?, isBlank c = false

/-- The second text is the first one without the blanks around it. -/
structure Trims (cs core : List Char) : Prop where
  around : ∃ before after, cs = before ++ core ++ after ∧
    (∀ c ∈ before, isBlank c = true) ∧ ∀ c ∈ after, isBlank c = true
  trimmed : Trimmed core

lemma head?_dropWhile_eq_false (p : Char → Bool) (cs : List Char) :
    ∀ c ∈ (cs.dropWhile p).head?, p c = false := by
  intro c hc
  have h := List.head?_dropWhile_not p cs
  rw [Option.mem_def.1 hc] at h
  simpa using h

/-- Trimming takes off the blanks around a text. -/
lemma trims_trim (cs : List Char) : Trims cs (trim cs) := by
  rw [trim, trimBy]
  set rest := (cs.dropWhile isBlank).reverse with hrest
  have hfront : cs = cs.takeWhile isBlank ++ rest.reverse := by
    rw [hrest, List.reverse_reverse, List.takeWhile_append_dropWhile]
  have hback : rest.reverse = (rest.dropWhile isBlank).reverse ++
      (rest.takeWhile isBlank).reverse := by
    rw [← List.reverse_append, List.takeWhile_append_dropWhile]
  refine ⟨⟨cs.takeWhile isBlank, (rest.takeWhile isBlank).reverse, ?_, ?_, ?_⟩, ?_, ?_⟩
  · rw [List.append_assoc, ← hback, ← hfront]
  · exact fun c hc => List.mem_takeWhile_imp hc
  · exact fun c hc => List.mem_takeWhile_imp (List.mem_reverse.1 hc)
  · -- What is left starts as the text does once the blanks at its start are taken off.
    intro c hc
    refine head?_dropWhile_eq_false isBlank cs c ?_
    have hdrop : cs.dropWhile isBlank = rest.reverse := by rw [hrest, List.reverse_reverse]
    rw [hdrop, hback, List.head?_append, Option.mem_def.1 hc]
    rfl
  · intro c hc
    rw [List.getLast?_reverse] at hc
    exact head?_dropWhile_eq_false isBlank rest c hc

/-- There is only one way to take off the blanks around a text. -/
lemma Trims.trim_eq (h : Trims cs core) : trim cs = core := by
  obtain ⟨⟨before, after, rfl, hbefore, hafter⟩, hhead, hlast⟩ := h
  have hfront : (before ++ core ++ after).dropWhile isBlank =
      (core ++ after).dropWhile isBlank := by
    rw [List.append_assoc, List.dropWhile_append_of_pos hbefore]
  rw [trim, trimBy, hfront]
  cases core with
  | nil => simp [List.dropWhile_eq_nil_iff.2 hafter]
  | cons c core =>
    have hstart : (c :: core ++ after).dropWhile isBlank = c :: core ++ after :=
      List.dropWhile_cons_of_neg (by simp [hhead c rfl])
    have hend : (c :: core).reverse.dropWhile isBlank = (c :: core).reverse := by
      refine List.dropWhile_eq_self_iff.2 fun hlength => ?_
      rw [Bool.not_eq_true]
      refine hlast _ ?_
      rw [← List.head?_reverse, List.head?_eq_getElem?]
      exact List.getElem?_eq_getElem hlength
    rw [hstart, List.reverse_append, List.dropWhile_append_of_pos (by simpa using hafter), hend,
      List.reverse_reverse]

lemma trim_of_trimmed (h : Trimmed cs) : trim cs = cs := by
  refine Trims.trim_eq ⟨⟨[], [], ?_, ?_, ?_⟩, h⟩ <;> simp

lemma trim_eq_nil_iff : trim cs = [] ↔ cs.all isBlank = true := by
  constructor
  · intro h
    obtain ⟨⟨before, after, hcs, hbefore, hafter⟩, -⟩ := trims_trim cs
    rw [hcs, h, List.append_nil, List.all_append, Bool.and_eq_true, List.all_eq_true,
      List.all_eq_true]
    exact ⟨hbefore, hafter⟩
  · intro h
    refine Trims.trim_eq ⟨⟨cs, [], by simp, List.all_eq_true.1 h, by simp⟩, ?_, ?_⟩ <;> simp

lemma mem_of_mem_trim {c : Char} (h : c ∈ trim cs) : c ∈ cs := by
  obtain ⟨⟨before, after, hcs, -, -⟩, -⟩ := trims_trim cs
  rw [hcs]
  exact List.mem_append_left _ (List.mem_append_right _ h)

end Text

/-! ## Lists in values -/

namespace Settings

open Text

variable {value : String} {items : List String}

/-- The items are those that the value lists: cut at the commas, the value has pieces, and the items
are those of them, in order, that are not blank, without the blanks around them. -/
def Lists (value : String) (items : List String) : Prop :=
  ∃ cut : List (List Char), cut ≠ [] ∧ (∀ piece ∈ cut, ',' ∉ piece) ∧
    [','].intercalate cut = value.toList ∧
    List.Forall₂ (fun piece item => Trims piece item.toList)
      (cut.filter fun piece => !piece.all isBlank) items

/-- The text can be an item of a list. -/
structure Plain (item : String) : Prop where
  ne_empty : item ≠ ""
  no_comma : ',' ∉ item.toList
  trimmed : Trimmed item.toList

lemma not_mem_of_mem_splitOn {cs piece : List Char} (h : piece ∈ cs.splitOn ',') :
    ',' ∉ piece := by
  induction cs generalizing piece with
  | nil =>
    rw [List.splitOn_nil, List.mem_singleton] at h
    simp [h]
  | cons c cs ih =>
    rw [List.splitOn_cons_eq_if_modifyHead] at h
    split at h
    · rcases List.mem_cons.1 h with rfl | h
      · exact List.not_mem_nil
      · exact ih h
    · rename_i hc
      obtain ⟨first, others, hsplit⟩ := List.exists_cons_of_ne_nil (List.splitOn_ne_nil ',' cs)
      rw [hsplit, List.modifyHead_cons] at h
      rcases List.mem_cons.1 h with rfl | h
      · have hfirst : ',' ∉ first := ih (hsplit ▸ List.mem_cons_self)
        have hne : ',' ≠ c := fun heq => hc (beq_iff_eq.2 heq.symm)
        simp [hfirst, hne]
      · exact ih (hsplit ▸ List.mem_cons_of_mem _ h)

lemma lists_pieces (value : String) : Lists value (pieces value) := by
  refine ⟨value.toList.splitOn ',', List.splitOn_ne_nil _ _, fun _ => not_mem_of_mem_splitOn,
    List.intercalate_splitOn ',', ?_⟩
  have hpieces : pieces value = ((value.toList.splitOn ',').filter fun piece =>
      !piece.all isBlank).map fun piece => String.ofList (trim piece) := by
    rw [pieces, List.filter_map, List.map_map]
    congr 1
    refine List.filter_congr fun piece _ => ?_
    rw [Function.comp_apply, Bool.eq_iff_iff, Bool.not_eq_true', Bool.not_eq_true',
      ← Bool.not_eq_true, ← Bool.not_eq_true, List.isEmpty_iff, trim_eq_nil_iff]
  rw [hpieces, List.forall₂_map_right_iff]
  exact List.forall₂_same.2 fun piece _ => by
    rw [String.toList_ofList]
    exact trims_trim piece

lemma plain_of_mem_pieces {item : String} (h : item ∈ pieces value) : Plain item := by
  obtain ⟨cs, hcs, rfl⟩ := List.mem_map.1 h
  obtain ⟨hmem, hne⟩ := List.mem_filter.1 hcs
  obtain ⟨piece, hpiece, rfl⟩ := List.mem_map.1 hmem
  refine ⟨?_, ?_, ?_⟩
  · intro heq
    have hnil : trim piece = [] := by simpa using congrArg String.toList heq
    simp [hnil] at hne
  · rw [String.toList_ofList]
    exact fun hcomma => not_mem_of_mem_splitOn hpiece (mem_of_mem_trim hcomma)
  · rw [String.toList_ofList]
    exact (trims_trim piece).trimmed

/-- Plain items joined with commas are what the result lists. -/
lemma pieces_intercalate (h : ∀ item ∈ items, Plain item) :
    pieces (",".intercalate items) = items := by
  cases items with
  | nil => decide
  | cons first others =>
    set items := first :: others with hitems
    have hsplit : (",".intercalate items).toList.splitOn ',' = items.map String.toList := by
      rw [String.toList_intercalate]
      refine List.splitOn_intercalate ',' ?_ (by simp [hitems])
      rintro cs hcs
      obtain ⟨item, hitem, rfl⟩ := List.mem_map.1 hcs
      exact (h item hitem).no_comma
    have htrim : (items.map String.toList).map trim = items.map String.toList := by
      rw [List.map_map]
      exact List.map_congr_left fun item hitem => trim_of_trimmed (h item hitem).trimmed
    have hfilter : (items.map String.toList).filter (!·.isEmpty) = items.map String.toList := by
      refine List.filter_eq_self.2 fun cs hcs => ?_
      obtain ⟨item, hitem, rfl⟩ := List.mem_map.1 hcs
      have hne : item.toList ≠ [] := fun hnil => (h item hitem).ne_empty (by simpa using hnil)
      simpa using hne
    rw [pieces, hsplit, htrim, hfilter, List.map_map]
    simp

/-! ## Options in variables -/

/-- Variables with the values that describe options. -/
def written (o : Options) : Table String String :=
  [(sourceTypeName, o.sourceType), (globalsName, ",".intercalate o.globals),
   (traceModeName, o.traceMode), (libraryModulesName, ",".intercalate o.libraryModules),
   (globalObjectsName, ",".intercalate o.globalObjects)]

lemma nodup_keys_written (o : Options) : (written o).keys.Nodup := by
  have hkeys : (written o).keys =
    [sourceTypeName, globalsName, traceModeName, libraryModulesName, globalObjectsName] := rfl
  rw [hkeys]
  decide

/-- The lists among options, each with the variable that holds it and with the value that is taken
if that is not set. -/
def listed (o : Options) : List (String × String × List String) :=
  [(globalsName, "", o.globals),
   (libraryModulesName, "vue,@vue/composition-api", o.libraryModules),
   (globalObjectsName, "Vue", o.globalObjects)]

lemma eq_pieces_of_mem_listed {e : Environment} {x : String × String × List String}
    (h : x ∈ listed (options e)) : x.2.2 = pieces (valueOr e x.1 x.2.1) := by
  simp only [listed, List.mem_cons, List.not_mem_nil, or_false] at h
  rcases h with rfl | rfl | rfl <;> rfl

lemma validate_eq_ok_iff {o o' : Options} : validate o = .ok o' ↔
    o = o' ∧ o.sourceType ∈ sourceTypes ∧ o.traceMode ∈ traceModes := by
  unfold validate
  by_cases hsource : o.sourceType ∈ sourceTypes
  · by_cases htrace : o.traceMode ∈ traceModes <;> simp [hsource, htrace]
  · simp [hsource]

/-- The words that are allowed are read as they are. -/
lemma word_of_mem : ∀ w ∈ sourceTypes ++ traceModes, word w = w := by decide +kernel

/-- In an environment where variables describe valid options, these are found. -/
lemma options_of_written {o : Options} {e : Environment} (hsource : o.sourceType ∈ sourceTypes)
    (htrace : o.traceMode ∈ traceModes)
    (hitems : ∀ x ∈ listed o, ∀ item ∈ x.2.2, Plain item)
    (he : ∀ name value, (written o).get? name = some value → e.get? name = some value) :
    options e = o := by
  have hvalue : ∀ name {default value}, (written o).get? name = some value →
      valueOr e name default = value := by
    intro name default value h
    rw [valueOr, he name value h]
    rfl
  have hglobals : ∀ item ∈ o.globals, Plain item :=
    hitems _ List.mem_cons_self
  have hmodules : ∀ item ∈ o.libraryModules, Plain item :=
    hitems _ (List.mem_cons_of_mem _ List.mem_cons_self)
  have hobjects : ∀ item ∈ o.globalObjects, Plain item :=
    hitems _ (List.mem_cons_of_mem _ (List.mem_cons_of_mem _ List.mem_cons_self))
  have hwords : word o.sourceType = o.sourceType ∧ word o.traceMode = o.traceMode :=
    ⟨word_of_mem _ (List.mem_append_left _ hsource), word_of_mem _ (List.mem_append_right _ htrace)⟩
  rw [options, hvalue sourceTypeName rfl, hvalue globalsName rfl,
    hvalue traceModeName rfl, hvalue libraryModulesName rfl,
    hvalue globalObjectsName rfl, hwords.1, hwords.2, pieces_intercalate hglobals,
    pieces_intercalate hmodules, pieces_intercalate hobjects]

end Settings

namespace Surroundings

open Settings

/-- Sets variables. -/
def setAll (s : Surroundings) (t : Table String String) : Surroundings :=
  t.foldl (fun s x => s.set x.1 x.2) s

lemma get?_set (s : Surroundings) (name value other : String) :
    (s.set name value).environment.get? other =
      if name == other then some value else s.environment.get? other :=
  Table.get?_set s.environment name other value

lemma get?_setAll_of_not_mem {t : Table String String} {name : String} (h : name ∉ t.keys)
    (s : Surroundings) : (s.setAll t).environment.get? name = s.environment.get? name := by
  induction t generalizing s with
  | nil => rfl
  | cons x t ih =>
    have hx : name ≠ x.1 := List.ne_of_not_mem_cons h
    refine (ih (List.not_mem_of_not_mem_cons h) (s.set x.1 x.2)).trans ?_
    rw [get?_set, if_neg (by simpa using hx.symm)]

/-- Variables that have been set have their values. -/
lemma get?_setAll {t : Table String String} (ht : t.keys.Nodup) (s : Surroundings)
    {name value : String} (h : t.get? name = some value) :
    (s.setAll t).environment.get? name = some value := by
  induction t generalizing s with
  | nil => cases h
  | cons x t ih =>
    obtain ⟨hnew, hrest⟩ : x.1 ∉ Table.keys t ∧ (Table.keys t).Nodup := List.nodup_cons.1 ht
    rw [Table.get?] at h
    split at h
    · rename_i hname
      obtain rfl : x.1 = name := beq_iff_eq.1 hname
      refine (get?_setAll_of_not_mem hnew (s.set x.1 x.2)).trans ?_
      rw [get?_set, if_pos (by simp), h]
    · exact ih hrest (s.set x.1 x.2) h

/-- **Options written back.**  Options that were loaded and found valid, written to the variables of
any environment, are loaded from there again, whatever the settings file sets.  Each of their lists
is what the value of its variable lists, or its default if it is not set, and has plain elements
only: not empty, without commas, and without blanks at either end. -/
theorem configure_written {s : Surroundings} {file : Table String String} {o : Options}
    (h : (s.configureWith file).1 = .ok o) :
    (∀ (t : Surroundings) (file' : Table String String),
      ((t.setAll (written o)).configureWith file').1 = .ok o) ∧
    ∀ name default items, (name, default, items) ∈ listed o →
      (∀ item ∈ items, Plain item) ∧
      Lists (((s.configureWith file).2.environment.get? name).getD default) items := by
  rw [configureWith] at h ⊢
  dsimp only at h ⊢
  generalize load s.environment file = e at h ⊢
  obtain ⟨rfl, hsource, htrace⟩ := validate_eq_ok_iff.1 h
  have hitems : ∀ x ∈ listed (options e), ∀ item ∈ x.2.2, Plain item := by
    intro x hx item hitem
    rw [eq_pieces_of_mem_listed hx] at hitem
    exact plain_of_mem_pieces hitem
  refine ⟨fun t file' => ?_, fun name default items hmem => ⟨hitems _ hmem, ?_⟩⟩
  · rw [configureWith]
    dsimp only
    rw [options_of_written hsource htrace hitems fun name value hvalue => ?_]
    · exact h
    · rw [get?_load, get?_setAll (nodup_keys_written _) t hvalue]
      rfl
  · have hpieces : items = pieces (valueOr e name default) := eq_pieces_of_mem_listed hmem
    rw [hpieces]
    exact lists_pieces _

/-- Values with blanks, capital letters and empty pieces, and one that is empty. -/
def untidy : Surroundings :=
  { environment := [(sourceTypeName, " Script "), (globalsName, "$ref, $$ ,, \t,a b"),
      (libraryModulesName, "")] }

theorem configure_written_untidy :
    (untidy.configureWith [(globalsName, "unused")]).1 =
        .ok { sourceType := "script", globals := ["$ref", "$$", "a b"], libraryModules := [] } ∧
      ((untidy.setAll [(sourceTypeName, "script"), (globalsName, "$ref,$$,a b"),
        (traceModeName, "esm"), (libraryModulesName, ""),
        (globalObjectsName, "Vue")]).configureWith [(traceModeName, "all")]).1 =
          .ok { sourceType := "script", globals := ["$ref", "$$", "a b"], libraryModules := [] } ∧
      Lists "$ref, $$ ,, \t,a b" ["$ref", "$$", "a b"] := by
  have h : (untidy.configureWith [(globalsName, "unused")]).1 =
      .ok { sourceType := "script", globals := ["$ref", "$$", "a b"], libraryModules := [] } := by
    decide +kernel
  obtain ⟨hagain, hlists⟩ := configure_written h
  exact ⟨h, hagain untidy [(traceModeName, "all")],
    (hlists globalsName "" _ List.mem_cons_self).2⟩

end Surroundings

end RefFlow
