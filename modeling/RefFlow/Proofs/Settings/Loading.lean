import RefFlow.Proofs.Table
import RefFlow.Settings

/-!
# What a failed attempt to load settings leaves behind

Loading settings first adds the variables of a file to the environment, and only then looks whether
the options that the environment describes are valid.  If they are not, the variables stay.  Nothing
here depends on how a file is read: what it sets is any table of variables.

`load_eq_append` says what loading does to an environment: variables of the file are added behind
those that are set already, and none is changed.  A variable that makes the options invalid is one
that is set, since the defaults are valid, so that loading further files cannot mend it
(`validate_load_of_error`).  `configure_of_invalid` puts this together for an attempt to load
settings that fails, and `stray_mode_stays` shows that such an attempt does make a difference.
-/

namespace RefFlow

/-! ## Loading a file -/

namespace Settings

variable {e : Environment} {file : Table String String} {i : Invalid} {name : String}

/-- The variables of a file that an environment does not have. -/
def added (e : Environment) (file : Table String String) : Environment :=
  file.filter fun x => !e.has x.1

/-- Loading a file adds its variables behind those that are set already. -/
lemma load_eq_append (hfile : file.keys.Nodup) (e : Environment) :
    load e file = e ++ added e file :=
  Table.foldl_set_of_not_has hfile e

lemma mem_added_iff (hfile : file.keys.Nodup) {value : String} :
    (name, value) ∈ added e file ↔ file.get? name = some value ∧ e.get? name = none := by
  rw [added, List.mem_filter, Table.mem_iff_get? hfile]
  simp [Table.has]

/-- A variable that is set keeps its value, and one that is not gets that of the file. -/
lemma get?_load (e : Environment) (file : Table String String) (name : String) :
    (load e file).get? name = (e.get? name).or (file.get? name) := by
  induction file generalizing e with
  | nil => exact Option.or_none.symm
  | cons x file ih =>
    refine (ih _).trans ?_
    dsimp only
    rw [Table.get?.eq_2]
    by_cases hx : x.1 = name
    · subst hx
      cases hset : e.get? x.1 <;> simp [Table.has, hset, Table.get?_set]
    · split <;> simp [Table.get?_set, hx]

lemma valueOr_load {value : String} (h : e.get? name = some value) (file : Table String String)
    (default : String) : valueOr (load e file) name default = valueOr e name default := by
  rw [valueOr, valueOr, get?_load, h]
  rfl

lemma added_eq_nil (h : ∀ name, file.has name = true → e.has name = true) :
    added e file = [] := by
  refine List.filter_eq_nil_iff.2 fun x hx => ?_
  have hhas : file.has x.1 = true := Table.has_iff_mem_keys.2 (List.mem_map_of_mem hx)
  simp [h x.1 hhas]

/-- Removing the variables that a file has added gives the environment from before. -/
lemma foldl_unset_load (hfile : file.keys.Nodup) (e : Environment) :
    (added e file).keys.foldl Environment.unset (load e file) = e := by
  have hunset : ∀ (names : List String) (e : Environment),
      names.foldl Environment.unset e = e.filter fun x => decide (x.1 ∉ names) := by
    intro names
    induction names with
    | nil => simp
    | cons n names ih =>
      intro e
      rw [List.foldl_cons, ih, Environment.unset, List.filter_filter]
      refine List.filter_congr fun x _ => ?_
      by_cases hx : x.1 = n <;> simp [hx]
  rw [hunset, load_eq_append hfile, List.filter_append, List.filter_eq_self.2,
    List.filter_eq_nil_iff.2, List.append_nil]
  · intro x hx
    have hkey : x.1 ∈ (added e file).keys := List.mem_map_of_mem hx
    simp [hkey]
  · intro x hx
    have hset : e.has x.1 = true := Table.has_iff_mem_keys.2 (List.mem_map_of_mem hx)
    have hkey : x.1 ∉ (added e file).keys := by
      intro hmem
      obtain ⟨y, hy, heq⟩ := List.mem_map.1 hmem
      have hnot := (List.mem_filter.1 hy).2
      simp [heq, hset] at hnot
    simp [hkey]

/-! ## Options that are invalid stay so -/

/-- The two ways in which options can be invalid. -/
lemma validate_eq_error_iff {o : Options} : validate o = .error i ↔
    o.sourceType ∉ sourceTypes ∧ i = ⟨sourceTypeName, sourceTypes, o.sourceType⟩ ∨
    o.sourceType ∈ sourceTypes ∧ o.traceMode ∉ traceModes ∧
      i = ⟨traceModeName, traceModes, o.traceMode⟩ := by
  unfold validate
  by_cases hsource : o.sourceType ∈ sourceTypes
  · by_cases htrace : o.traceMode ∈ traceModes <;> simp [hsource, htrace, eq_comm]
  · simp [hsource, eq_comm]

lemma word_module_mem : word "module" ∈ sourceTypes := by decide +kernel

lemma word_esm_mem : word "esm" ∈ traceModes := by decide +kernel

/-- A word that is none of those allowed is the value of a variable that is set, so that it stays
the same when a file is loaded. -/
lemma word_valueOr_load {default : String} {allowed : List String}
    (hdefault : word default ∈ allowed) (h : word (valueOr e name default) ∉ allowed)
    (file : Table String String) :
    word (valueOr (load e file) name default) = word (valueOr e name default) := by
  cases he : e.get? name with
  | none =>
    rw [valueOr, he] at h
    exact absurd hdefault h
  | some value => rw [valueOr_load he]

/-- What is wrong with an environment is still wrong after a file is loaded.  Only a kind of source
that the file brings in may be complained of first. -/
lemma validate_load_of_error (h : validate (options e) = .error i) (file : Table String String) :
    ∃ j, validate (options (load e file)) = .error j ∧ (j = i ∨ j.name = sourceTypeName) := by
  rcases validate_eq_error_iff.1 h with ⟨hsource, rfl⟩ | ⟨-, htrace, rfl⟩
  · have hsame : (options (load e file)).sourceType = (options e).sourceType :=
      word_valueOr_load word_module_mem hsource file
    refine ⟨_, validate_eq_error_iff.2 (.inl ⟨?_, rfl⟩), .inr rfl⟩
    rwa [hsame]
  · have hsame : (options (load e file)).traceMode = (options e).traceMode :=
      word_valueOr_load word_esm_mem htrace file
    by_cases hsource : (options (load e file)).sourceType ∈ sourceTypes
    · refine ⟨_, validate_eq_error_iff.2 (.inr ⟨hsource, ?_, rfl⟩), .inl ?_⟩
      · rwa [hsame]
      · rw [hsame]
    · exact ⟨_, validate_eq_error_iff.2 (.inl ⟨hsource, rfl⟩), .inr rfl⟩

end Settings

/-! ## Attempts to load settings -/

namespace Surroundings

open Settings

variable {s : Surroundings} {file : Table String String} {i : Invalid}

/-- If settings cannot be loaded, asking for the options in force does no more than trying. -/
lemma currentWith_of_error (hloaded : s.isLoaded = false)
    (h : (s.configureWith file).1 = .error i) : s.currentWith file = s.configureWith file := by
  rw [currentWith, if_neg (by simp [hloaded])]
  rcases hrun : s.configureWith file with ⟨_ | o, s'⟩
  · rfl
  · rw [hrun] at h
    cases h

lemma foldl_unset (names : List String) (s : Surroundings) : names.foldl unset s =
    { s with environment := names.foldl Environment.unset s.environment } := by
  induction names generalizing s with
  | nil => rfl
  | cons n names ih => exact ih (s.unset n)

/-- Where an attempt has failed, the next one fails too, whatever the file then says. -/
lemma configureWith_of_environment_eq (h : (s.configureWith file).1 = .error i)
    {later : Surroundings} (hlater : later.environment = (s.configureWith file).2.environment)
    (file' : Table String String) :
    ∃ j, (later.configureWith file').1 = .error j ∧ (j = i ∨ j.name = sourceTypeName) := by
  rw [configureWith] at h hlater ⊢
  dsimp only at h hlater ⊢
  rw [hlater]
  exact validate_load_of_error h file'

/-- **A failed attempt to load settings.**  It changes nothing but the environment, so that settings
count as loaded after it just if they did before.  The environment is what it was, with the
variables of the file added that were not set; without such variables it is the same as before, and
it is so again once they are removed.  Asking for the options in force fails in the same way, unless
settings have been loaded already.  As long as the environment stays, every later attempt fails as
well, whatever the file then says: with the same complaint, or else with one about a kind of source.
So does asking for the options in force while settings do not count as loaded; where they do, the
options are read from the environment and not looked at again. -/
theorem configure_of_invalid {s : Surroundings} {file : Table String String} {i : Invalid}
    (hfile : file.keys.Nodup) (h : (s.configureWith file).1 = .error i) :
    (∃ new : Environment,
      (s.configureWith file).2 = { s with environment := s.environment ++ new } ∧
      (∀ name value, (name, value) ∈ new ↔
        file.get? name = some value ∧ s.environment.get? name = none) ∧
      new.keys.foldl unset (s.configureWith file).2 = s) ∧
    ((∀ name, file.has name = true → s.environment.has name = true) →
      (s.configureWith file).2 = s) ∧
    (s.isLoaded = false → s.currentWith file = s.configureWith file) ∧
    ∀ later : Surroundings, later.environment = (s.configureWith file).2.environment →
      ∀ file' : Table String String,
        (∃ j, (later.configureWith file').1 = .error j ∧ (j = i ∨ j.name = sourceTypeName)) ∧
        (later.isLoaded = false →
          ∃ j, (later.currentWith file').1 = .error j ∧ (j = i ∨ j.name = sourceTypeName)) ∧
        (later.isLoaded = true →
          later.currentWith file' = (.ok (options later.environment), later)) := by
  have hrun : s.configureWith file = (validate (options (load s.environment file)),
      { s with environment := load s.environment file }) := rfl
  refine ⟨⟨added s.environment file, ?_, fun _ _ => mem_added_iff hfile, ?_⟩, fun hset => ?_,
    fun hloaded => currentWith_of_error hloaded h, fun later henv file' => ?_⟩
  · rw [hrun, load_eq_append hfile]
  · rw [foldl_unset, hrun]
    exact congrArg (fun e => { s with environment := e }) (foldl_unset_load hfile _)
  · rw [hrun, load_eq_append hfile, added_eq_nil hset, List.append_nil]
  · obtain ⟨j, hj, hcause⟩ := configureWith_of_environment_eq h henv file'
    refine ⟨⟨j, hj, hcause⟩, fun hloaded => ⟨j, ?_, hcause⟩, fun hloaded => if_pos hloaded⟩
    rw [currentWith_of_error hloaded hj, hj]

/-- A settings file that asks for a mode. -/
def modeFile (mode : String) : Table String String := [(traceModeName, mode)]

/-- The surroundings in which nothing is set, after loading a file that asks for a mode that there
is not. -/
def strayed : Surroundings := (({} : Surroundings).configureWith (modeFile "sideways")).2

theorem configure_of_invalid_sideways :
    (({} : Surroundings).configureWith (modeFile "sideways")).1 =
        .error ⟨traceModeName, traceModes, "sideways"⟩ ∧
      (∃ new : Environment, strayed = { environment := new } ∧
        new.keys.foldl unset strayed = {}) ∧
      ∀ file, ∃ j, (strayed.configureWith file).1 = .error j := by
  have h : (({} : Surroundings).configureWith (modeFile "sideways")).1 =
      .error ⟨traceModeName, traceModes, "sideways"⟩ := by
    decide +kernel
  obtain ⟨⟨new, hnew, -, hundone⟩, -, -, hlater⟩ :=
    configure_of_invalid (by decide : (modeFile "sideways").keys.Nodup) h
  refine ⟨h, ⟨new, hnew, hundone⟩, fun file => ?_⟩
  obtain ⟨⟨j, hj, -⟩, -⟩ := hlater strayed rfl file
  exact ⟨j, hj⟩

/-- A failed attempt makes a difference: the mode that there is not stays in the environment, and a
settings file that is mended afterwards is of no use, though it would have been before. -/
theorem stray_mode_stays :
    (({} : Surroundings).configureWith (modeFile "sideways")).1 =
        .error ⟨traceModeName, traceModes, "sideways"⟩ ∧
      ({} : Surroundings).environment.get? traceModeName = none ∧
      strayed.environment.get? traceModeName = some "sideways" ∧
      (strayed.configureWith (modeFile "all")).1 =
        .error ⟨traceModeName, traceModes, "sideways"⟩ ∧
      (({} : Surroundings).configureWith (modeFile "all")).1 = .ok { traceMode := "all" } := by
  decide +kernel

end Surroundings

end RefFlow
