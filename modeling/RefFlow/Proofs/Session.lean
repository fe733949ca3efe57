import Mathlib.Tactic.Common
import RefFlow.Proofs.Trace.Aliases
import RefFlow.Session

/-!
# What earlier questions leave behind

A session keeps what it extracts, and a question about extracted references is answered from what is
kept.  It has to be shown that this can be seen by no one, whatever was asked before and whatever
failed: that under each kind the cache holds nothing, or else exactly what the program gives
(`Cache.Recalls`).  Every question keeps this up (`Remembers.ask`), so it holds after any history
(`Remembers.askAll`), and `askAll_eq_fresh` reads off what each question of a history is answered.

Only questions about properties may depend on the history: they refer to earlier answers and share
an extractor that remembers what it has visited.
-/

namespace RefFlow

open Fallible Session

/-! ## Looking into the cache -/

namespace Cache

section

variable {π β : Type} (c : Cache π β) (kind other : String) (program : π)

/-- A place for results holds none. -/
lemma bucket_withKind : (c.withKind kind).bucket other = c.bucket other := by
  unfold withKind
  split
  · rfl
  · rename_i hhas
    have hnone : c.entries.get? kind = none := by simpa [Table.has] using hhas
    simp only [bucket, Table.get?_set, beq_iff_eq]
    by_cases h : kind = other
    · subst h
      simp [hnone]
    · simp [h]

variable [BEq π]

lemma bucket_store (result : Option β) : (c.store kind program result).bucket other =
    if kind = other then (c.bucket kind).set program result else c.bucket other := by
  simp only [bucket, store, Table.get?_set, beq_iff_eq]
  by_cases h : kind = other <;> simp [h]

lemma get?_withKind : (c.withKind kind).get? other program = c.get? other program := by
  rw [get?, bucket_withKind, get?]

lemma has_withKind : (c.withKind kind).has other program = c.has other program := by
  rw [has, bucket_withKind, has]

variable [LawfulBEq π]

lemma get?_store (result : Option β) : (c.store kind program result).get? other program =
    if kind = other then result else c.get? other program := by
  rw [get?, bucket_store]
  by_cases h : kind = other
  · subst h
    simp [Table.get?_set]
  · simp [h, get?]

lemma has_store (result : Option β) : (c.store kind program result).has other program =
    (decide (kind = other) || c.has other program) := by
  rw [has, bucket_store]
  by_cases h : kind = other
  · subst h
    simp [Table.has, Table.get?_set]
  · simp [h, has]

end

end Cache

/-! ## Kinds of results -/

namespace Query

/-- The kind of results that a question is answered by. -/
def kind? : Query → Option String
  | refRecord _ | refHas _ | refChain _ | refDerivation | refCount => some refObjectKind
  | reactiveRecord _ | reactiveHas _ | reactiveCount => some reactiveKind
  | _ => none

/-- The question is about the properties of an object. -/
def IsAboutProperties : Query → Prop
  | patternProperties _ | expressionProperties _ | mergeProperties _ | nests _ _ => True
  | _ => False

end Query

namespace Program

/-- What is extracted from a program under a kind, if the extraction does not fail. -/
def extracted (p : Program) (kind : String) : Option Extraction :=
  if kind = refObjectKind then (RefObject.extract p).toOption.map .refObjects
  else if kind = reactiveKind then (Reactive.extract p).toOption.map .reactive
  else none

end Program

/-- The question makes the session extract results of the kind, and this does not fail. -/
def Query.Extracts (p : Program) (kind : String) (q : Query) : Prop :=
  q.kind? = some kind ∧ (p.extracted kind).isSome

namespace Cache

/-- The cache holds what is extracted from the program under the given kinds, and nothing else. -/
structure Recalls (p : Program) (kinds : List String) (c : Cache Unit Extraction) : Prop where
  get? : ∀ kind, c.get? kind () = if kind ∈ kinds then p.extracted kind else none
  /-- Nothing is stored that is not a result. -/
  has : ∀ kind, c.has kind () = (c.get? kind ()).isSome

lemma recalls_empty (p : Program) : Recalls p [] {} := ⟨fun _ => rfl, fun _ => rfl⟩

variable {p : Program} {kinds : List String} {c : Cache Unit Extraction} {kind : String}

/-- A failed extraction makes a place for its results, and nothing more. -/
lemma Recalls.withKind (h : c.Recalls p kinds) (hnone : p.extracted kind = none) :
    (c.withKind kind).Recalls p (kind :: kinds) := by
  constructor
  · intro other
    rw [get?_withKind, h.get? other]
    by_cases ho : other = kind
    · subst ho
      simp [hnone]
    · simp [ho]
  · intro other
    rw [get?_withKind, has_withKind]
    exact h.has other

lemma Recalls.store (h : c.Recalls p kinds) {a : Extraction} (hsome : p.extracted kind = some a) :
    (c.store kind () (some a)).Recalls p (kind :: kinds) := by
  constructor
  · intro other
    rw [get?_store, h.get? other]
    by_cases ho : kind = other
    · subst ho
      simp [hsome]
    · simp [ho, Ne.symm ho]
  · intro other
    rw [get?_store, has_store, h.has other]
    by_cases ho : kind = other <;> simp [ho]

lemma Recalls.cons_of_mem (h : c.Recalls p kinds) (hk : kind ∈ kinds) :
    c.Recalls p (kind :: kinds) := by
  refine ⟨fun other => ?_, h.has⟩
  have hmem : other ∈ kind :: kinds ↔ other ∈ kinds := by
    rw [List.mem_cons, or_iff_right_of_imp]
    rintro rfl
    exact hk
  simp only [h.get? other, hmem]

/-- Asking for results gives what is extracted from the program, whether it is there already or
not, and leaves a cache that recalls it unless the extraction fails. -/
lemma Recalls.getOrCompute (h : c.Recalls p kinds) {x : Except Fault Extraction}
    (hx : p.extracted kind = x.toOption) :
    (c.getOrCompute kind () fun _ => some <$> x).1 = some <$> x ∧
      (c.getOrCompute kind () fun _ => some <$> x).2.Recalls p (kind :: kinds) := by
  have hget := h.get? kind
  rw [hx] at hget
  cases x with
  | error e =>
    have hnone : c.get? kind () = none := hget.trans (ite_self _)
    rw [Cache.getOrCompute, hnone]
    exact ⟨rfl, h.withKind hx⟩
  | ok a =>
    by_cases hk : kind ∈ kinds
    · rw [Cache.getOrCompute, hget, if_pos hk]
      exact ⟨rfl, h.cons_of_mem hk⟩
    · rw [Cache.getOrCompute, hget, if_neg hk]
      exact ⟨rfl, h.store hx⟩

end Cache

/-! ## Along a history -/

namespace Session

/-- The session that nothing has been asked yet. -/
def fresh (p : Program) : Session := { program := p }

/-- The session is about the program, and recalls what the questions asked so far were answered
by. -/
structure Remembers (p : Program) (asked : List Query) (s : Session) : Prop where
  program : s.program = p
  cache : s.cache.Recalls p (asked.filterMap Query.kind?).reverse

variable {p : Program} {asked : List Query} {s : Session} {q : Query}

lemma remembers_fresh (p : Program) : Remembers p [] (fresh p) := ⟨rfl, Cache.recalls_empty p⟩

/-- A question that is answered by results leaves those of its kind in the cache. -/
lemma Remembers.concat_kind {kind : String} {t : Session} (hq : q.kind? = some kind)
    (hp : t.program = p) (hc : t.cache.Recalls p (kind :: (asked.filterMap Query.kind?).reverse)) :
    Remembers p (asked ++ [q]) t := by
  refine ⟨hp, ?_⟩
  have hkinds : ((asked ++ [q]).filterMap Query.kind?).reverse =
      kind :: (asked.filterMap Query.kind?).reverse := by simp [hq]
  rw [hkinds]
  exact hc

/-- Any other question leaves the cache as it is. -/
lemma Remembers.concat_none (h : Remembers p asked s) {t : Session} (hq : q.kind? = none)
    (hp : t.program = s.program) (hc : t.cache = s.cache) : Remembers p (asked ++ [q]) t := by
  refine ⟨hp.trans h.program, ?_⟩
  rw [List.filterMap_append, hc, List.filterMap_cons_none hq, List.filterMap_nil, List.append_nil]
  exact h.cache

/-! ### References that are kept -/

lemma extracted_refObjectKind (p : Program) : p.extracted refObjectKind =
    (Extraction.refObjects <$> RefObject.extract p).toOption := by
  rw [Program.extracted, if_pos rfl]
  cases RefObject.extract p <;> rfl

lemma extracted_reactiveKind (p : Program) : p.extracted reactiveKind =
    (Extraction.reactive <$> Reactive.extract p).toOption := by
  rw [Program.extracted, if_neg (by decide), if_pos rfl]
  cases Reactive.extract p <;> rfl

/-- References to ref objects are those that the program gives, and are kept. -/
lemma Remembers.refObjects (h : Remembers p asked s) : s.refObjects.1 = RefObject.extract p ∧
    ∀ q : Query, q.kind? = some refObjectKind → Remembers p (asked ++ [q]) s.refObjects.2 := by
  obtain rfl : p = s.program := h.program.symm
  obtain ⟨hresult, hcache⟩ := h.cache.getOrCompute (extracted_refObjectKind s.program)
  rw [← comp_map] at hresult hcache
  refine ⟨Eq.trans (congrArg (Except.map _) hresult) ?_, fun q hq => .concat_kind hq rfl hcache⟩
  cases RefObject.extract s.program <;> rfl

/-- References to reactive variables are those that the program gives, and are kept. -/
lemma Remembers.reactives (h : Remembers p asked s) : s.reactives.1 = Reactive.extract p ∧
    ∀ q : Query, q.kind? = some reactiveKind → Remembers p (asked ++ [q]) s.reactives.2 := by
  obtain rfl : p = s.program := h.program.symm
  obtain ⟨hresult, hcache⟩ := h.cache.getOrCompute (extracted_reactiveKind s.program)
  rw [← comp_map] at hresult hcache
  refine ⟨Eq.trans (congrArg (Except.map _) hresult) ?_, fun q hq => .concat_kind hq rfl hcache⟩
  cases Reactive.extract s.program <;> rfl

lemma Remembers.askRefObjects (h : Remembers p asked s) (f : RefObject.Findings → Answer) :
    (s.askRefObjects f).1 = (RefObject.extract p).map f :=
  congrArg (Except.map f) h.refObjects.1

lemma Remembers.askReactives (h : Remembers p asked s) (f : Reactive.Findings → Answer) :
    (s.askReactives f).1 = (Reactive.extract p).map f :=
  congrArg (Except.map f) h.reactives.1

/-! ### One question -/

/-- Whatever is asked, the session goes on remembering. -/
lemma Remembers.reply (h : Remembers p asked s) (q : Query) :
    Remembers p (asked ++ [q]) (s.reply q).2 := by
  cases q with
  | refRecord | refHas | refChain | refDerivation | refCount => exact h.refObjects.2 _ rfl
  | reactiveRecord | reactiveHas | reactiveCount => exact h.reactives.2 _ rfl
  | patternProperties node =>
    cases node with
    | none => exact h.concat_none rfl rfl rfl
    | some n =>
      unfold Session.reply
      dsimp only
      split <;> exact h.concat_none rfl rfl rfl
  | expressionProperties n =>
    unfold Session.reply
    dsimp only
    split <;> exact h.concat_none rfl rfl rfl
  | _ => exact h.concat_none rfl rfl rfl

lemma Remembers.ask (h : Remembers p asked s) (q : Query) :
    Remembers p (asked ++ [q]) (s.ask q).2 := by
  have hs := h.reply q
  exact ⟨hs.program, hs.cache⟩

/-- The answer is the same as if nothing had been asked before. -/
lemma Remembers.ask_eq_fresh (h : Remembers p asked s) (hcached : ∀ kind, q ≠ .cached kind)
    (hq : ¬q.IsAboutProperties) : (s.ask q).1 = ((fresh p).ask q).1 := by
  obtain rfl : p = s.program := h.program.symm
  have hfresh := remembers_fresh s.program
  cases q with
  | refRecord | refHas | refChain | refDerivation | refCount =>
    exact (h.askRefObjects _).trans (hfresh.askRefObjects _).symm
  | reactiveRecord | reactiveHas | reactiveCount =>
    exact (h.askReactives _).trans (hfresh.askReactives _).symm
  | cached kind => exact absurd rfl (hcached kind)
  | patternProperties | expressionProperties | mergeProperties | nests => exact absurd trivial hq
  -- The others look at nothing but the program.
  | _ => rfl

/-- What has been extracted is what some question so far made the session extract. -/
lemma Remembers.ask_cached (h : Remembers p asked s) (kind : String) :
    ∃ b, (s.ask (.cached kind)).1 = .ok (.cached b b) ∧
      (b = true ↔ ∃ q ∈ asked, q.Extracts p kind) := by
  refine ⟨(s.cache.get? kind ()).isSome, ?_, ?_⟩
  · show Except.ok (Answer.cached (s.cache.has kind ()) _) = _
    rw [h.cache.has]
  · rw [h.cache.get?]
    by_cases hk : kind ∈ (asked.filterMap Query.kind?).reverse
    · rw [if_pos hk]
      obtain ⟨q, hq, hkind⟩ := List.mem_filterMap.1 (List.mem_reverse.1 hk)
      exact ⟨fun hsome => ⟨q, hq, hkind, hsome⟩, fun ⟨_, _, _, hsome⟩ => hsome⟩
    · rw [if_neg hk]
      constructor
      · exact fun hnone => by cases hnone
      · rintro ⟨q, hq, hkind, -⟩
        exact absurd (List.mem_reverse.2 (List.mem_filterMap.2 ⟨q, hq, hkind⟩)) hk

/-! ### All questions -/

/-- Each question of a history is asked of a session that remembers the questions before it. -/
lemma Remembers.askAll (h : Remembers p asked s) {qs : List Query} {i : Nat}
    (hq : qs[i]? = some q) :
    ∃ t, Remembers p (asked ++ qs.take i) t ∧ (s.askAll qs)[i]? = some (t.ask q).1 := by
  induction qs generalizing asked s i with
  | nil => cases hq
  | cons q₀ qs ih =>
    cases i with
    | zero =>
      cases hq
      exact ⟨s, by simpa using h, rfl⟩
    | succ i =>
      obtain ⟨t, ht, ha⟩ := ih (h.ask q₀) hq
      refine ⟨t, ?_, ha⟩
      simpa using ht

/-- **Answers do not depend on the history.**  Whatever is asked of a session, in any order and
whether or not it fails, a question that is not about properties has the answer or the fault that it
has when nothing was asked before.  The question whether results of a kind are there is answered by
yes exactly if an earlier question made the session extract them and this did not fail. -/
theorem askAll_eq_fresh (p : Program) {qs : List Query} {i : Nat} {q : Query}
    (hq : qs[i]? = some q) :
    ((∀ kind, q ≠ .cached kind) → ¬q.IsAboutProperties →
      ((fresh p).askAll qs)[i]? = some ((fresh p).ask q).1) ∧
    ∀ kind, q = .cached kind → ∃ b, ((fresh p).askAll qs)[i]? = some (.ok (.cached b b)) ∧
      (b = true ↔ ∃ j < i, ∃ q', qs[j]? = some q' ∧ q'.Extracts p kind) := by
  obtain ⟨s, hs, ha⟩ := (remembers_fresh p).askAll hq
  rw [ha]
  constructor
  · intro hcached hproperties
    rw [hs.ask_eq_fresh hcached hproperties]
  · rintro kind rfl
    obtain ⟨b, hb, hiff⟩ := hs.ask_cached kind
    refine ⟨b, congrArg some hb, hiff.trans ?_⟩
    rw [List.nil_append]
    constructor
    · rintro ⟨q', hmem, hextracts⟩
      obtain ⟨j, hj, hget⟩ := List.mem_take_iff_getElem.1 hmem
      exact ⟨j, by omega, q', by rw [← hget]; exact List.getElem?_eq_getElem _, hextracts⟩
    · rintro ⟨j, hj, q', hget, hextracts⟩
      obtain ⟨hlt, hget⟩ := List.getElem?_eq_some_iff.1 hget
      exact ⟨q', List.mem_take_iff_getElem.2 ⟨j, by omega, hget⟩, hextracts⟩

/-- In a program whose ref objects cannot be extracted, two questions that need them fail.  This is
no obstacle to the references to reactive variables, and only these are there afterwards. -/
theorem askAll_usingProgram : ∃ p, Trace.usingProgram = .ok p ∧
    let history : List Query := [.refCount, .reactiveHas 3, .refHas 3, .reactiveCount,
      .cached refObjectKind, .cached reactiveKind]
    ((fresh p).askAll history)[2]? =
        some (.error (.missingField .variableDeclarator .init)) ∧
      ((fresh p).askAll history)[3]? = some (.ok (.count 0)) ∧
      ((fresh p).askAll history)[4]? = some (.ok (.cached false false)) ∧
      ((fresh p).askAll history)[5]? = some (.ok (.cached true true)) := by
  have hall : Trace.usingProgram.toOption.any fun p =>
      failsWith (.missingField .variableDeclarator .init) (RefObject.extract p) &&
        (Reactive.extract p).toOption.any fun f => f.records.length == 0 := by decide +kernel
  obtain ⟨p, hp, hall⟩ := exists_ok_of_any hall
  obtain ⟨hrefs, hall⟩ := Bool.and_eq_true_iff.1 hall
  obtain ⟨f, hf, hcount⟩ := exists_ok_of_any hall
  have hrefs := failsWith_iff.1 hrefs
  refine ⟨p, hp, ?_⟩
  intro history
  have hrefHas : history[2]? = some (.refHas 3) := rfl
  have hreactiveCount : history[3]? = some .reactiveCount := rfl
  have hrefCached : history[4]? = some (.cached refObjectKind) := rfl
  have hreactiveCached : history[5]? = some (.cached reactiveKind) := rfl
  refine ⟨?_, ?_, ?_, ?_⟩
  · rw [(askAll_eq_fresh p hrefHas).1 (by simp) id]
    exact congrArg some (((remembers_fresh p).askRefObjects _).trans (by rw [hrefs]; rfl))
  · rw [(askAll_eq_fresh p hreactiveCount).1 (by simp) id]
    exact congrArg some (((remembers_fresh p).askReactives _).trans
      (by rw [hf, ← beq_iff_eq.1 hcount]; rfl))
  · obtain ⟨b, hb, hiff⟩ := (askAll_eq_fresh p hrefCached).2 _ rfl
    have hnone : ¬(p.extracted refObjectKind).isSome := by
      rw [extracted_refObjectKind, hrefs]
      exact Bool.false_ne_true
    cases b with
    | false => exact hb
    | true =>
      obtain ⟨j, -, q, -, -, hsome⟩ := hiff.1 rfl
      exact absurd hsome hnone
  · obtain ⟨b, hb, hiff⟩ := (askAll_eq_fresh p hreactiveCached).2 _ rfl
    have hsome : (p.extracted reactiveKind).isSome := by
      rw [extracted_reactiveKind, hf]
      rfl
    rw [hiff.2 ⟨1, by omega, .reactiveHas 3, rfl, rfl, hsome⟩] at hb
    exact hb

end Session

end RefFlow
