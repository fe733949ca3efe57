import RefFlow.Proofs.Fallible
import RefFlow.Search

/-!
# Searches that finish

A search finds things until it is done or breaks off.  `Search.Finishes` says that it does not break
off, and the lemmas here say when that is the case for searches put together from others, and what
is found then: a search that goes on from each find of another finishes exactly if the other one
does and all continuations do (`finishes_bind`), and finds what the continuations find
(`mem_toList_bind`).
-/

namespace RefFlow.Search

open Fallible

variable {α β σ : Type} {s t : Search α}

/-- The search does not break off. -/
def Finishes : Search α → Prop
  | done => True
  | broken _ => False
  | found _ rest => rest.Finishes

lemma Finishes.toExcept (h : s.Finishes) : s.toExcept = .ok s.toList := by
  induction s with
  | done => rfl
  | broken f => cases h
  | found a rest ih => rw [Search.toExcept, ih h, toList, Except.map]

/-- A search finishes exactly if it has a result, which is then all that it finds. -/
lemma toExcept_ok_iff {as : List α} : s.toExcept = .ok as ↔ s.Finishes ∧ s.toList = as := by
  constructor
  · intro h
    have hs : s.Finishes := by
      induction s generalizing as with
      | done => trivial
      | broken f => cases h
      | found a rest ih =>
        obtain ⟨bs, hbs, -⟩ := map_ok_iff.1 h
        exact ih hbs
    exact ⟨hs, Except.ok.inj (hs.toExcept.symm.trans h)⟩
  · rintro ⟨hs, rfl⟩
    exact hs.toExcept

/-! ## One search after the other -/

@[simp] lemma finishes_append : (s ++ t).Finishes ↔ s.Finishes ∧ t.Finishes := by
  induction s with
  | done => simp [Finishes]
  | broken f => simp [Finishes]
  | found a rest ih => simpa [Finishes] using ih

lemma mem_toList_append_left {a : α} (h : a ∈ s.toList) : a ∈ (s ++ t).toList := by
  induction s with
  | done | broken => cases h
  | found b rest ih =>
    rcases List.mem_cons.1 h with rfl | h
    · exact List.mem_cons_self
    · exact List.mem_cons_of_mem b (ih h)

lemma mem_toList_append_right {a : α} (hs : s.Finishes) (h : a ∈ t.toList) :
    a ∈ (s ++ t).toList := by
  induction s with
  | done => exact h
  | broken f => cases hs
  | found b rest ih => exact List.mem_cons_of_mem b (ih hs)

lemma toExcept_append :
    (s ++ t).toExcept = do return (← s.toExcept) ++ (← t.toExcept) := by
  induction s with
  | done =>
    rw [done_append, toExcept]
    cases t.toExcept <;> rfl
  | broken f => rfl
  | found a rest ih =>
    rw [found_append, toExcept, ih, toExcept]
    cases rest.toExcept with
    | error f => rfl
    | ok as => cases t.toExcept <;> rfl

lemma filterMap_append (f : α → Option β) :
    (s ++ t).filterMap f = s.filterMap f ++ t.filterMap f := by
  induction s with
  | done | broken => rfl
  | found a rest ih =>
    rw [found_append, filterMap, filterMap, ih]
    split <;> rfl

/-- A search that goes on from each find finishes if all its parts do. -/
lemma finishes_bind {k : α → Search β} :
    (s >>= k).Finishes ↔ s.Finishes ∧ ∀ a ∈ s.toList, (k a).Finishes := by
  induction s with
  | done => simp [Finishes, toList]
  | broken f => simp [Finishes]
  | found a rest ih =>
    rw [found_bind, finishes_append, ih]
    simp only [Finishes, toList, List.forall_mem_cons]
    exact and_left_comm

/-- A search that goes on from each find, and finishes, finds what any of its parts finds. -/
lemma mem_toList_bind {k : α → Search β} (h : (s >>= k).Finishes) {a : α} {b : β}
    (ha : a ∈ s.toList) (hb : b ∈ (k a).toList) : b ∈ (s >>= k).toList := by
  induction s with
  | done | broken => cases ha
  | found c rest ih =>
    rw [found_bind] at h ⊢
    obtain ⟨hc, hrest⟩ := finishes_append.1 h
    rcases List.mem_cons.1 ha with rfl | ha
    · exact mem_toList_append_left hb
    · exact mem_toList_append_right hc (ih hrest ha)

/-! ## Lists and single results -/

@[simp] lemma finishes_ofList (as : List α) : (ofList as).Finishes := by
  induction as with
  | nil => trivial
  | cons a as ih => exact ih

@[simp] lemma toList_ofList (as : List α) : (ofList as).toList = as := by
  induction as with
  | nil => rfl
  | cons a as ih => rw [ofList, toList, ih]

@[simp] lemma liftM_ok (a : α) : (liftM (.ok a : Except Fault α) : Search α) = found a done := rfl

@[simp] lemma liftM_error (f : Fault) : (liftM (.error f : Except Fault α) : Search α) = broken f :=
  rfl

/-- The search goes on from a single result. -/
lemma liftM_ok_bind {x : Except Fault α} {a : α} (h : x = .ok a) (k : α → Search β) :
    ((liftM x : Search α) >>= k) = k a := by
  rw [h, liftM_ok, found_bind, done_bind, append_done]

lemma exists_of_mem_liftM_bind {x : Except Fault α} {k : α → Search β} {b : β}
    (h : b ∈ ((liftM x : Search α) >>= k).toList) : ∃ a, x = .ok a ∧ b ∈ (k a).toList := by
  cases x with
  | error f => cases h
  | ok a => exact ⟨a, rfl, by rwa [liftM_ok_bind rfl] at h⟩

lemma mem_toList_filterMap {f : α → Option β} {b : β} (h : b ∈ (s.filterMap f).toList) :
    ∃ a ∈ s.toList, f a = some b := by
  induction s with
  | done | broken => cases h
  | found a rest ih =>
    rw [filterMap] at h
    split at h
    · rename_i c hc
      rcases List.mem_cons.1 h with rfl | h
      · exact ⟨a, List.mem_cons_self, hc⟩
      · obtain ⟨a', ha', hf⟩ := ih h
        exact ⟨a', List.mem_cons_of_mem a ha', hf⟩
    · obtain ⟨a', ha', hf⟩ := ih h
      exact ⟨a', List.mem_cons_of_mem a ha', hf⟩

lemma toExcept_filterMap (f : α → Option β) :
    (s.filterMap f).toExcept = s.toExcept.map (List.filterMap f) := by
  induction s with
  | done | broken => rfl
  | found a rest ih =>
    rw [filterMap, toExcept]
    cases hf : f a <;> cases hrest : rest.toExcept <;>
      simp [toExcept, ih, hf, hrest, Except.map]

/-! ## What all finds satisfy -/

/-- All that is found satisfies the condition, whether or not the search breaks off. -/
def All (P : α → Prop) (s : Search α) : Prop := ∀ a ∈ s.toList, P a

variable {P : α → Prop} {Q : β → Prop}

lemma all_done : All P done := nofun

lemma all_broken {f : Fault} : All P (broken f) := nofun

lemma all_pure {a : α} (h : P a) : All P (pure a) := by
  intro b hb
  rwa [List.mem_singleton.1 hb]

lemma all_ofList {as : List α} (h : ∀ a ∈ as, P a) : All P (ofList as) := by
  intro a ha
  rw [toList_ofList] at ha
  exact h a ha

lemma All.append (hs : All P s) (ht : All P t) : All P (s ++ t) := fun a ha =>
  (mem_toList_append ha).elim (hs a) (ht a)

lemma All.bind {k : α → Search β} (hs : All P s) (hk : ∀ a, P a → All Q (k a)) :
    All Q (s >>= k) := by
  intro b hb
  obtain ⟨a, ha, hb⟩ := exists_of_mem_toList_bind hb
  exact hk a (hs a ha) b hb

lemma All.map {f : α → β} (hs : All P s) (hf : ∀ a, P a → Q (f a)) : All Q (f <$> s) :=
  hs.bind fun a ha => all_pure (hf a ha)

lemma all_liftM_bind {x : Except Fault α} {k : α → Search β} (h : ∀ a, x = .ok a → All Q (k a)) :
    All Q ((liftM x : Search α) >>= k) := by
  intro b hb
  obtain ⟨a, ha, hb⟩ := exists_of_mem_liftM_bind hb
  exact h a ha b hb

/-! ## Handling what is found -/

/-- Handling the finds one by one succeeds if the search finishes and all of them can be handled. -/
lemma foldM_ok_iff {step : σ → α → Except Fault σ} {x y : σ} :
    s.foldM step x = .ok y ↔ s.Finishes ∧ s.toList.foldlM step x = .ok y := by
  induction s generalizing x with
  | done => simp [foldM, Finishes, toList, pure, Except.pure]
  | broken f => simp [foldM, Finishes]
  | found a rest ih =>
    rw [foldM, bind_ok_iff, toList, List.foldlM_cons, bind_ok_iff]
    simp only [ih, Finishes]
    constructor
    · rintro ⟨z, hz, hf, hy⟩
      exact ⟨hf, z, hz, hy⟩
    · rintro ⟨hf, z, hz, hy⟩
      exact ⟨z, hz, hf, hy⟩

end RefFlow.Search
