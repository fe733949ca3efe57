import Mathlib.Data.List.Forall2
import RefFlow.Tree.Basic

/-!
# Computations that may fail

Almost every function of the analyses gives a result or the `Fault` that prevented it, and is
written as a sequence of steps.  This module has three ways to reason about such sequences.

*Inversion.*  `bind_ok_iff`, `map_ok_iff`, `pure_ok_iff` and `mapM_ok_iff` recover from the result
of the whole what each of its steps gave.

*Postconditions.*  `Gives x P` says that whatever result `x` has, it satisfies `P`.  The rules below
it follow the shape of a program: a sequence satisfies what its last step makes of the results of
those before.  A proof then goes down the program and needs no names for the steps that fail.

*Success.*  `exists_mapM_iff` and `exists_foldlM_iff` say when a step that is repeated succeeds each
time.

The last section reads off the parts of a node where they stand in the tree.
-/

namespace RefFlow

namespace Fallible

variable {ε α β σ : Type}

/-! ## Inversion -/

lemma bind_ok_iff {x : Except ε α} {k : α → Except ε β} {b : β} :
    (x >>= k) = .ok b ↔ ∃ a, x = .ok a ∧ k a = .ok b := by
  cases x with
  | error e => simp [bind, Except.bind]
  | ok a => simp [bind, Except.bind]

lemma ok_bind (a : α) (k : α → Except ε β) : ((.ok a : Except ε α) >>= k) = k a := rfl

lemma pure_ok_iff {a b : α} : (pure a : Except ε α) = .ok b ↔ a = b := by
  simp [pure, Except.pure]

lemma map_ok_iff {f : α → β} {x : Except ε α} {b : β} :
    f <$> x = .ok b ↔ ∃ a, x = .ok a ∧ f a = b := by
  cases x with
  | error e => simp [Functor.map, Except.map]
  | ok a => simp [Functor.map, Except.map]

lemma throw_ne_ok {e : ε} {b : β} : (throw e : Except ε β) ≠ .ok b := by
  intro h
  cases h

/-- What a computation is seen to give by evaluation, it gives. -/
lemma exists_ok_of_any {x : Except ε α} {P : α → Bool} (h : x.toOption.any P = true) :
    ∃ a, x = .ok a ∧ P a = true := by
  cases x with
  | error e => cases h
  | ok a => exact ⟨a, rfl, h⟩

/-- Evaluates a computation to see whether it fails, and how. -/
def failsWith [BEq ε] (e : ε) : Except ε α → Bool
  | .error e' => e' == e
  | .ok _ => false

lemma failsWith_iff [BEq ε] [LawfulBEq ε] {e : ε} {x : Except ε α} :
    failsWith e x = true ↔ x = .error e := by
  cases x <;> simp [failsWith]

/-- A step that is made for each member of a list has a result for each of them. -/
lemma mapM_ok_iff {f : α → Except ε β} {as : List α} {bs : List β} :
    as.mapM f = .ok bs ↔ List.Forall₂ (fun a b => f a = .ok b) as bs := by
  induction as generalizing bs with
  | nil => simp [pure, Except.pure, eq_comm]
  | cons a as ih =>
    simp only [List.mapM_cons, bind_ok_iff, pure_ok_iff, ih, List.forall₂_cons_left_iff]
    constructor
    · rintro ⟨b, hb, bs', hbs, rfl⟩
      exact ⟨b, bs', hb, hbs, rfl⟩
    · rintro ⟨b, bs', hb, hbs, rfl⟩
      exact ⟨b, hb, bs', hbs, rfl⟩

/-! ## Postconditions -/

/-- The result, if there is one, satisfies the condition. -/
def Gives (x : Except ε α) (P : α → Prop) : Prop := ∀ a, x = .ok a → P a

lemma gives_ok {a : α} {P : α → Prop} (h : P a) : Gives (.ok a : Except ε α) P := by
  intro b hb
  cases hb
  exact h

lemma gives_pure {a : α} {P : α → Prop} (h : P a) : Gives (pure a : Except ε α) P := gives_ok h

lemma gives_throw {e : ε} {P : α → Prop} : Gives (throw e : Except ε α) P :=
  fun _ h => absurd h throw_ne_ok

lemma gives_true {x : Except ε α} : Gives x fun _ => True := fun _ _ => trivial

lemma Gives.mono {x : Except ε α} {P Q : α → Prop} (h : Gives x P) (hPQ : ∀ a, P a → Q a) :
    Gives x Q :=
  fun a ha => hPQ a (h a ha)

lemma Gives.and {x : Except ε α} {P Q : α → Prop} (hP : Gives x P) (hQ : Gives x Q) :
    Gives x fun a => P a ∧ Q a :=
  fun a ha => ⟨hP a ha, hQ a ha⟩

lemma Gives.bind {x : Except ε α} {k : α → Except ε β} {P : α → Prop} {Q : β → Prop}
    (hx : Gives x P) (hk : ∀ a, P a → Gives (k a) Q) : Gives (x >>= k) Q := by
  intro b hb
  obtain ⟨a, ha, hb⟩ := bind_ok_iff.1 hb
  exact hk a (hx a ha) b hb

/-- A step with two cases, after both of which the program goes on in the same way. -/
lemma Gives.ite_bind {c : Prop} [Decidable c] {x y : Except ε α} {k : α → Except ε β}
    {P : α → Prop} {Q : β → Prop} (hx : c → Gives x P) (hy : ¬c → Gives y P)
    (hk : ∀ a, P a → Gives (k a) Q) : Gives (if c then x >>= k else y >>= k) Q := by
  split
  · rename_i hc
    exact (hx hc).bind hk
  · rename_i hc
    exact (hy hc).bind hk

lemma Gives.map {f : α → β} {x : Except ε α} {P : α → Prop} {Q : β → Prop}
    (hx : Gives x P) (hf : ∀ a, P a → Q (f a)) : Gives (f <$> x) Q := by
  intro b hb
  obtain ⟨a, ha, rfl⟩ := map_ok_iff.1 hb
  exact hf a (hx a ha)

/-- What a function gives for a member of a list stands in its place among the results. -/
lemma exists_of_mapM_ok {f : α → Except ε β} {as : List α} {bs : List β} (h : as.mapM f = .ok bs)
    {a : α} (ha : a ∈ as) : ∃ before b after, bs = before ++ b :: after ∧ f a = .ok b ∧
      ∀ c ∈ before, ∃ x ∈ as, f x = .ok c := by
  rw [mapM_ok_iff] at h
  induction h with
  | nil => cases ha
  | @cons x b xs bs hb _ ih =>
    rcases List.mem_cons.1 ha with rfl | ha
    · exact ⟨[], b, bs, rfl, hb, fun _ hc => (List.not_mem_nil hc).elim⟩
    · obtain ⟨before, c, after, rfl, hc, hbefore⟩ := ih ha
      refine ⟨b :: before, c, after, rfl, hc, fun d hd => ?_⟩
      rcases List.mem_cons.1 hd with rfl | hd
      · exact ⟨x, List.mem_cons_self, hb⟩
      · obtain ⟨y, hy, hd⟩ := hbefore d hd
        exact ⟨y, List.mem_cons_of_mem x hy, hd⟩

/-- What each step of a list gives holds of all members of its result. -/
lemma gives_mapM {f : α → Except ε β} {as : List α} {P : β → Prop}
    (h : ∀ a ∈ as, Gives (f a) P) : Gives (as.mapM f) fun bs => ∀ b ∈ bs, P b := by
  intro bs hbs
  rw [mapM_ok_iff] at hbs
  induction hbs with
  | nil => simp
  | cons hab _ ih =>
    intro b hb
    rcases List.mem_cons.1 hb with rfl | hb
    · exact h _ List.mem_cons_self b hab
    · exact ih (fun a ha => h a (List.mem_cons_of_mem _ ha)) b hb

/-- What every step of a run keeps, the whole run keeps. -/
lemma gives_foldlM {f : σ → α → Except ε σ} {P : σ → Prop} {as : List α} {s : σ}
    (step : ∀ s, ∀ a ∈ as, P s → Gives (f s a) P) (hs : P s) : Gives (as.foldlM f s) P := by
  induction as generalizing s with
  | nil => exact gives_pure hs
  | cons a as ih =>
    rw [List.foldlM_cons]
    exact (step s a List.mem_cons_self hs).bind fun t ht =>
      ih (fun s b hb => step s b (List.mem_cons_of_mem a hb)) ht

/-! ## Which results there are -/

/-- The results of a step that is made for each member of a list. -/
lemma mem_mapM_iff {f : α → Except ε β} {as : List α} {bs : List β} (h : as.mapM f = .ok bs)
    {b : β} : b ∈ bs ↔ ∃ a ∈ as, f a = .ok b := by
  rw [mapM_ok_iff] at h
  induction h with
  | nil => simp
  | @cons a c as bs hac _ ih => simp [ih, hac, eq_comm]

/-- A step that is made for each member of a list succeeds if it does for all of them. -/
lemma exists_mapM_iff {f : α → Except ε β} {as : List α} :
    (∃ bs, as.mapM f = .ok bs) ↔ ∀ a ∈ as, ∃ b, f a = .ok b := by
  induction as with
  | nil => simp [pure, Except.pure]
  | cons a as ih =>
    simp only [List.mapM_cons, bind_ok_iff, pure_ok_iff, List.forall_mem_cons, ← ih]
    constructor
    · rintro ⟨-, b, hb, bs, hbs, -⟩
      exact ⟨⟨b, hb⟩, bs, hbs⟩
    · rintro ⟨⟨b, hb⟩, bs, hbs⟩
      exact ⟨b :: bs, b, hb, bs, hbs, rfl⟩

/-- Where it does not depend on the state whether a step succeeds, a run succeeds if all its steps
do. -/
lemma exists_foldlM_iff {f : σ → α → Except ε σ} {I : σ → Prop} {P : α → Prop} {as : List α} {s : σ}
    (step : ∀ s, ∀ a ∈ as, I s → ((∃ t, f s a = .ok t) ↔ P a))
    (keeps : ∀ s, ∀ a ∈ as, I s → Gives (f s a) I) (hs : I s) :
    (∃ t, as.foldlM f s = .ok t) ↔ ∀ a ∈ as, P a := by
  induction as generalizing s with
  | nil => simp [pure, Except.pure]
  | cons a as ih =>
    have hrest {t : σ} (ht : I t) := ih (fun s b hb => step s b (List.mem_cons_of_mem a hb))
      (fun s b hb => keeps s b (List.mem_cons_of_mem a hb)) ht
    simp only [List.foldlM_cons, bind_ok_iff, List.forall_mem_cons]
    rw [← step s a List.mem_cons_self hs]
    constructor
    · rintro ⟨u, t, ht, hu⟩
      exact ⟨⟨t, ht⟩, (hrest (keeps s a List.mem_cons_self hs t ht)).1 ⟨u, hu⟩⟩
    · rintro ⟨⟨t, ht⟩, hall⟩
      obtain ⟨u, hu⟩ := (hrest (keeps s a List.mem_cons_self hs t ht)).2 hall
      exact ⟨u, t, ht, hu⟩

/-- What a step attains and no step undoes has been attained for all members in the end. -/
lemma attained_foldlM {f : σ → α → Except ε σ} {P : α → σ → Prop} {as : List α} {s t : σ}
    (attains : ∀ s, ∀ a ∈ as, Gives (f s a) (P a))
    (keeps : ∀ a s b, P a s → Gives (f s b) (P a)) (h : as.foldlM f s = .ok t) :
    ∀ a ∈ as, P a t := by
  induction as generalizing s with
  | nil => nofun
  | cons a as ih =>
    rw [List.foldlM_cons] at h
    obtain ⟨u, hu, h⟩ := bind_ok_iff.1 h
    refine List.forall_mem_cons.2 ⟨?_, ih (fun s b hb => attains s b (List.mem_cons_of_mem a hb)) h⟩
    exact gives_foldlM (fun s b _ => keeps a s b) (attains s a List.mem_cons_self u hu) t h

end Fallible

/-! ## Parts of a node -/

namespace Shape

open Fallible

variable {τ σ : Type} {s : Shape τ} {f : Field}

lemma mem_children_of_slot {v : Slot τ} {t : τ} (h : s.slot f = .ok v) (ht : t ∈ v.children) :
    t ∈ s.children := by
  unfold slot slot? at h
  split at h
  · rename_i w hw
    obtain rfl : w = v := by simpa using h
    obtain ⟨l₁, l₂, hl, -⟩ := List.lookup_eq_some_iff.1 hw
    simp only [children, hl, List.flatMap_append, List.flatMap_cons, List.mem_append]
    exact .inr (.inl ht)
  · cases h

/-- A node in a part of another one stands right below it. -/
lemma mem_children_of_child {t : τ} (h : s.child f = .ok (some t)) : t ∈ s.children := by
  obtain ⟨v, hv, h⟩ := bind_ok_iff.1 h
  refine mem_children_of_slot hv ?_
  cases v with
  | node u =>
    obtain rfl : u = t := by simpa [pure_ok_iff] using h
    exact List.mem_singleton_self u
  | _ => simp [pure_ok_iff] at h

/-- A member of a list in a part of a node stands right below the node. -/
lemma mem_children_of_items {ts : List (Option τ)} {t : τ} (h : s.items f = .ok ts)
    (ht : some t ∈ ts) : t ∈ s.children := by
  obtain ⟨v, hv, h⟩ := bind_ok_iff.1 h
  refine mem_children_of_slot hv ?_
  cases v with
  | list us =>
    obtain rfl : us = ts := by simpa [pure_ok_iff] using h
    exact List.mem_filterMap.2 ⟨some t, ht, rfl⟩
  | _ => exact absurd h throw_ne_ok

@[simp] lemma slot?_map (g : τ → σ) : (s.map g).slot? f = (s.slot? f).map (Slot.map g) := by
  simp only [slot?, map]
  induction s.fields with
  | nil => rfl
  | cons e fs ih =>
    obtain ⟨k, v⟩ := e
    rw [List.map_cons, List.lookup_cons, List.lookup_cons, ih]
    cases f == k <;> simp

@[simp] lemma text?_map (g : τ → σ) : (s.map g).text? f = s.text? f := by
  simp only [text?, slot, slot?_map, kind_map]
  cases s.slot? f with
  | none => rfl
  | some v => cases v <;> rfl

/-- What is put on the nodes below can be taken off again. -/
lemma map_map_of_leftInverse {g : τ → σ} {k : σ → τ} (h : Function.LeftInverse k g) (s : Shape τ) :
    (s.map g).map k = s := by
  have hslot (v : Slot τ) : (v.map g).map k = v := by
    cases v with
    | node t => exact congrArg Slot.node (h t)
    | list ts => simp [Slot.map, h.comp_eq_id]
    | _ => rfl
  obtain ⟨kind, span, fields⟩ := s
  simp [map, hslot, Function.comp_def]

/-- What becomes of a node depends only on what becomes of the nodes right below it. -/
lemma map_congr {s : Shape τ} {g k : τ → σ} (h : ∀ c ∈ s.children, g c = k c) :
    s.map g = s.map k := by
  have hslot (v : Slot τ) (hv : ∀ c ∈ v.children, g c = k c) : v.map g = v.map k := by
    cases v with
    | node t => exact congrArg Slot.node (hv t (List.mem_singleton_self t))
    | list ts =>
      refine congrArg Slot.list (List.map_congr_left fun t ht => ?_)
      cases t with
      | none => rfl
      | some c => exact congrArg some (hv c (List.mem_filterMap.2 ⟨some c, ht, rfl⟩))
    | _ => rfl
  unfold map
  refine congrArg (Shape.mk s.kind s.span) (List.map_congr_left fun e he => ?_)
  exact congrArg (Prod.mk e.1) (hslot e.2 fun c hc => h c (List.mem_flatMap.2 ⟨e, he, hc⟩))

/-- The parts of an annotated node are those of the node, annotated. -/
lemma child_map (g : τ → σ) (s : Shape τ) (f : Field) :
    (s.map g).child f = Option.map g <$> s.child f := by
  simp only [child, slot, slot?_map, kind_map]
  cases s.slot? f with
  | none => rfl
  | some v => cases v <;> rfl

lemma items_map (g : τ → σ) (s : Shape τ) (f : Field) :
    (s.map g).items f = List.map (Option.map g) <$> s.items f := by
  simp only [items, slot, slot?_map, kind_map]
  cases s.slot? f with
  | none => rfl
  | some v => cases v <;> rfl

@[simp] lemma flag_map (g : τ → σ) : (s.map g).flag f = s.flag f := by
  simp only [flag, slot, slot?_map, kind_map]
  cases s.slot? f with
  | none => rfl
  | some v => cases v <;> rfl

end Shape

end RefFlow
