import Mathlib.Data.List.Nodup
import RefFlow.Proofs.Fallible

/-!
# Computations without a bound

The analyses follow values in circles, and are kept from going round for ever only by what they mark
on their way: a thing that is marked is not entered again.  They are defined with a budget for the
things that are not marked.  To say that the budget is never used up, they are written down once
more without one, as functions that call each other freely, and shown to come to an end as those
with the budget do.

Nothing is presupposed about such functions.  They are given by the attempts to carry them out with
calls that nest only so deep; an attempt that would have to go deeper is given up, and has no
result.  That the functions come to an end (`Unbounded.Ends`) means that attempts which may go deep
enough succeed, all in the same way.

What all these proofs share is here: the rules for `Ends`, and how marks are counted.

* `Ledger.Extends` says what a part of a computation does to the marks, and to the account of what
  has been entered: nothing is entered twice, and nothing that was marked before.
* `Unmarked` is what a budget has to suffice for.
-/

namespace RefFlow

variable {α β σ τ : Type}

/-- An attempt at a computation that keeps a state.  It may break off with a fault, and it may be
given up, so that it has no result. -/
abbrev Attempt (σ : Type) := ExceptT Fault (StateT σ Option)

namespace Attempt

/-- The attempt is given up. -/
def giveUp : Attempt σ α := ExceptT.mk fun _ => none

/-- The attempt with what it comes to as its result, also if that is a fault. -/
def caught (x : Attempt σ α) : Attempt σ (Except Fault α) := ExceptT.lift x.run

/-- The attempt with a state of its own. -/
def apart (x : Attempt τ α) (t : τ) : Attempt σ α :=
  ExceptT.mk fun s => (x.run.run t).map fun y => (y.1, s)

lemma run_get_bind (k : σ → Attempt σ β) (s : σ) : (get >>= k).run.run s = (k s).run.run s := rfl

lemma run_modify_bind (g : σ → σ) (k : Unit → Attempt σ β) (s : σ) :
    (modify g >>= k).run.run s = (k ()).run.run (g s) := rfl

end Attempt

/-- A computation of which nothing says that it comes to an end, by the attempts at it with calls
that nest only so deep. -/
abbrev Unbounded (σ α : Type) := Nat → Attempt σ α

namespace Unbounded

variable {w : Unbounded σ α} {k : Nat → α → Attempt σ β} {s s' s'' : σ}

/-- From the one state on, the computation comes to an end with this result, in the other state. -/
def Ends (w : Unbounded σ α) (s : σ) (r : Except Fault α) (s' : σ) : Prop :=
  ∃ depth, ∀ d ≥ depth, (w d).run.run s = some (r, s')

lemma ends_of_forall {r : Except Fault α} (h : ∀ d, (w d).run.run s = some (r, s')) :
    Ends w s r s' :=
  ⟨0, fun d _ => h d⟩

/-- A computation that runs as another one comes to the same end. -/
lemma Ends.congr {v : Unbounded σ α} {r : Except Fault α} (h : Ends v s' r s'')
    (hrun : ∀ d, (w d).run.run s = (v d).run.run s') : Ends w s r s'' := by
  obtain ⟨depth, h⟩ := h
  exact ⟨depth, fun d hd => (hrun d).trans (h d hd)⟩

/-- A call may be replaced by what it does with calls that nest less deep. -/
lemma Ends.of_succ {r : Except Fault α} (h : Ends (fun d => w (d + 1)) s r s') : Ends w s r s' := by
  obtain ⟨depth, h⟩ := h
  refine ⟨depth + 1, fun d hd => ?_⟩
  obtain ⟨d, rfl⟩ : ∃ e, d = e + 1 := ⟨d - 1, by omega⟩
  exact h d (by omega)

lemma Ends.bind_ok {a : α} {r : Except Fault β} (h : Ends w s (.ok a) s')
    (hk : Ends (fun d => k d a) s' r s'') : Ends (fun d => w d >>= k d) s r s'' := by
  obtain ⟨depth, h⟩ := h
  obtain ⟨depth', hk⟩ := hk
  refine ⟨max depth depth', fun d hd => ?_⟩
  change ((w d).run.run s).bind _ = _
  rw [h d (by omega)]
  exact hk d (by omega)

lemma Ends.bind_error {f : Fault} (h : Ends w s (.error f) s') :
    Ends (fun d => w d >>= k d) s (.error f) s' := by
  obtain ⟨depth, h⟩ := h
  refine ⟨depth, fun d hd => ?_⟩
  change ((w d).run.run s).bind _ = _
  rw [h d hd]
  rfl

lemma Ends.caught {r : Except Fault α} (h : Ends w s r s') :
    Ends (fun d => (w d).caught) s (.ok r) s' := by
  obtain ⟨depth, h⟩ := h
  refine ⟨depth, fun d hd => ?_⟩
  change ((w d).run.run s).bind _ = _
  rw [h d hd]
  rfl

lemma Ends.apart {v : Unbounded τ α} {r : Except Fault α} {t t' : τ} (h : Ends v t r t') (s : σ) :
    Ends (fun d => (v d).apart t) s r s := by
  obtain ⟨depth, h⟩ := h
  refine ⟨depth, fun d hd => ?_⟩
  change ((v d).run.run t).map _ = _
  rw [h d hd]
  rfl

end Unbounded

/-! ## Marks -/

/-- What is marked, and what has been entered so far, the last one first. -/
structure Ledger (α : Type) where
  marked : List α
  entered : List α

namespace Ledger

variable {l l' l'' : Ledger α} {a : α}

/-- In between, everything that was entered was marked, and nothing was entered that was marked
already. -/
def Extends (l l' : Ledger α) : Prop :=
  ∃ new : List α, l'.marked = new ++ l.marked ∧ l'.entered = new ++ l.entered ∧ new.Nodup ∧
    ∀ a ∈ new, a ∉ l.marked

lemma Extends.refl (l : Ledger α) : l.Extends l :=
  ⟨[], rfl, rfl, List.nodup_nil, fun _ h => absurd h List.not_mem_nil⟩

lemma Extends.trans (h : l.Extends l') (h' : l'.Extends l'') : l.Extends l'' := by
  obtain ⟨new, hmarked, hentered, hnodup, hnew⟩ := h
  obtain ⟨new', hmarked', hentered', hnodup', hnew'⟩ := h'
  refine ⟨new' ++ new, ?_, ?_, ?_, ?_⟩
  · rw [hmarked', hmarked, List.append_assoc]
  · rw [hentered', hentered, List.append_assoc]
  · refine List.nodup_append'.2 ⟨hnodup', hnodup, fun a ha' ha => hnew' a ha' ?_⟩
    rw [hmarked]
    exact List.mem_append_left _ ha
  · intro a ha
    rcases List.mem_append.1 ha with ha | ha
    · intro hl
      refine hnew' a ha ?_
      rw [hmarked]
      exact List.mem_append_right _ hl
    · exact hnew a ha

/-- Something that is not marked is marked and entered. -/
lemma extends_cons (h : a ∉ l.marked) : l.Extends ⟨a :: l.marked, a :: l.entered⟩ :=
  ⟨[a], rfl, rfl, List.nodup_singleton a, by simpa using h⟩

lemma Extends.marked_subset (h : l.Extends l') : l.marked ⊆ l'.marked := by
  obtain ⟨new, hmarked, -⟩ := h
  rw [hmarked]
  exact List.subset_append_right new l.marked

/-- If nothing has been entered before, nothing has been entered twice after. -/
lemma Extends.entered_once (h : l.Extends l') (hnil : l.entered = []) :
    l'.entered.Nodup ∧ ∀ a ∈ l'.entered, a ∉ l.marked := by
  obtain ⟨new, -, hentered, hnodup, hnew⟩ := h
  rw [hentered, hnil, List.append_nil]
  exact ⟨hnodup, hnew⟩

end Ledger

section Unmarked

variable [DecidableEq α] {all marked marked' : List α} {n : Nat} {a : α}

/-- At most so many things are not marked. -/
def Unmarked (all marked : List α) (n : Nat) : Prop := (all.filter (· ∉ marked)).length ≤ n

lemma unmarked_length (all marked : List α) : Unmarked all marked all.length :=
  List.length_filter_le _ _

lemma Unmarked.mono (h : Unmarked all marked n) (hsub : marked ⊆ marked') :
    Unmarked all marked' n := by
  refine Nat.le_trans (List.Sublist.length_le ?_) h
  refine List.monotone_filter_right _ fun a ha => ?_
  simp only [decide_eq_true_eq] at ha ⊢
  exact fun hmem => ha (hsub hmem)

lemma Unmarked.mem (h : Unmarked all marked 0) (ha : a ∈ all) : a ∈ marked := by
  by_contra hnot
  have hmem : a ∈ all.filter (· ∉ marked) := by simpa using ⟨ha, hnot⟩
  have hpos := List.length_pos_of_mem hmem
  have hzero : _ ≤ 0 := h
  omega

/-- To mark something for the first time takes up one of the budget. -/
lemma Unmarked.cons (h : Unmarked all marked (n + 1)) (ha : a ∈ all) (hnew : a ∉ marked) :
    Unmarked all (a :: marked) n := by
  set left := all.filter (· ∉ marked) with hleft
  have hrest : all.filter (· ∉ a :: marked) = left.filter (· ≠ a) := by
    rw [hleft, List.filter_filter]
    congr 1
    funext b
    simp [not_or]
  have hlt : (left.filter (· ≠ a)).length < left.length := by
    rw [List.length_filter_lt_length_iff_exists]
    exact ⟨a, by simpa [hleft] using ⟨ha, hnew⟩, by simp⟩
  have hle : left.length ≤ n + 1 := h
  unfold Unmarked
  rw [hrest]
  omega

end Unmarked

end RefFlow
