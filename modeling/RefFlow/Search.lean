import RefFlow.Tree.Basic

/-!
# Searches

A search finds things one after the other, and may break off with a fault. What was found before the
fault stands, so that whoever takes the finds one by one meets them first: a fault in the handling
of an early find comes before the fault that ends the search.

Searches compose in order. `s >>= f` goes through the finds of `s`, and puts in the place of each
one what `f` finds from it; nothing comes after a fault.
-/

namespace RefFlow

/-- What is found, in order, up to the end or to a fault. -/
inductive Search (α : Type) where
  | done
  | broken (f : Fault)
  | found (a : α) (rest : Search α)

namespace Search

variable {α β σ : Type}

/-- First the one search, then the other. -/
def append : Search α → Search α → Search α
  | done, t => t
  | broken f, _ => broken f
  | found a rest, t => found a (rest.append t)

instance : Append (Search α) := ⟨append⟩

/-- Goes on from each find. -/
def bind : Search α → (α → Search β) → Search β
  | done, _ => done
  | broken f, _ => broken f
  | found a rest, k => k a ++ rest.bind k

instance : Monad Search where
  pure a := found a done
  bind := bind

/-- Finds the members of a list. -/
def ofList : List α → Search α
  | [] => done
  | a :: as => found a (ofList as)

/-- Finds the one result of a computation. -/
def ofExcept : Except Fault α → Search α
  | .ok a => pure a
  | .error f => broken f

instance : MonadLift (Except Fault) Search := ⟨ofExcept⟩

/-- The finds for which the function has a value. -/
def filterMap (f : α → Option β) : Search α → Search β
  | done => done
  | broken e => broken e
  | found a rest => match f a with
    | some b => found b (rest.filterMap f)
    | none => rest.filterMap f

/-- What is found before the end or the fault. -/
def toList : Search α → List α
  | done | broken _ => []
  | found a rest => a :: rest.toList

/-- All finds, unless the search breaks off. -/
def toExcept : Search α → Except Fault (List α)
  | done => .ok []
  | broken f => .error f
  | found a rest => rest.toExcept.map (a :: ·)

/-- Handles the finds one by one, up to the first fault. -/
def foldM (step : σ → α → Except Fault σ) : σ → Search α → Except Fault σ
  | s, done => .ok s
  | _, broken f => .error f
  | s, found a rest => step s a >>= fun s => rest.foldM step s

/-! ## Laws -/

@[simp] theorem done_append (t : Search α) : done ++ t = t := rfl

@[simp] theorem broken_append (f : Fault) (t : Search α) : broken f ++ t = broken f := rfl

@[simp] theorem found_append (a : α) (s t : Search α) : found a s ++ t = found a (s ++ t) := rfl

@[simp] theorem append_done (s : Search α) : s ++ done = s := by
  induction s with
  | done | broken => rfl
  | found a rest ih => simp [ih]

theorem append_assoc (s t u : Search α) : s ++ t ++ u = s ++ (t ++ u) := by
  induction s with
  | done | broken => rfl
  | found a rest ih => simp [ih]

@[simp] theorem pure_def (a : α) : (pure a : Search α) = found a done := rfl

@[simp] theorem done_bind (k : α → Search β) : (done >>= k) = done := rfl

@[simp] theorem broken_bind (f : Fault) (k : α → Search β) : (broken f >>= k) = broken f := rfl

@[simp] theorem found_bind (a : α) (rest : Search α) (k : α → Search β) :
    (found a rest >>= k) = k a ++ (rest >>= k) := rfl

theorem append_bind (s t : Search α) (k : α → Search β) :
    (s ++ t >>= k) = (s >>= k) ++ (t >>= k) := by
  induction s with
  | done | broken => rfl
  | found a rest ih => simp [ih, append_assoc]

theorem id_map (s : Search α) : id <$> s = s := by
  induction s with
  | done | broken => rfl
  | found a rest ih => exact congrArg (found a) ih

theorem bind_assoc {γ : Type} (s : Search α) (k : α → Search β) (l : β → Search γ) :
    (s >>= k >>= l) = s >>= fun a => k a >>= l := by
  induction s with
  | done | broken => rfl
  | found a rest ih => simp [append_bind, ih]

instance : LawfulMonad Search :=
  LawfulMonad.mk' Search id_map (fun a k => append_done (k a)) bind_assoc

theorem mem_toList_append {a : α} {s t : Search α} (h : a ∈ (s ++ t).toList) :
    a ∈ s.toList ∨ a ∈ t.toList := by
  induction s with
  | done => exact .inr h
  | broken f => exact .inl h
  | found b rest ih =>
    rcases List.mem_cons.1 h with rfl | h
    · exact .inl (List.mem_cons_self ..)
    · exact (ih h).imp_left (List.mem_cons_of_mem b)

/-- What is found in two steps is found from something that the first step finds. -/
theorem exists_of_mem_toList_bind {b : β} {s : Search α} {k : α → Search β}
    (h : b ∈ (s >>= k).toList) : ∃ a ∈ s.toList, b ∈ (k a).toList := by
  induction s with
  | done | broken => cases h
  | found a rest ih =>
    rcases mem_toList_append h with h | h
    · exact ⟨a, List.mem_cons_self .., h⟩
    · obtain ⟨c, hc, hb⟩ := ih h
      exact ⟨c, List.mem_cons_of_mem a hc, hb⟩

end Search

end RefFlow
