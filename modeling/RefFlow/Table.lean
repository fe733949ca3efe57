/-!
# Tables in order of insertion

A table is a list of keys with their values, in the order in which the keys came in. Setting a key
that is there already changes its value and leaves it in its place.
-/

namespace RefFlow

/-- Keys with their values, in the order in which the keys came in. -/
abbrev Table (κ α : Type) := List (κ × α)

namespace Table

variable {κ α : Type} [BEq κ]

/-- Sets the value of a key: in its place if it is there already, else at the end. -/
def set (key : κ) (value : α) : Table κ α → Table κ α
  | [] => [(key, value)]
  | (k, a) :: rest => if k == key then (k, value) :: rest else (k, a) :: set key value rest

/-- The value of a key. -/
def get? : Table κ α → κ → Option α
  | [], _ => none
  | (k, a) :: rest, key => if k == key then some a else get? rest key

/-- The key is in the table. -/
def has (t : Table κ α) (key : κ) : Bool := (t.get? key).isSome

/-- The values, in order. -/
def values (t : Table κ α) : List α := t.map (·.2)

/-- The keys, in order. -/
def keys (t : Table κ α) : List κ := t.map (·.1)

theorem get?_set [LawfulBEq κ] (t : Table κ α) (key other : κ) (value : α) :
    (t.set key value).get? other = if key == other then some value else t.get? other := by
  induction t with
  | nil => rfl
  | cons e t ih =>
    obtain ⟨k, a⟩ := e
    by_cases hk : k = key
    · subst hk
      by_cases ho : k = other <;> simp [set, get?, ho]
    · by_cases ho : k = other
      · subst ho; simp [set, get?, hk, Ne.symm hk]
      · simp [set, get?, hk, ho, ih]

end Table

end RefFlow
