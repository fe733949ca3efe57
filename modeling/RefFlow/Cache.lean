import RefFlow.Table

/-!
# Remembering results

Results of several kinds are remembered for programs. What is asked for a second time is not
computed again, unless there was no result. When a program is gone, so are all results for it.
-/

namespace RefFlow

/-- Results, by kind and by program. -/
structure Cache (π β : Type) where
  entries : Table String (Table π (Option β)) := []

namespace Cache

variable {π β ε : Type} [BEq π]

/-- The results of a kind. -/
def bucket (c : Cache π β) (kind : String) : Table π (Option β) := (c.entries.get? kind).getD []

/-- The result of a kind for a program. -/
def get? (c : Cache π β) (kind : String) (program : π) : Option β :=
  ((c.bucket kind).get? program).join

/-- A result of a kind has been stored for a program. -/
def has (c : Cache π β) (kind : String) (program : π) : Bool := (c.bucket kind).has program

/-- The cache with a place for results of a kind. -/
def withKind (c : Cache π β) (kind : String) : Cache π β :=
  if c.entries.has kind then c else ⟨c.entries.set kind []⟩

/-- The cache with a result stored. -/
def store (c : Cache π β) (kind : String) (program : π) (result : Option β) : Cache π β :=
  ⟨c.entries.set kind ((c.bucket kind).set program result)⟩

/-- There is no result of a kind for a program, so that it has to be computed. -/
def lacks (c : Cache π β) (kind : String) (program : π) : Bool := (c.get? kind program).isNone

/-- The result of a kind for a program, computed and stored if there is none. -/
def getOrCompute (c : Cache π β) (kind : String) (program : π)
    (compute : Unit → Except ε (Option β)) : Except ε (Option β) × Cache π β :=
  match c.get? kind program with
  | some b => (.ok (some b), c)
  | none =>
    match compute () with
    | .ok result => (.ok result, c.store kind program result)
    | .error e => (.error e, c.withKind kind)

/-- The cache without the results for a program. -/
def drop (c : Cache π β) (program : π) : Cache π β :=
  ⟨c.entries.map fun (kind, t) => (kind, t.filter fun (q, _) => !(q == program))⟩

/-- The kinds in the order in which they came in, each with the number of its results. -/
def sizes (c : Cache π β) : List (String × Nat) := c.entries.map fun (kind, t) => (kind, t.length)

end Cache

end RefFlow
