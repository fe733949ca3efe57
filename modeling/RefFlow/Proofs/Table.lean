import Mathlib.Data.List.Nodup
import Mathlib.Tactic.Common
import RefFlow.Table

/-!
# Keys and values of tables

What is under which key of a table, and in which order the keys are.

Tables that have a list under each key can be united: `union` adds what the second table has under a
key behind what the first one has there, and keys that are new come last.  Uniting is associative
(`union_assoc`) as long as no key occurs twice in the middle table.  An entry of a table with
repeated keys is then as good as a table, and a table that is filled entry by entry is the union of
the entries.
-/

namespace RefFlow

namespace Table

variable {κ α : Type} [BEq κ] [LawfulBEq κ] {t u : Table κ α} {k : κ} {v : α}

omit [LawfulBEq κ] in
lemma set_ne_nil (k : κ) (v : α) (t : Table κ α) : t.set k v ≠ [] := by
  cases t with
  | nil => exact List.cons_ne_nil _ _
  | cons e t =>
    rw [set]
    split <;> exact List.cons_ne_nil _ _

omit [LawfulBEq κ] in
lemma eq_or_mem_of_mem_set {e : κ × α} (h : e ∈ t.set k v) : e.2 = v ∨ e ∈ t := by
  induction t with
  | nil => exact .inl (by rw [List.mem_singleton.1 h])
  | cons first t ih =>
    rw [set] at h
    split at h
    · rcases List.mem_cons.1 h with rfl | h
      · exact .inl rfl
      · exact .inr (List.mem_cons_of_mem _ h)
    · rcases List.mem_cons.1 h with rfl | h
      · exact .inr List.mem_cons_self
      · exact (ih h).imp_right (List.mem_cons_of_mem _)

lemma has_iff_mem_keys : t.has k = true ↔ k ∈ t.keys := by
  induction t with
  | nil => simp [has, get?, keys]
  | cons e t ih =>
    by_cases h : e.1 = k
    · simp [has, get?, keys, h]
    · have hne : k ≠ e.1 := fun heq => h heq.symm
      simpa [has, get?, keys, h, hne] using ih

lemma set_of_not_has (h : t.has k = false) (v : α) : t.set k v = t ++ [(k, v)] := by
  induction t with
  | nil => rfl
  | cons e t ih =>
    by_cases hk : e.1 = k
    · simp [has, get?, hk] at h
    · have hrest : has t k = false := by simpa [has, get?, hk] using h
      simp [set, hk, ih hrest]

lemma keys_set_of_has (h : t.has k = true) (v : α) : (t.set k v).keys = t.keys := by
  induction t with
  | nil => cases h
  | cons e t ih =>
    by_cases hk : e.1 = k
    · simp [set, keys, hk]
    · have hrest : has t k = true := by simpa [has, get?, hk] using h
      simpa [set, keys, hk] using ih hrest

lemma nodup_keys_set (h : t.keys.Nodup) (k : κ) (v : α) : (t.set k v).keys.Nodup := by
  by_cases hk : t.has k = true
  · rwa [keys_set_of_has hk]
  · have hnew : k ∉ t.keys := fun hmem => hk (has_iff_mem_keys.2 hmem)
    rw [set_of_not_has (Bool.eq_false_iff.2 hk), keys, List.map_append]
    refine h.append (List.nodup_singleton k) (List.disjoint_singleton.2 ?_)
    exact hnew

lemma get?_append (t u : Table κ α) (k : κ) :
    get? (t ++ u : Table κ α) k = (t.get? k).or (u.get? k) := by
  induction t with
  | nil => rfl
  | cons e t ih =>
    by_cases hk : e.1 = k
    · simp [get?, hk]
    · simpa [get?, hk] using ih

lemma mem_iff_get? (h : t.keys.Nodup) : (k, v) ∈ t ↔ t.get? k = some v := by
  induction t with
  | nil => simp [get?]
  | cons e t ih =>
    obtain ⟨hnew, hrest⟩ : e.1 ∉ keys t ∧ (keys t).Nodup := List.nodup_cons.1 h
    by_cases hk : e.1 = k
    · have hnot : (k, v) ∉ t := by
        intro hmem
        rw [hk] at hnew
        exact hnew (List.mem_map_of_mem hmem)
      obtain ⟨k', v'⟩ := e
      obtain rfl : k' = k := hk
      simp [get?, hnot, eq_comm]
    · have hne : (k, v) ≠ e := fun heq => hk (heq ▸ rfl)
      simpa [get?, hk, hne] using ih hrest

/-- Adding the entries of a table whose keys are not there yet puts them behind the others. -/
lemma foldl_set_of_not_has (h : u.keys.Nodup) (t : Table κ α) :
    u.foldl (fun t e => if t.has e.1 then t else t.set e.1 e.2) t =
      t ++ u.filter fun e => !t.has e.1 := by
  induction u generalizing t with
  | nil => simp
  | cons e u ih =>
    obtain ⟨hnew, hrest⟩ : e.1 ∉ keys u ∧ (keys u).Nodup := List.nodup_cons.1 h
    rw [List.foldl_cons, List.filter_cons]
    by_cases he : t.has e.1 = true
    · simpa [he] using ih hrest t
    · have he' : t.has e.1 = false := Bool.eq_false_iff.2 he
      -- The entry that has been added is none of those that follow.
      have hsame : ∀ e' ∈ u, has (t ++ [e] : Table κ α) e'.1 = t.has e'.1 := by
        intro e' hmem
        have hmem : e'.1 ∈ keys u := List.mem_map_of_mem hmem
        have hne : e.1 ≠ e'.1 := fun heq => hnew (heq ▸ hmem)
        simp [has, get?_append, get?, hne]
      rw [if_neg he, set_of_not_has he', ih hrest, if_pos (by simp [he']), List.append_assoc,
        List.singleton_append]
      exact congrArg (fun es => t ++ e :: es)
        (List.filter_congr fun e' hmem => by rw [hsame e' hmem])

/-! ## Tables of lists -/

lemma set_set (t : Table κ α) (k : κ) (a b : α) : (t.set k a).set k b = t.set k b := by
  induction t with
  | nil => simp [set]
  | cons e t ih => by_cases hk : e.1 = k <;> simp [set, hk, ih]

/-- Two keys can be set in any order, unless the first one is new. -/
lemma set_comm {k' : κ} (h : t.has k = true) (hne : k ≠ k') (a b : α) :
    (t.set k a).set k' b = (t.set k' b).set k a := by
  induction t with
  | nil => cases h
  | cons e t ih =>
    by_cases hk : e.1 = k
    · simp [set, hk, hne]
    · have hrest : has t k = true := by simpa [has, get?, hk] using h
      by_cases hk' : e.1 = k' <;> simp [set, hk, hk', hne.symm, ih hrest]

variable {β : Type} {r s : Table κ (List β)}

/-- The table with further values under a key, behind those that are there. -/
def extend (t : Table κ (List β)) (key : κ) (bs : List β) : Table κ (List β) :=
  t.set key ((t.get? key).getD [] ++ bs)

/-- The table with all that another one has, key by key. -/
def union (t u : Table κ (List β)) : Table κ (List β) := u.foldl (fun t e => t.extend e.1 e.2) t

lemma has_extend (t : Table κ (List β)) (k k' : κ) (bs : List β) :
    (t.extend k bs).has k' = (k == k' || t.has k') := by
  rw [has, extend, get?_set]
  by_cases hk : k = k' <;> simp [hk, has]

lemma extend_extend (t : Table κ (List β)) (k : κ) (bs cs : List β) :
    (t.extend k bs).extend k cs = t.extend k (bs ++ cs) := by
  simp [extend, get?_set, set_set]

lemma extend_comm {k' : κ} (h : s.has k = true) (hne : k ≠ k') (bs cs : List β) :
    (s.extend k bs).extend k' cs = (s.extend k' cs).extend k bs := by
  simp [extend, get?_set, hne, hne.symm, set_comm h hne]

/-- What is under a key that another table does not have can be added before or after uniting. -/
lemma union_extend_of_not_mem (h : s.has k = true) (hk : k ∉ r.keys) (bs : List β) :
    (s.extend k bs).union r = (s.union r).extend k bs := by
  induction r generalizing s with
  | nil => rfl
  | cons e r ih =>
    obtain ⟨hne, hrest⟩ : k ≠ e.1 ∧ k ∉ keys r := List.ne_and_not_mem_of_not_mem_cons hk
    have hstep : (s.extend k bs).extend e.1 e.2 = (s.extend e.1 e.2).extend k bs :=
      extend_comm h hne bs e.2
    have hhas : (s.extend e.1 e.2).has k = true := by rw [has_extend, h, Bool.or_true]
    show ((s.extend k bs).extend e.1 e.2).union r = ((s.extend e.1 e.2).union r).extend k bs
    rw [hstep, ih hhas hrest]

lemma union_extend (h : r.keys.Nodup) (s : Table κ (List β)) (k : κ) (bs : List β) :
    s.union (r.extend k bs) = (s.union r).extend k bs := by
  induction r generalizing s with
  | nil => rfl
  | cons e r ih =>
    obtain ⟨hnew, hrest⟩ : e.1 ∉ keys r ∧ (keys r).Nodup := List.nodup_cons.1 h
    by_cases hk : e.1 = k
    · subst hk
      have hcons : extend (e :: r) e.1 bs = (e.1, e.2 ++ bs) :: r := by simp [extend, set, get?]
      have hhas : (s.extend e.1 e.2).has e.1 = true := by simp [has_extend]
      rw [hcons]
      calc (s.extend e.1 (e.2 ++ bs)).union r
          = ((s.extend e.1 e.2).extend e.1 bs).union r := by rw [extend_extend]
        _ = ((s.extend e.1 e.2).union r).extend e.1 bs := union_extend_of_not_mem hhas hnew bs
    · have hcons : extend (e :: r) k bs = e :: extend r k bs := by simp [extend, set, get?, hk]
      rw [hcons]
      exact ih hrest (s.extend e.1 e.2)

/-- **Uniting is associative**, also if the third table has keys that occur twice. -/
lemma union_assoc (h : r.keys.Nodup) (s u : Table κ (List β)) :
    s.union (r.union u) = (s.union r).union u := by
  induction u generalizing r with
  | nil => rfl
  | cons e u ih =>
    have hnodup : (r.extend e.1 e.2).keys.Nodup := nodup_keys_set h _ _
    show s.union ((r.extend e.1 e.2).union u) = ((s.union r).extend e.1 e.2).union u
    rw [ih hnodup, union_extend h]

end Table

end RefFlow
