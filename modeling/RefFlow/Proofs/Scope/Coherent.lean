import RefFlow.Proofs.Scope.Outline
import RefFlow.Proofs.Table

/-!
# Variables by name

A scope keeps its variables in a list, in the order in which their names were first declared, and
beside it a table that says where in the list the variable of each name is.  A variable keeps the
identifiers that define it beside its definitions.  What is kept twice can come apart: it is only
the steps of the analysis that change both in the same way.

`Scope.Coherent` says that a scope keeps the same both times.  Declaring a name and adding a
definition leave a scope so, and what is done when a scope opens or closes leaves all scopes so;
that every run of the analysis does is part of the invariant in `Proofs/Scope/Run`.  In a coherent
scope, looking a name up in the table and changing the variable found there amount to going through
the list (`find?_eq_some_iff`, `declared_modifyVariable`).
-/

namespace RefFlow

lemma getElem?_append_left_of_some {α : Type} {as bs : List α} {i : Nat} {a : α}
    (h : as[i]? = some a) : (as ++ bs)[i]? = some a := by
  rw [List.getElem?_append_left (List.getElem?_eq_some_iff.1 h).1, h]

lemma getElem?_concat_cases {α : Type} {as : List α} {a b : α} {i : Nat}
    (h : (as ++ [a])[i]? = some b) : as[i]? = some b ∨ (i = as.length ∧ b = a) := by
  rw [List.getElem?_append] at h
  split at h
  · exact .inl h
  · obtain ⟨hi, hb⟩ := List.getElem?_eq_some_iff.1 h
    simp only [List.length_singleton] at hi
    exact .inr ⟨by omega, by simpa [eq_comm] using hb⟩

/-! ## Scopes -/

namespace Scope

/-- No name is declared twice, the table has the place of each variable under its name and nothing
else, and the identifiers of a variable are those of its definitions. -/
structure Coherent (s : Scope) : Prop where
  names : (s.declared.map (·.name)).Nodup
  table : ∀ name k, s.table.get? name = some k ↔ ∃ v, s.declared[k]? = some v ∧ v.name = name
  identifiers : ∀ v ∈ s.declared, v.identifiers = v.definitions.map (·.identifier)

namespace Coherent

variable {s t : Scope} {name : String} {v : Variable} {f : Variable → Variable}

lemma of_empty (hdeclared : s.declared = []) (htable : s.table = []) : s.Coherent where
  names := by simp [hdeclared]
  table := by simp [hdeclared, htable, Table.get?]
  identifiers := by simp [hdeclared]

variable (h : s.Coherent)

include h

lemma congr (hdeclared : t.declared = s.declared) (htable : t.table = s.table) : t.Coherent where
  names := hdeclared ▸ h.names
  table := hdeclared ▸ htable ▸ h.table
  identifiers := hdeclared ▸ h.identifiers

/-- A variable is found under its name. -/
lemma find?_eq_some_iff : s.find? name = some v ↔ v ∈ s.declared ∧ v.name = name := by
  refine Option.bind_eq_some_iff.trans ⟨?_, ?_⟩
  · rintro ⟨k, hk, hv⟩
    obtain ⟨w, hw, hname⟩ := (h.table name k).1 hk
    obtain rfl : v = w := Option.some.inj (hv.symm.trans hw)
    exact ⟨List.mem_of_getElem? hv, hname⟩
  · rintro ⟨hv, hname⟩
    obtain ⟨k, hk⟩ := List.mem_iff_getElem?.1 hv
    exact ⟨k, (h.table name k).2 ⟨v, hk, hname⟩, hk⟩

lemma declares_iff : s.declares name = true ↔ name ∈ s.declared.map (·.name) := by
  rw [declares, Option.isSome_iff_exists, List.mem_map]
  exact exists_congr fun _ => h.find?_eq_some_iff

/-- What is changed is the variable of the given name. -/
lemma declared_modifyVariable (name : String) (f : Variable → Variable) :
    (s.modifyVariable name f).declared =
      s.declared.map fun v => if v.name == name then f v else v := by
  unfold modifyVariable
  dsimp only
  split
  · rename_i k hk
    obtain ⟨w, hw, hname⟩ := (h.table name k).1 hk
    apply List.ext_getElem?
    intro j
    rw [List.getElem?_modify, List.getElem?_map]
    cases hv : s.declared[j]? with
    | none => rfl
    | some v =>
      -- The variable at the place is the only one of its name.
      have hplace : k = j ↔ v.name = name := by
        constructor
        · rintro rfl
          rw [Option.some.inj (hv.symm.trans hw), hname]
        · intro hv'
          exact Option.some.inj (hk.symm.trans ((h.table name j).2 ⟨v, hv, hv'⟩))
      by_cases hj : k = j
      · simp [hj, hplace.1 hj]
      · have hother : v.name ≠ name := fun hv' => hj (hplace.2 hv')
        simp [hj, hother]
  · rename_i hnone
    refine ((List.map_congr_left fun v hv => if_neg ?_).trans (List.map_id _)).symm
    rw [beq_iff_eq]
    intro hname
    obtain ⟨k, hk⟩ := List.mem_iff_getElem?.1 hv
    have hfound := (h.table name k).2 ⟨v, hk, hname⟩
    rw [hnone] at hfound
    cases hfound

lemma modifyVariable (hname : ∀ v, (f v).name = v.name)
    (hf : ∀ v, v.identifiers = v.definitions.map (·.identifier) →
      (f v).identifiers = (f v).definitions.map (·.identifier)) :
    (s.modifyVariable name f).Coherent := by
  have hdeclared := h.declared_modifyVariable name f
  have hkeeps : ∀ v : Variable, (if v.name == name then f v else v).name = v.name := by
    intro v
    split
    · exact hname v
    · rfl
  refine ⟨?_, fun other k => (h.table other k).trans ?_, ?_⟩
  · rw [hdeclared, List.map_map]
    exact (List.map_congr_left fun v _ => hkeeps v) ▸ h.names
  · rw [hdeclared, List.getElem?_map]
    cases s.declared[k]? with
    | none => simp
    | some v => simp only [Option.some.injEq, Option.map_some, exists_eq_left', hkeeps]
  · intro v hv
    rw [hdeclared] at hv
    obtain ⟨w, hw, rfl⟩ := List.mem_map.1 hv
    split
    · exact hf w (h.identifiers w hw)
    · exact h.identifiers w hw

lemma declare (name : String) : (s.declare name).Coherent := by
  unfold Scope.declare
  split
  · exact h
  · rename_i hd
    have hnew : name ∉ s.declared.map (·.name) := fun hmem => hd (h.declares_iff.2 hmem)
    have hother : ∀ {k : Nat} {v : Variable}, s.declared[k]? = some v → v.name ≠ name :=
      fun hv hname => hnew (hname ▸ List.mem_map_of_mem (List.mem_of_getElem? hv))
    refine ⟨?_, fun other k => ?_, fun v hv => ?_⟩
    · rw [List.map_append]
      exact h.names.append (List.nodup_singleton name) (List.disjoint_singleton.2 hnew)
    · dsimp only
      rw [Table.get?_set]
      by_cases hname : name = other
      · subst hname
        rw [if_pos (by simp), Option.some.injEq]
        constructor
        · rintro rfl
          exact ⟨{ name := name }, by simp, rfl⟩
        · rintro ⟨v, hv, hname⟩
          rcases getElem?_concat_cases hv with hv | ⟨rfl, -⟩
          · exact absurd hname (hother hv)
          · rfl
      · rw [if_neg (by simpa using hname), h.table]
        constructor
        · rintro ⟨v, hv, rfl⟩
          exact ⟨v, getElem?_append_left_of_some hv, rfl⟩
        · rintro ⟨v, hv, rfl⟩
          rcases getElem?_concat_cases hv with hv | ⟨-, rfl⟩
          · exact ⟨v, hv, rfl⟩
          · exact absurd rfl hname
    · rcases List.mem_append.1 hv with hv | hv
      · exact h.identifiers v hv
      · rw [List.mem_singleton.1 hv]
        rfl

lemma define (d : Definition) : (s.define d).Coherent := by
  refine (h.declare d.name).modifyVariable (fun _ => rfl) fun v hv => ?_
  rw [Variable.define, hv, List.map_append]
  rfl

lemma find?_modifyVariable {key : String} :
    (s.modifyVariable key f).find? name =
      (s.find? name).map fun v => if v.name == key then f v else v := by
  have hdeclared := h.declared_modifyVariable key f
  have htable : (s.modifyVariable key f).table = s.table := rfl
  unfold Scope.find?
  rw [hdeclared, htable]
  cases s.table.get? name with
  | none => rfl
  | some k => simp

end Coherent

end Scope

/-! ## Graphs -/

namespace Graph

variable {g : Graph}

/-- All scopes are coherent. -/
def Coherent (g : Graph) : Prop := ∀ s ∈ g.scopes, s.Coherent

lemma Coherent.scope (h : g.Coherent) {i : Nat} {s : Scope} (hs : g.scopes[i]? = some s) :
    s.Coherent :=
  h s (List.mem_of_getElem? hs)

/-- A variable that is found is one of its scope, and has the name that it is found by. -/
lemma Coherent.get? (h : g.Coherent) {v : VariableId} {x : Variable} (hx : g.get? v = some x) :
    ∃ s, g.scopes[v.scope]? = some s ∧ x ∈ s.declared ∧ x.name = v.name := by
  obtain ⟨s, hs, hx⟩ := Option.bind_eq_some_iff.1 hx
  exact ⟨s, hs, (h.scope hs).find?_eq_some_iff.1 hx⟩

lemma Coherent.modifyScope (h : g.Coherent) (i : Nat) {f : Scope → Scope}
    (hf : ∀ s : Scope, s.Coherent → (f s).Coherent) : (g.modifyScope i f).Coherent := by
  intro s hs
  obtain ⟨j, hj⟩ := List.mem_iff_getElem?.1 hs
  rw [Graph.modifyScope, List.getElem?_modify] at hj
  obtain ⟨s₀, hs₀, rfl⟩ := Option.map_eq_some_iff.1 hj
  split
  · exact hf s₀ (h.scope hs₀)
  · exact h.scope hs₀

end Graph

namespace Analysis

variable {g : Graph} {a b : Analysis}

lemma coherent_enter (h : a.graph.Coherent) (kind : ScopeKind) (block : Node) :
    (a.enter kind block).graph.Coherent := by
  unfold enter
  intro s hs
  rcases List.mem_append.1 hs with hs | hs
  · cases hf : a.frames with
    | nil =>
      rw [hf] at hs
      exact h s hs
    | cons f fs =>
      rw [hf] at hs
      refine h.modifyScope f.scope (f := fun s =>
        { s with inner := s.inner ++ [a.graph.scopes.length] }) ?_ s hs
      exact fun s hs => hs.congr rfl rfl
  · rw [List.mem_singleton.1 hs]
    exact .of_empty rfl rfl

lemma coherent_settle (h : g.Coherent) (scope ref : Nat) : (settle g scope ref).1.Coherent := by
  unfold settle
  split
  · exact h
  · split
    · exact h.modifyScope scope fun s hs => hs.modifyVariable (fun _ => rfl) fun _ hv => hv
    · exact h.modifyScope scope fun s hs => hs.congr rfl rfl

lemma coherent_settleAll (h : g.Coherent) (scope : Nat) (refs : List Nat) :
    (settleAll g scope refs).1.Coherent := by
  induction refs generalizing g with
  | nil => exact h
  | cons ref refs ih => exact ih (coherent_settle h scope ref)

lemma coherent_leave (h : a.graph.Coherent) (hb : a.leave = .ok b) : b.graph.Coherent := by
  unfold leave at hb
  split at hb
  · cases hb
  · cases hb
    exact coherent_settleAll h _ _

end Analysis

end RefFlow
