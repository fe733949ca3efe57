import RefFlow.Proofs.Scope.Bookkeeping

/-!
# Where definitions are held

A scope holds the definitions of its variables, each under the name of its variable.  The lemmas
here say what a step does to this view of a scope graph, as `Outline` does for the scopes around a
scope: only a definition changes it, which is added to one open scope (`held_step`).  So the
definitions of a finished graph are those of the events, each of them once, and under its own name
(`held_run`).
-/

namespace RefFlow

open Fallible

/-! ## Views of the scopes

What an operation does to no scope, it does to none of a list of scopes. -/

namespace Analysis

variable {β : Type} {view : Scope → β} {a b : Analysis}

lemma map_scopes_inScope {hoisted : Bool} {f : Scope → Scope}
    (hf : ∀ s ∈ a.graph.scopes, view (f s) = view s) (h : a.inScope hoisted f = .ok b) :
    b.graph.scopes.map view = a.graph.scopes.map view := by
  unfold inScope at h
  split at h
  · cases h
  · cases h
    exact Graph.map_modifyScope _ hf

lemma map_scopes_mention (hview : ∀ s rs, view { s with references := rs } = view s)
    {o : Occurrence} (h : a.mention o = .ok b) :
    b.graph.scopes.map view = a.graph.scopes.map view := by
  unfold mention at h
  split at h
  · cases h
  · rename_i u us _
    cases h
    exact Graph.map_modifyScope (g := a.graph) u.scope fun s _ => hview s _

/-- Closing a scope enters references with its variables, or among those that go through it. -/
lemma map_scopes_leave
    (huses : ∀ (s : Scope) name rs, view (s.modifyVariable name fun v =>
      { v with references := v.references ++ rs }) = view s)
    (hthrough : ∀ (s : Scope) rs, view { s with through := rs } = view s)
    (h : a.leave = .ok b) : b.graph.scopes.map view = a.graph.scopes.map view := by
  have hsettle : ∀ g i ref, (settle g i ref).1.scopes.map view = g.scopes.map view := by
    intro g i ref
    unfold settle
    split
    · rfl
    · split
      · exact Graph.map_modifyScope (g := g) i fun s _ => huses s ..
      · exact Graph.map_modifyScope (g := g) i fun s _ => hthrough s _
  have hsettleAll : ∀ g i refs, (settleAll g i refs).1.scopes.map view = g.scopes.map view := by
    intro g i refs
    induction refs generalizing g with
    | nil => rfl
    | cons ref refs ih => exact (ih _).trans (hsettle g i ref)
  unfold leave at h
  split at h
  · cases h
  · cases h
    exact hsettleAll ..

end Analysis

/-! ## What a scope holds -/

/-- What an event defines, under its name. -/
def Event.defines : Event → List (String × Definition)
  | .define _ d => [(d.name, d)]
  | _ => []

namespace Scope

/-- The definitions that a scope holds, under the names of their variables. -/
def held (s : Scope) : List (String × Definition) :=
  s.declared.flatMap fun v => v.definitions.map (v.name, ·)

lemma mem_held {s : Scope} {v : Variable} {d : Definition} (hv : v ∈ s.declared)
    (hd : d ∈ v.definitions) : (v.name, d) ∈ s.held :=
  List.mem_flatMap.2 ⟨v, hv, List.mem_map_of_mem hd⟩

lemma held_declare (s : Scope) (name : String) : (s.declare name).held = s.held := by
  unfold declare
  split
  · rfl
  · simp [held]

/-- A definition is added to one variable. -/
lemma held_modifyVariable {s : Scope} {d : Definition} (hs : s.Coherent)
    (hd : s.declares d.name = true) :
    (s.modifyVariable d.name (·.define d)).held.Perm (s.held ++ [(d.name, d)]) := by
  replace hd := hs.declares_iff.1 hd
  unfold held
  rw [hs.declared_modifyVariable]
  replace hs := hs.names
  generalize s.declared = vs at hs hd
  induction vs with
  | nil => cases hd
  | cons v vs ih =>
    rw [List.map_cons, List.nodup_cons] at hs
    rw [List.map_cons, List.flatMap_cons, List.flatMap_cons]
    by_cases hv : v.name = d.name
    · -- The variables after this one have other names, so they stay as they are.
      have hrest : (vs.map fun w => if w.name == d.name then w.define d else w) = vs := by
        refine (List.map_congr_left fun w hw => if_neg ?_).trans (List.map_id vs)
        rw [beq_iff_eq]
        exact fun hw' => hs.1 (hv ▸ hw' ▸ List.mem_map_of_mem hw)
      rw [hrest, if_pos (by simpa using hv), Variable.define, List.map_append, List.append_assoc,
        List.append_assoc, List.map_singleton, hv]
      exact (List.perm_append_comm).append_left _
    · have hd : d.name ∈ vs.map (·.name) := by
        rcases List.mem_cons.1 hd with hd | hd
        · exact absurd hd.symm hv
        · exact hd
      rw [if_neg (by simpa using hv), List.append_assoc]
      exact (ih hs.2 hd).append_left _

lemma declares_declare (s : Scope) (name : String) : (s.declare name).declares name = true := by
  unfold declare
  split
  · assumption
  · simp [declares, find?, Table.get?_set]

/-- A scope holds a new definition once, and nothing else is new. -/
lemma held_define {s : Scope} (hs : s.Coherent) (d : Definition) :
    (s.define d).held.Perm (s.held ++ [(d.name, d)]) := by
  have hmodify := held_modifyVariable (hs.declare d.name) (s.declares_declare d.name)
  rwa [held_declare] at hmodify

lemma held_of_uses (s : Scope) (name : String) (rs : List Nat) :
    (s.modifyVariable name fun v => { v with references := v.references ++ rs }).held =
      s.held := by
  have hview : ∀ (vs : List Variable) k, (vs.modify k fun v =>
      { v with references := v.references ++ rs }).map (fun v => v.definitions.map (v.name, ·)) =
        vs.map fun v => v.definitions.map (v.name, ·) := by
    intro vs k
    apply List.ext_getElem?
    intro j
    rw [List.getElem?_map, List.getElem?_map, List.getElem?_modify]
    split <;> cases vs[j]? <;> rfl
  unfold held modifyVariable
  dsimp only
  split
  · rw [List.flatMap_def, hview, ← List.flatMap_def]
  · rfl

end Scope

/-- The definitions that each scope holds. -/
def Graph.held (g : Graph) : List (List (String × Definition)) := g.scopes.map Scope.held

namespace Graph

variable {g : Graph}

lemma held_getElem? (g : Graph) (i : Nat) : g.held[i]? = g.scopes[i]?.map Scope.held :=
  List.getElem?_map

lemma held_modifyScope_set {i : Nat} {s : Scope} (hs : g.scopes[i]? = some s) (f : Scope → Scope) :
    (g.modifyScope i f).held = g.held.set i (f s).held := by
  apply List.ext_getElem?
  intro j
  rw [held_getElem?, modifyScope, List.getElem?_modify, List.getElem?_set, held_getElem?]
  by_cases hij : i = j
  · subst hij
    have hlt := (List.getElem?_eq_some_iff.1 hs).1
    rw [if_pos rfl, if_pos (by rwa [held, List.length_map]), hs]
    simp
  · simp [hij]

end Graph

namespace Analysis

variable {a b : Analysis} {e : Event} {es : List Event}

lemma held_enter (a : Analysis) (kind : ScopeKind) (block : Node) :
    (a.enter kind block).graph.held = a.graph.held ++ [[]] := by
  unfold enter
  cases a.frames with
  | nil => simp [Graph.held, Scope.held]
  | cons f fs =>
    have hmodify : (a.graph.modifyScope f.scope fun s =>
        { s with inner := s.inner ++ [a.graph.scopes.length] }).held = a.graph.held :=
      Graph.map_modifyScope f.scope fun _ _ => rfl
    simp only [Graph.modifyScope, Graph.held] at hmodify
    simp [Graph.held, Scope.held, hmodify]

lemma Invariant.exists_scope (h : Invariant a) {i : Nat} (hi : i ∈ a.openScopes) :
    ∃ s, a.graph.scopes[i]? = some s := by
  obtain ⟨f, hf, rfl⟩ := List.mem_map.1 hi
  obtain ⟨x, hx⟩ := h.stacked.outline_of_mem hf
  rw [Graph.outline_getElem?] at hx
  obtain ⟨s, hs, -⟩ := Option.map_eq_some_iff.1 hx
  exact ⟨s, hs⟩

/-- What an event does to the definitions that are held: it leaves them alone, or opens a scope that
holds none, or adds the definition that it makes to a scope that is open. -/
inductive Holds (a b : Analysis) : List (String × Definition) → Prop
  | same (held : b.graph.held = a.graph.held) : Holds a b []
  | opens (held : b.graph.held = a.graph.held ++ [[]]) : Holds a b []
  | adds {d : Definition} {i : Nat} {ds ds' : List (String × Definition)}
      (isOpen : i ∈ a.openScopes) (before : a.graph.held[i]? = some ds)
      (perm : ds'.Perm (ds ++ [(d.name, d)])) (held : b.graph.held = a.graph.held.set i ds') :
      Holds a b [(d.name, d)]

lemma held_step (h : Invariant a) (hb : a.step e = .ok b) : Holds a b e.defines := by
  cases e with
  | enter kind block =>
    cases hb
    exact .opens (held_enter a kind block)
  | leave => exact .same (map_scopes_leave Scope.held_of_uses (fun _ _ => rfl) hb)
  | hoist => exact .same (map_scopes_inScope (fun _ _ => rfl) hb)
  | declare name => exact .same (map_scopes_inScope (fun s _ => s.held_declare name) hb)
  | define hoisted d =>
    obtain ⟨i, hi, rfl⟩ := h.exists_target hb
    obtain ⟨s, hs⟩ := h.exists_scope hi
    refine .adds hi ?_ (Scope.held_define (h.coherent.scope hs) d) (Graph.held_modifyScope_set hs _)
    rw [Graph.held_getElem?, hs]
    rfl
  | mention o => exact .same (map_scopes_mention (fun _ _ => rfl) hb)

lemma flatten_set_perm {α : Type} {xss : List (List α)} {i : Nat} {xs xs' ys : List α}
    (hi : xss[i]? = some xs) (h : xs'.Perm (xs ++ ys)) :
    (xss.set i xs').flatten.Perm (xss.flatten ++ ys) := by
  induction xss generalizing i with
  | nil => cases hi
  | cons zs zss ih =>
    cases i with
    | zero =>
      obtain rfl : zs = xs := by simpa using hi
      rw [List.set_cons_zero, List.flatten_cons, List.flatten_cons]
      refine (h.append_right _).trans ?_
      rw [List.append_assoc, List.append_assoc]
      exact List.perm_append_comm.append_left _
    | succ i =>
      rw [List.set_cons_succ, List.flatten_cons, List.flatten_cons, List.append_assoc]
      exact (ih (by simpa using hi)).append_left _

lemma Holds.perm {ds : List (String × Definition)} (h : Holds a b ds) :
    b.graph.held.flatten.Perm (a.graph.held.flatten ++ ds) := by
  cases h with
  | same held => rw [held, List.append_nil]
  | opens held => rw [held]; simp
  | adds _ before perm held =>
    rw [held]
    exact flatten_set_perm before perm

/-- The definitions that are held after a run are those held before and those of the events. -/
lemma held_run (h : Invariant a) (hb : es.foldlM step a = .ok b) :
    b.graph.held.flatten.Perm (a.graph.held.flatten ++ es.flatMap Event.defines) := by
  induction es generalizing a with
  | nil =>
    cases hb
    simp
  | cons e es ih =>
    rw [List.foldlM_cons] at hb
    obtain ⟨c, hc, hb⟩ := bind_ok_iff.1 hb
    have hrest := ih (h.step hc).2 hb
    rw [List.flatMap_cons, ← List.append_assoc]
    exact hrest.trans ((held_step h hc).perm.append_right _)

end Analysis

end RefFlow
