import RefFlow.Proofs.Scope.Globals

/-!
# Where definitions are added

A definition is added to the innermost open scope or, if it is hoisted, to the scope that takes the
hoisted declarations made there (`Analysis.target`).  In `Proofs/Scope/Definitions` all definitions
of a scope are held together, in some order.  Here the definitions of one variable are followed
through a run, in the order in which they are made:

* `definitionsOf_define` says what an event adds that defines something;
* `filter_definitionsOf_run` says that a run adds nothing of a sort that its events do not define;
* `target_run` says that hoisted declarations made in a scope go to the same scope all along, and
  `Node.home_scopeGraph` that this is the nearest one at which they stop.

A scope that is open stays open as long as the construct lasts (`openScopes_suffix`), and afterwards
it is the innermost one again if it was so before (`Invariant.innermost_run`).

Nothing is defined in a scope while the definitions made in the innermost one go elsewhere
(`Analysis.Spares`).  Such a scope is the global scope of a module, whose body has a scope of its
own (`Node.definitionsOf_global`).
-/

namespace RefFlow

open Fallible

/-! ## The definitions of a variable -/

/-- The definitions of a variable, in the order in which they are made. -/
def Graph.definitionsOf (g : Graph) (v : VariableId) : List Definition :=
  ((g.get? v).map (·.definitions)).getD []

namespace Graph

variable {g : Graph}

lemma definitionsOf_eq (g : Graph) (v : VariableId) : g.definitionsOf v =
    ((g.scopes.map Scope.definitionsOf)[v.scope]?.map fun f => f v.name).getD [] := by
  unfold definitionsOf get?
  rw [List.getElem?_map]
  cases g.scopes[v.scope]? <;> rfl

lemma definitionsOf_modifyScope_define (hg : g.Coherent) {i : Nat} (hi : i < g.scopes.length)
    (d : Definition) (v : VariableId) : (g.modifyScope i (·.define d)).definitionsOf v =
      g.definitionsOf v ++ if v = ⟨i, d.name⟩ then [d] else [] := by
  obtain ⟨j, name⟩ := v
  rw [definitionsOf_eq, definitionsOf_eq, modifyScope, List.getElem?_map, List.getElem?_map,
    List.getElem?_modify]
  dsimp only
  by_cases hij : i = j
  · subst hij
    have hscope := hg g.scopes[i] (List.getElem_mem hi)
    rw [List.getElem?_eq_getElem hi]
    simp [Scope.definitionsOf_define hscope, eq_comm]
  · simp [hij, Ne.symm hij]

end Graph

/-! ## What a run adds -/

namespace Analysis

variable {a b : Analysis} {e : Event} {es : List Event} {i : Nat} {hoisted : Bool}

/-- The scope that a definition made in the given scope is added to. -/
def target (a : Analysis) (hoisted : Bool) (i : Nat) : Nat :=
  if hoisted then (a.graph.scopes[i]?.map (·.home)).getD i else i

lemma inScope_eq (hi : a.openScopes.head? = some i) (f : Scope → Scope) :
    a.inScope hoisted f = .ok { a with graph := a.graph.modifyScope (a.target hoisted i) f } := by
  unfold openScopes at hi
  unfold inScope target
  cases hf : a.frames with
  | nil => simp [hf] at hi
  | cons u us =>
    obtain rfl : u.scope = i := by simpa [hf] using hi
    rfl

lemma Invariant.lt_of_open (h : Invariant a) (hi : i ∈ a.openScopes) :
    i < a.graph.scopes.length := by
  obtain ⟨s, hs⟩ := h.exists_scope hi
  exact (List.getElem?_eq_some_iff.1 hs).1

/-- Definitions are added to scopes that are open. -/
lemma Invariant.target_mem (h : Invariant a) (hi : a.openScopes.head? = some i) :
    a.target hoisted i ∈ a.openScopes := by
  have hstacked := h.stacked
  unfold openScopes at hi ⊢
  cases hf : a.frames with
  | nil => simp [hf] at hi
  | cons u us =>
    obtain rfl : u.scope = i := by simpa [hf] using hi
    rw [hf] at hstacked
    cases hstacked with
    | cons outer known _ =>
      obtain ⟨x, hx⟩ := known
      have hhome := h.rooted.home hx
      rw [Graph.outline_getElem?] at hx
      obtain ⟨s, hs, hsx⟩ := Option.map_eq_some_iff.1 hx
      have hsh : s.home = x := congrArg Outline.home hsx
      unfold target
      split
      · rw [hs, Option.map_some, Option.getD_some, hsh, List.map_cons, ← outer]
        exact hhome
      · exact List.mem_cons_self

lemma exists_head_of_define {d : Definition} (hb : a.step (.define hoisted d) = .ok b) :
    ∃ i, a.openScopes.head? = some i := by
  cases hf : a.frames with
  | nil =>
    rw [step, inScope, hf] at hb
    cases hb
  | cons u us => exact ⟨u.scope, by simp [openScopes, hf]⟩

/-- **What is defined is added to the variable of its name in one scope.** -/
lemma definitionsOf_define (h : Invariant a) (hi : a.openScopes.head? = some i) {d : Definition}
    (hb : a.step (.define hoisted d) = .ok b) (v : VariableId) : b.graph.definitionsOf v =
      a.graph.definitionsOf v ++ if v = ⟨a.target hoisted i, d.name⟩ then [d] else [] := by
  rw [step, inScope_eq hi] at hb
  cases hb
  exact Graph.definitionsOf_modifyScope_define h.coherent (h.lt_of_open (h.target_mem hi)) d v

lemma definitionsOf_enter (a : Analysis) (kind : ScopeKind) (block : Node) (v : VariableId) :
    (a.enter kind block).graph.definitionsOf v = a.graph.definitionsOf v := by
  have hmap : (a.enter kind block).graph.scopes.map Scope.definitionsOf =
      a.graph.scopes.map Scope.definitionsOf ++ [fun _ => []] := by
    unfold enter
    cases a.frames with
    | nil =>
      rw [List.map_append]
      rfl
    | cons f fs =>
      have hmodify : (a.graph.modifyScope f.scope fun s =>
          { s with inner := s.inner ++ [a.graph.scopes.length] }).scopes.map Scope.definitionsOf =
            a.graph.scopes.map Scope.definitionsOf :=
        Graph.map_modifyScope f.scope fun _ _ => rfl
      rw [← hmodify, List.map_append]
      rfl
  rw [Graph.definitionsOf_eq, Graph.definitionsOf_eq, hmap, List.getElem?_append]
  split
  · rfl
  · rename_i hi
    rw [List.getElem?_eq_none (Nat.le_of_not_lt hi), List.getElem?_singleton]
    split <;> rfl

/-- Other events change no definitions. -/
lemma definitionsOf_step (h : Invariant a) (he : e.defines = []) (hb : a.step e = .ok b)
    (v : VariableId) : b.graph.definitionsOf v = a.graph.definitionsOf v := by
  have hsame (h : b.graph.scopes.map Scope.definitionsOf =
      a.graph.scopes.map Scope.definitionsOf) :
      b.graph.definitionsOf v = a.graph.definitionsOf v := by
    rw [Graph.definitionsOf_eq, Graph.definitionsOf_eq, h]
  cases e with
  | enter kind block =>
    cases hb
    exact definitionsOf_enter a kind block v
  | leave => exact hsame (map_scopes_leave Scope.definitionsOf_of_uses (fun _ _ => rfl) hb)
  | hoist => exact hsame (map_scopes_inScope (fun _ _ => rfl) hb)
  | declare name =>
    have hview (s : Scope) (hs : s ∈ a.graph.scopes) :=
      Scope.definitionsOf_declare (h.coherent s hs) name
    exact hsame (map_scopes_inScope hview hb)
  | define hoisted d => cases he
  | mention o => exact hsame (map_scopes_mention (fun _ _ => rfl) hb)

/-- A run adds no definitions of a sort that its events do not make. -/
lemma filter_definitionsOf_run (h : Invariant a) {p : Definition → Bool}
    (hp : ∀ d ∈ es.flatMap Event.defines, p d.2 = false) (hb : es.foldlM step a = .ok b)
    (v : VariableId) :
    (b.graph.definitionsOf v).filter p = (a.graph.definitionsOf v).filter p := by
  induction es generalizing a with
  | nil =>
    cases hb
    rfl
  | cons e es ih =>
    rw [List.foldlM_cons] at hb
    obtain ⟨c, hc, hb⟩ := bind_ok_iff.1 hb
    simp only [List.flatMap_cons, List.forall_mem_append] at hp
    rw [ih (h.step hc).2 hp.2 hb]
    by_cases he : e.defines = []
    · rw [definitionsOf_step h he hc]
    · cases e with
      | define hoisted d =>
        obtain ⟨i, hi⟩ := exists_head_of_define hc
        have hd : p d = false := hp.1 (d.name, d) List.mem_cons_self
        rw [definitionsOf_define h hi hc, List.filter_append]
        split <;> simp [hd]
      | _ => exact absurd rfl he

/-! ## Scopes that are open -/

lemma outline_step (hb : a.step e = .ok b) : a.graph.outline <+: b.graph.outline := by
  by_cases he : e.opened = []
  · have hmap := congrArg (List.map Scope.outline) (emptied_step he hb)
    simp only [Graph.emptied, List.map_map] at hmap
    have houtline : b.graph.outline = a.graph.outline := hmap
    exact houtline ▸ List.prefix_rfl
  · cases e with
    | enter kind block =>
      cases hb
      rw [outline_enter]
      exact List.prefix_append _ _
    | _ => exact absurd rfl he

lemma outline_run (hb : es.foldlM step a = .ok b) : a.graph.outline <+: b.graph.outline := by
  induction es generalizing a with
  | nil =>
    cases hb
    exact List.prefix_rfl
  | cons e es ih =>
    rw [List.foldlM_cons] at hb
    obtain ⟨c, hc, hb⟩ := bind_ok_iff.1 hb
    exact (outline_step hc).trans (ih hb)

lemma length_scopes_run (hb : es.foldlM step a = .ok b) :
    a.graph.scopes.length ≤ b.graph.scopes.length := by
  have hle := (outline_run hb).length_le
  rwa [Graph.length_outline, Graph.length_outline] at hle

/-- **Hoisted declarations made in a scope go to the same scope all along.** -/
lemma target_run (hoisted : Bool) (hi : i < a.graph.scopes.length)
    (hb : es.foldlM step a = .ok b) : b.target hoisted i = a.target hoisted i := by
  obtain ⟨os, hos⟩ := outline_run hb
  have hget : b.graph.outline[i]? = a.graph.outline[i]? := by
    rw [← hos, List.getElem?_append_left (by rwa [Graph.length_outline])]
  have hhome := congrArg (Option.map Outline.home) hget
  rw [Graph.outline_getElem?, Graph.outline_getElem?, Option.map_map, Option.map_map] at hhome
  unfold target
  rw [show b.graph.scopes[i]?.map (·.home) = a.graph.scopes[i]?.map (·.home) from hhome]

/-- After a whole construct the same scope is the innermost one as before, and what is defined goes
to the same scope. -/
lemma Invariant.innermost_run (h : Invariant a) (hi : a.openScopes.head? = some i) {n : Node}
    (hn : Event.Nested n es) (hb : es.foldlM Analysis.step a = .ok b) (hoisted : Bool) :
    b.openScopes.head? = some i ∧ b.target hoisted i = a.target hoisted i := by
  refine ⟨?_, target_run hoisted (h.lt_of_open (List.mem_of_mem_head? hi)) hb⟩
  rw [openScopes_run hn hb, hi]

/-- As long as a construct lasts, the scopes stay open that were open at its beginning. -/
lemma openScopes_suffix {n : Node} {fs : List Event} (hn : Event.Nested n (es ++ fs))
    (hb : es.foldlM step a = .ok b) : a.openScopes <:+ b.openScopes := by
  have hone (n : Node) {e : Event} {es fs : List Event} {a b : Analysis} (hn : Event.Nested n [e])
      (hes : es ++ fs = [e]) (hb : es.foldlM step a = .ok b) : a.openScopes <:+ b.openScopes := by
    rcases List.append_eq_singleton_iff.1 hes with ⟨rfl, -⟩ | ⟨rfl, -⟩
    · cases hb
      exact List.suffix_rfl
    · exact openScopes_run hn hb ▸ List.suffix_rfl
  generalize hgs : es ++ fs = gs at hn
  induction hn generalizing es fs a b with
  | nil =>
    obtain ⟨rfl, -⟩ := List.append_eq_nil_iff.1 hgs
    cases hb
    exact List.suffix_rfl
  | @append _ xs ys hxs hys ih ih' =>
    rcases List.append_eq_append_iff.1 hgs with ⟨zs, rfl, rfl⟩ | ⟨zs, rfl, rfl⟩
    · exact ih hb rfl
    · rw [List.foldlM_append] at hb
      obtain ⟨c, hc, hb⟩ := bind_ok_iff.1 hb
      rw [← openScopes_run hxs hc]
      exact ih' hb rfl
  | hoist => exact hone n .hoist hgs hb
  | declare => exact hone n .declare hgs hb
  | define inside named => exact hone _ (.define inside named) hgs hb
  | mention inside isIdentifier named => exact hone _ (.mention inside isIdentifier named) hgs hb
  | @within _ block kind body _ _ hbody ih =>
    cases es with
    | nil =>
      cases hb
      exact List.suffix_rfl
    | cons e es =>
      rw [Event.within, List.cons_append, List.cons_append] at hgs
      obtain ⟨rfl, hrest⟩ := List.cons.inj hgs
      rw [List.foldlM_cons] at hb
      obtain ⟨c, hc, hb⟩ := bind_ok_iff.1 hb
      cases hc
      have hopen := openScopes_enter a kind block
      rcases List.append_eq_append_iff.1 hrest with ⟨zs, rfl, -⟩ | ⟨zs, rfl, hzs⟩
      · have hinner := ih hb rfl
        rw [hopen] at hinner
        exact (List.suffix_cons _ _).trans hinner
      · rw [List.foldlM_append] at hb
        obtain ⟨c, hc, hb⟩ := bind_ok_iff.1 hb
        have hinner := (openScopes_run hbody hc).trans hopen
        rcases List.append_eq_singleton_iff.1 hzs.symm with ⟨rfl, -⟩ | ⟨rfl, -⟩
        · cases hb
          rw [hinner]
          exact List.suffix_cons _ _
        · have hleave : c.leave = .ok b := by simpa [step] using hb
          rw [openScopes_leave hleave, hinner]
          exact List.suffix_rfl

/-! ## Scopes that nothing is defined in -/

variable {j : Nat} {n : Node}

/-- What is defined now goes to other scopes than the given one. -/
def Spares (a : Analysis) (j : Nat) : Prop :=
  ∀ hoisted, ∀ i ∈ a.openScopes.head?, a.target hoisted i ≠ j

/-- What is defined in a new scope goes to it or, if it is hoisted, to the scope's home. -/
lemma target_enter (a : Analysis) (kind : ScopeKind) (block : Node) (hoisted : Bool) :
    (a.enter kind block).target hoisted a.graph.scopes.length =
      if hoisted then (a.nextOutline kind).home else a.graph.scopes.length := by
  have hnew : (a.enter kind block).graph.outline[a.graph.scopes.length]? =
      some (a.nextOutline kind) := by
    rw [outline_enter, ← Graph.length_outline, List.getElem?_concat_length]
  have hhome := congrArg (Option.map Outline.home) hnew
  rw [Graph.outline_getElem?, Option.map_map] at hhome
  unfold target
  rw [show (a.enter kind block).graph.scopes[a.graph.scopes.length]?.map (·.home) =
    some (a.nextOutline kind).home from hhome, Option.getD_some]

lemma length_scopes_enter (a : Analysis) (kind : ScopeKind) (block : Node) :
    a.graph.scopes.length < (a.enter kind block).graph.scopes.length := by
  rw [← Graph.length_outline, ← Graph.length_outline, outline_enter, List.length_append,
    List.length_singleton]
  exact Nat.lt_succ_self _

/-- A new scope spares an older one if hoisted declarations stop at it, or if the older one was
spared before. -/
lemma spares_enter {kind : ScopeKind} (h : kind.hoists = true ∨ a.Spares j)
    (hj : j < a.graph.scopes.length) (block : Node) : (a.enter kind block).Spares j := by
  intro hoisted i hi
  rw [openScopes_enter, List.head?_cons, Option.mem_some_iff] at hi
  rw [← hi, target_enter]
  split
  · unfold nextOutline
    cases hf : a.frames with
    | nil => exact Nat.ne_of_gt hj
    | cons f fs =>
      dsimp only
      split
      · exact Nat.ne_of_gt hj
      · rename_i hkind
        have hhead : f.scope ∈ a.openScopes.head? := by simp [openScopes, hf]
        have htarget := h.resolve_left hkind true f.scope hhead
        unfold target at htarget
        cases hs : a.graph.scopes[f.scope]? with
        | none => exact Nat.ne_of_gt hj
        | some s => simpa [hs] using htarget
  · exact Nat.ne_of_gt hj

lemma definitionsOf_within (ha : Invariant a) {kind : ScopeKind} {block : Node} {v : VariableId}
    (h : ∀ c, es.foldlM step (a.enter kind block) = .ok c →
      c.graph.definitionsOf v = (a.enter kind block).graph.definitionsOf v)
    (hb : (Event.within kind block es).foldlM step a = .ok b) :
    b.graph.definitionsOf v = a.graph.definitionsOf v := by
  rw [Event.within, List.cons_append, List.foldlM_cons] at hb
  obtain ⟨c, hc, hb⟩ := bind_ok_iff.1 hb
  cases hc
  rw [List.foldlM_append] at hb
  obtain ⟨c, hc, hb⟩ := bind_ok_iff.1 hb
  have hinv := ((ha.enter kind block).run hc).2
  rw [definitionsOf_step (e := .leave) hinv rfl (by simpa using hb), h c hc, definitionsOf_enter]

/-- A construct defines nothing in a scope that is spared at its beginning. -/
lemma definitionsOf_run_of_spares (hn : Event.Nested n es) (h : Invariant a) (hs : a.Spares j)
    (hj : j < a.graph.scopes.length) (hb : es.foldlM step a = .ok b) (name : String) :
    b.graph.definitionsOf ⟨j, name⟩ = a.graph.definitionsOf ⟨j, name⟩ := by
  induction hn generalizing a b with
  | nil =>
    cases hb
    rfl
  | @append n es fs hes _ ih ih' =>
    rw [List.foldlM_append] at hb
    obtain ⟨c, hc, hb⟩ := bind_ok_iff.1 hb
    have hspares : c.Spares j := by
      intro hoisted i hi
      rw [openScopes_run hes hc] at hi
      rw [(h.innermost_run hi hes hc hoisted).2]
      exact hs hoisted i hi
    have hlength := length_scopes_run hc
    exact (ih' (h.run hc).2 hspares (by omega) hb).trans (ih h hs hj hc)
  | @define n hoisted d =>
    have hb : a.step (.define hoisted d) = .ok b := by simpa using hb
    obtain ⟨i, hi⟩ := exists_head_of_define hb
    have hne : (⟨j, name⟩ : VariableId) ≠ ⟨a.target hoisted i, d.name⟩ := fun heq =>
      hs hoisted i hi (congrArg VariableId.scope heq).symm
    rw [definitionsOf_define h hi hb, if_neg hne, List.append_nil]
  | @within n block kind es _ _ _ ih =>
    have hlength := length_scopes_enter a kind block
    exact definitionsOf_within h (fun d hd =>
      ih (h.enter kind block) (spares_enter (.inr hs) hj block) (by omega) hd) hb
  | _ => exact definitionsOf_step h rfl (by simpa using hb) _

end Analysis

/-- **Hoisted declarations go to the nearest scope where they stop.** -/
lemma Node.home_scopeGraph {sourceType : String} {globals : List String} {root : Node} {g : Graph}
    (hroot : root.kind = .program) (h : root.scopeGraph sourceType globals = .ok g) {i : Nat}
    {s : Scope} (hs : g.scopes[i]? = some s) : g.Home i s.home := by
  have hsurrounded := Node.surrounded_scopeGraph hroot h
  have hhoused := Node.housed_scopeGraph h
  obtain ⟨t, ht, hkind⟩ := Node.exists_first hroot h
  obtain ⟨es, b, -, hb, rfl⟩ := Node.exists_run h
  obtain ⟨-, hinv⟩ := Analysis.invariant_initial.run hb
  have hlinked := Analysis.linked_run Analysis.invariant_initial Graph.linked_empty hb
  refine hlinked.isHome (fun {j s} hs hj => ?_) (fun s hs => ?_) hs
  · obtain ⟨u, hu⟩ := Option.ne_none_iff_exists'.1 (hsurrounded j s hs hj)
    obtain ⟨t, ht, -⟩ := hhoused.contains_block hs hu
    exact ⟨u, Graph.IsUpper.lt hinv.rooted ⟨s, hs, hu⟩, hu, t, ht⟩
  · obtain rfl : s = t := Option.some_inj.1 (hs.symm.trans ht)
    rw [hkind]
    rfl

lemma Node.home_target {sourceType : String} {globals : List String} {root : Node} {b : Analysis}
    (hroot : root.kind = .program) (h : root.scopeGraph sourceType globals = .ok b.graph) {i : Nat}
    (hi : i < b.graph.scopes.length) : b.graph.Home i (b.target true i) := by
  have hs := List.getElem?_eq_getElem hi
  rw [Analysis.target, if_pos rfl, hs]
  exact home_scopeGraph hroot h hs

/-- **In a module, nothing is defined in the global scope.** -/
lemma Node.definitionsOf_global {globals : List String} {root : Node} {g : Graph}
    (hroot : root.kind = .program) (h : root.scopeGraph "module" globals = .ok g) (name : String) :
    g.definitionsOf ⟨0, name⟩ = [] := by
  obtain ⟨body, a, b, c, hbody, ha, hb, hc, rfl⟩ := run_program hroot h
  have hfirst := Analysis.invariant_initial.enter .global root
  have hinv := (hfirst.run ha).2
  have hlength : 0 < a.graph.scopes.length := by
    have hle := Analysis.length_scopes_run ha
    have hfirst := Analysis.length_scopes_enter {} .global root
    omega
  have hdeclared : a.graph.definitionsOf ⟨0, name⟩ = [] := by
    have hsame := Analysis.filter_definitionsOf_run hfirst (p := fun _ => true)
      (by simp [Event.defines]) ha ⟨0, name⟩
    rw [List.filter_true, List.filter_true, Analysis.definitionsOf_enter] at hsame
    exact hsame
  -- All else happens in the scope of the module, which opens next.
  rw [Event.withinIf, if_pos (beq_self_eq_true _)] at hb
  have hspares : (a.enter .module root).Spares 0 := Analysis.spares_enter (.inl rfl) hlength root
  have hmodule := Analysis.length_scopes_enter a .module root
  rw [Analysis.definitionsOf_step (e := .leave) (hinv.run hb).2 rfl hc,
    Analysis.definitionsOf_within hinv (fun d hd =>
      Analysis.definitionsOf_run_of_spares (nested_bodyEvents body hbody)
        (hinv.enter .module root) hspares (by omega) hd name) hb, hdeclared]

end RefFlow
