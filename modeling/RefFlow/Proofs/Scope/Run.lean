import RefFlow.Proofs.Fallible
import RefFlow.Proofs.Scope.Coherent

/-!
# An invariant of scope analysis

Scope analysis takes the events of a program one after the other.  References are settled when the
scope closes in which they are pending, while declarations may still be made in the scopes around.
What makes the outcome independent of the order of uses and declarations is that *a scope that has
closed never changes again*, as far as names are concerned: hoisted declarations go to a scope that
is open, because the home of a scope is the scope itself or one of those around it.

* `Persists a b` says that what is closed in `a` is closed in `b`, with the same names and the same
  scopes around it.
* `Invariant a` says that all scopes are coherent, that the open ones form a stack, and that every
  reference is either pending in the innermost open scope on its way outward, having passed only
  closed scopes that do not declare its name, or settled for good.
* `Invariant.step` says that every step persists and keeps the invariant, and `Invariant.run` that
  every run does.
-/

namespace RefFlow

open Fallible

/-! ## Stacks of scopes -/

/-- The scopes around each scope are scopes that opened before it, nested in each other, and hoisted
declarations go to the scope itself or to one of them. -/
structure Rooted (os : List Outline) : Prop where
  lt : ∀ {i : Nat} {o : Outline}, os[i]? = some o → ∀ u ∈ o.outer, u < i
  upper : ∀ {i : Nat} {o : Outline} {u : Nat} {us : List Nat}, os[i]? = some o →
    o.outer = u :: us → ∃ h, os[u]? = some ⟨us, h⟩
  home : ∀ {i : Nat} {o : Outline}, os[i]? = some o → o.home ∈ i :: o.outer

/-- The frames are those of scopes nested in each other, the innermost first. -/
inductive Stacked (os : List Outline) : List Frame → Prop
  | nil : Stacked os []
  | cons {f : Frame} {fs : List Frame} (outer : f.outer = fs.map (·.scope))
      (known : ∃ h, os[f.scope]? = some ⟨f.outer, h⟩) : Stacked os fs → Stacked os (f :: fs)

lemma Rooted.append {os : List Outline} {o : Outline} (h : Rooted os)
    (hupper : ∀ u us, o.outer = u :: us → ∃ x, os[u]? = some ⟨us, x⟩)
    (hhome : o.home ∈ os.length :: o.outer) : Rooted (os ++ [o]) := by
  refine ⟨?_, ?_, ?_⟩
  · intro i p hp u hu
    rcases getElem?_concat_cases hp with hp | ⟨rfl, rfl⟩
    · exact h.lt hp u hu
    · cases ho : p.outer with
      | nil => rw [ho] at hu; cases hu
      | cons v vs =>
        obtain ⟨x, hv⟩ := hupper v vs ho
        have hlt : v < os.length := (List.getElem?_eq_some_iff.1 hv).1
        rw [ho] at hu
        rcases List.mem_cons.1 hu with rfl | hu
        · exact hlt
        · exact Nat.lt_trans (h.lt hv u hu) hlt
  · intro i p u us hp ho
    rcases getElem?_concat_cases hp with hp | ⟨rfl, rfl⟩
    · obtain ⟨x, hx⟩ := h.upper hp ho
      exact ⟨x, getElem?_append_left_of_some hx⟩
    · obtain ⟨x, hx⟩ := hupper u us ho
      exact ⟨x, getElem?_append_left_of_some hx⟩
  · intro i p hp
    rcases getElem?_concat_cases hp with hp | ⟨rfl, rfl⟩
    · exact h.home hp
    · exact hhome

namespace Stacked

variable {os os' : List Outline} {f : Frame} {fs : List Frame}

lemma append (h : Stacked os fs) (o : List Outline) : Stacked (os ++ o) fs := by
  induction h with
  | nil => exact .nil
  | cons outer known _ ih =>
    obtain ⟨x, hx⟩ := known
    exact .cons outer ⟨x, getElem?_append_left_of_some hx⟩ ih

lemma withPending (h : Stacked os (f :: fs)) (ps : List Nat) :
    Stacked os ({ f with pending := ps } :: fs) := by
  cases h with
  | cons outer known h => exact .cons outer known h

lemma outline_of_mem (h : Stacked os fs) (hf : f ∈ fs) : ∃ x, os[f.scope]? = some ⟨f.outer, x⟩ := by
  induction h with
  | nil => cases hf
  | cons _ known _ ih =>
    rcases List.mem_cons.1 hf with rfl | hf
    · exact known
    · exact ih hf

/-- Frames of the same scope are the same. -/
lemma eq_of_scope_eq (h : Stacked os fs) (hr : Rooted os) {g : Frame} (hf : f ∈ fs) (hg : g ∈ fs)
    (he : f.scope = g.scope) : f = g := by
  induction h with
  | nil => cases hf
  | @cons f₀ fs outer known _ ih =>
    obtain ⟨x, hx⟩ := known
    have hlt : ∀ k ∈ fs, k.scope < f₀.scope := by
      intro k hk
      refine hr.lt hx k.scope ?_
      rw [outer]
      exact List.mem_map_of_mem hk
    rcases List.mem_cons.1 hf with rfl | hf' <;> rcases List.mem_cons.1 hg with rfl | hg'
    · rfl
    · exact absurd (hlt g hg') (by omega)
    · exact absurd (hlt f hf') (by omega)
    · exact ih hf' hg'

end Stacked

namespace Analysis

/-- The scopes that are open, the innermost first. -/
def openScopes (a : Analysis) : List Nat := a.frames.map (·.scope)

/-! ## What has closed stays as it is -/

/-- The scopes that are closed in the one state are closed in the other, and declare the same names;
the scopes around a scope do not change. -/
structure Persists (a b : Analysis) : Prop where
  length_le : a.graph.scopes.length ≤ b.graph.scopes.length
  chain : ∀ i < a.graph.scopes.length, b.graph.chain i = a.graph.chain i
  closed : ∀ i < a.graph.scopes.length, i ∉ a.openScopes → i ∉ b.openScopes
  declares : ∀ i < a.graph.scopes.length, i ∉ a.openScopes →
    ∀ name, b.graph.declares i name = a.graph.declares i name

lemma persists_of_outline_eq {a b : Analysis} (ho : b.graph.outline = a.graph.outline)
    (hopen : ∀ i ∈ b.openScopes, i ∈ a.openScopes)
    (hd : ∀ i, i ∉ a.openScopes → ∀ name, b.graph.declares i name = a.graph.declares i name) :
    Persists a b := by
  have hlen : b.graph.scopes.length = a.graph.scopes.length := by
    rw [← Graph.length_outline, ho, Graph.length_outline]
  refine ⟨Nat.le_of_eq hlen.symm, ?_, ?_, fun i _ => hd i⟩
  · intro i _
    rw [Graph.chain, ho]
    rfl
  · exact fun i _ hi hb => hi (hopen i hb)

/-- A closed scope that does not declare the name. -/
def Passed (a : Analysis) (name : String) (i : Nat) : Prop :=
  i < a.graph.scopes.length ∧ i ∉ a.openScopes ∧ a.graph.declares i name = false

lemma Passed.persist {a b : Analysis} (h : Persists a b) {name : String} {i : Nat}
    (hi : a.Passed name i) : b.Passed name i := by
  obtain ⟨hlt, hclosed, hd⟩ := hi
  refine ⟨Nat.lt_of_lt_of_le hlt h.length_le, h.closed i hlt hclosed, ?_⟩
  rw [h.declares i hlt hclosed, hd]

/-! ## The state of a reference -/

/-- The reference is unresolved, and has come to a scope: all scopes before it on the way outward
are closed and do not declare its name. -/
def Awaits (a : Analysis) (f : Frame) (r : Reference) : Prop :=
  r.resolved = none ∧ ∃ passed, a.graph.chain r.scope = passed ++ f.scope :: f.outer ∧
    ∀ i ∈ passed, a.Passed r.name i

/-- The reference is resolved to the first scope on the way outward that declares its name, or
unresolved if there is none, and all scopes up to there are closed. -/
def Settled (a : Analysis) (r : Reference) : Prop :=
  ∃ passed rest, a.graph.chain r.scope = passed ++ rest ∧ (∀ i ∈ passed, a.Passed r.name i) ∧
    ((rest = [] ∧ r.resolved = none) ∨
      ∃ j js, rest = j :: js ∧ j < a.graph.scopes.length ∧ j ∉ a.openScopes ∧
        a.graph.declares j r.name = true ∧ r.resolved = some ⟨j, r.name⟩)

variable {a b : Analysis} {r : Reference}

lemma Awaits.persist (h : Persists a b) (hr : r.scope < a.graph.scopes.length) {f g : Frame}
    (hs : g.scope = f.scope) (ho : g.outer = f.outer) (hf : a.Awaits f r) : b.Awaits g r := by
  obtain ⟨hnone, passed, hchain, hpassed⟩ := hf
  refine ⟨hnone, passed, ?_, fun i hi => (hpassed i hi).persist h⟩
  rw [h.chain r.scope hr, hchain, hs, ho]

lemma Settled.persist (h : Persists a b) (hr : r.scope < a.graph.scopes.length)
    (hs : a.Settled r) : b.Settled r := by
  obtain ⟨passed, rest, hchain, hpassed, hrest⟩ := hs
  refine ⟨passed, rest, by rw [h.chain r.scope hr, hchain],
    fun i hi => (hpassed i hi).persist h, ?_⟩
  rcases hrest with hrest | ⟨j, js, hrest, hlt, hclosed, hd, hres⟩
  · exact .inl hrest
  · refine .inr ⟨j, js, hrest, Nat.lt_of_lt_of_le hlt h.length_le, h.closed j hlt hclosed, ?_, hres⟩
    rw [h.declares j hlt hclosed, hd]

/-- The scopes are coherent, those that are open form a stack, and every reference is pending in the
open scope that it has come to, or settled. -/
structure Invariant (a : Analysis) : Prop where
  coherent : a.graph.Coherent
  rooted : Rooted a.graph.outline
  stacked : Stacked a.graph.outline a.frames
  scope_lt : ∀ {k : Nat} {r : Reference}, a.graph.references[k]? = some r →
    r.scope < a.graph.scopes.length
  pending : ∀ {f : Frame} {k : Nat}, f ∈ a.frames → k ∈ f.pending →
    ∃ r, a.graph.references[k]? = some r ∧ a.Awaits f r
  settled : ∀ {k : Nat} {r : Reference}, a.graph.references[k]? = some r →
    (∃ f ∈ a.frames, k ∈ f.pending) ∨ a.Settled r

lemma invariant_initial : Invariant {} where
  coherent s hs := (List.not_mem_nil hs).elim
  rooted := ⟨nofun, nofun, nofun⟩
  stacked := .nil
  scope_lt h := by cases h
  pending h := by cases h
  settled h := by cases h

/-! ## Steps -/

/-! ### Opening a scope -/

/-- The outline of a scope that opens now. -/
def nextOutline (a : Analysis) (kind : ScopeKind) : Outline :=
  let i := a.graph.scopes.length
  match a.frames with
  | [] => ⟨[], i⟩
  | f :: _ => ⟨f.scope :: f.outer,
      if kind.hoists then i else (a.graph.scopes[f.scope]?.map (·.home)).getD i⟩

lemma outline_enter (a : Analysis) (kind : ScopeKind) (block : Node) :
    (a.enter kind block).graph.outline = a.graph.outline ++ [a.nextOutline kind] := by
  unfold enter nextOutline
  cases a.frames with
  | nil => simp [Graph.outline, Scope.outline]
  | cons f fs =>
    have hmodify := Graph.outline_modifyScope (g := a.graph) f.scope
      (f := fun s => { s with inner := s.inner ++ [a.graph.scopes.length] }) fun _ => rfl
    simp only [Graph.outline, Graph.modifyScope] at hmodify
    simp [Graph.outline, Scope.outline, hmodify]

lemma frames_enter (a : Analysis) (kind : ScopeKind) (block : Node) :
    (a.enter kind block).frames =
      { scope := a.graph.scopes.length, outer := (a.nextOutline kind).outer } :: a.frames := by
  unfold enter nextOutline
  cases a.frames <;> rfl

lemma references_enter (a : Analysis) (kind : ScopeKind) (block : Node) :
    (a.enter kind block).graph.references = a.graph.references := rfl

lemma declares_enter (a : Analysis) (kind : ScopeKind) (block : Node) {i : Nat}
    (hi : i < a.graph.scopes.length) (name : String) :
    (a.enter kind block).graph.declares i name = a.graph.declares i name := by
  unfold enter
  cases a.frames with
  | nil =>
    simp only [Graph.declares]
    rw [List.getElem?_append_left hi]
  | cons f fs =>
    simp only [Graph.declares]
    rw [List.getElem?_append_left (by rwa [List.length_modify])]
    refine Graph.declares_modifyScope (g := a.graph) f.scope i
      (f := fun s => { s with inner := s.inner ++ [a.graph.scopes.length] }) ?_ name
    exact fun _ _ => rfl

lemma enter_persists (a : Analysis) (kind : ScopeKind) (block : Node) :
    Persists a (a.enter kind block) := by
  have hlen : (a.enter kind block).graph.scopes.length = a.graph.scopes.length + 1 := by
    rw [← Graph.length_outline, outline_enter, List.length_append, Graph.length_outline]
    rfl
  refine ⟨by omega, ?_, ?_, fun i hi _ => declares_enter a kind block hi⟩
  · intro i hi
    rw [Graph.chain, Graph.chain, outline_enter,
      List.getElem?_append_left (by rwa [Graph.length_outline])]
  · intro i hi hclosed hopen
    rw [openScopes, frames_enter, List.map_cons, List.mem_cons] at hopen
    rcases hopen with rfl | hopen
    · exact Nat.lt_irrefl _ hi
    · exact hclosed hopen

/-- The scope around a new one is the innermost open scope, and hoisted declarations made in it go
to an open scope. -/
lemma Invariant.rooted_enter (h : Invariant a) (kind : ScopeKind) :
    Rooted (a.graph.outline ++ [a.nextOutline kind]) := by
  apply h.rooted.append
  · intro u us hu
    have hstacked := h.stacked
    unfold nextOutline at hu
    cases hf : a.frames with
    | nil =>
      rw [hf] at hu
      cases hu
    | cons f fs =>
      rw [hf] at hu hstacked
      cases hu
      exact hstacked.outline_of_mem List.mem_cons_self
  · rw [Graph.length_outline]
    have hstacked := h.stacked
    unfold nextOutline
    cases hf : a.frames with
    | nil => exact List.mem_cons_self
    | cons f fs =>
      rw [hf] at hstacked
      obtain ⟨x, hx⟩ := hstacked.outline_of_mem List.mem_cons_self
      have hhome := h.rooted.home hx
      dsimp only
      split
      · exact List.mem_cons_self
      · rw [Graph.outline_getElem?] at hx
        obtain ⟨s, hs, hsx⟩ := Option.map_eq_some_iff.1 hx
        have hsh : s.home = x := congrArg Outline.home hsx
        rw [hs, Option.map_some, Option.getD_some, hsh]
        exact List.mem_cons_of_mem _ hhome

lemma Invariant.enter (h : Invariant a) (kind : ScopeKind) (block : Node) :
    Invariant (a.enter kind block) := by
  have hp := enter_persists a kind block
  refine ⟨coherent_enter h.coherent kind block, ?_, ?_, ?_, ?_, ?_⟩
  · rw [outline_enter]
    exact h.rooted_enter kind
  · rw [outline_enter, frames_enter]
    refine .cons ?_ ⟨(a.nextOutline kind).home, ?_⟩ (h.stacked.append _)
    · have hstacked := h.stacked
      unfold nextOutline
      cases hf : a.frames with
      | nil => rfl
      | cons f fs =>
        rw [hf] at hstacked
        cases hstacked with
        | cons outer _ _ => rw [List.map_cons, ← outer]
    · rw [← Graph.length_outline, List.getElem?_concat_length]
  · intro k r hr
    exact Nat.lt_of_lt_of_le (h.scope_lt hr) hp.length_le
  · intro f k hf hk
    rw [frames_enter] at hf
    rcases List.mem_cons.1 hf with rfl | hf
    · cases hk
    · obtain ⟨r, hr, hawaits⟩ := h.pending hf hk
      exact ⟨r, hr, hawaits.persist hp (h.scope_lt hr) rfl rfl⟩
  · intro k r hr
    rcases h.settled hr with ⟨f, hf, hk⟩ | hs
    · refine .inl ⟨f, ?_, hk⟩
      rw [frames_enter]
      exact List.mem_cons_of_mem _ hf
    · exact .inr (hs.persist hp (h.scope_lt hr))

/-! ### Declaring -/

/-- Declarations, hoisted or not, go to a scope that is open. -/
lemma Invariant.exists_target (h : Invariant a) {hoisted : Bool} {f : Scope → Scope}
    (hb : a.inScope hoisted f = .ok b) :
    ∃ i ∈ a.openScopes, b = { a with graph := a.graph.modifyScope i f } := by
  have hstacked := h.stacked
  unfold inScope at hb
  cases hf : a.frames with
  | nil =>
    rw [hf] at hb
    cases hb
  | cons u us =>
    rw [hf] at hb hstacked
    cases hb
    refine ⟨_, ?_, rfl⟩
    have hopen : a.openScopes = u.scope :: u.outer := by
      cases hstacked with
      | cons outer _ _ => rw [openScopes, hf, List.map_cons, outer]
    rw [hopen]
    split
    · obtain ⟨x, hx⟩ := hstacked.outline_of_mem List.mem_cons_self
      have hhome := h.rooted.home hx
      rw [Graph.outline_getElem?] at hx
      obtain ⟨s, hs, hsx⟩ := Option.map_eq_some_iff.1 hx
      have hsh : s.home = x := congrArg Outline.home hsx
      rw [hs, Option.map_some, Option.getD_some, hsh]
      exact hhome
    · exact List.mem_cons_self

lemma Invariant.inScope (h : Invariant a) {hoisted : Bool} {f : Scope → Scope}
    (hf : ∀ s, (f s).outline = s.outline) (hcoherent : ∀ s : Scope, s.Coherent → (f s).Coherent)
    (hb : a.inScope hoisted f = .ok b) : Persists a b ∧ Invariant b := by
  obtain ⟨i, hi, rfl⟩ := h.exists_target hb
  have ho : (a.graph.modifyScope i f).outline = a.graph.outline := Graph.outline_modifyScope i hf
  have hp : Persists a { a with graph := a.graph.modifyScope i f } := by
    refine persists_of_outline_eq ho (fun _ hj => hj) fun j hj name => ?_
    refine Graph.declares_modifyScope_of_ne ?_ f name
    rintro rfl
    exact hj hi
  refine ⟨hp, h.coherent.modifyScope i hcoherent, ?_, ?_, ?_, ?_, ?_⟩
  · exact ho ▸ h.rooted
  · exact ho ▸ h.stacked
  · exact fun hr => Nat.lt_of_lt_of_le (h.scope_lt hr) hp.length_le
  · intro g k hg hk
    obtain ⟨r, hr, hawaits⟩ := h.pending hg hk
    exact ⟨r, hr, hawaits.persist hp (h.scope_lt hr) rfl rfl⟩
  · exact fun hr => (h.settled hr).imp_right fun hs => hs.persist hp (h.scope_lt hr)

/-! ### Mentioning -/

/-- A mention is recorded in the innermost open scope, and is pending there. -/
lemma mention_eq {u : Frame} {us : List Frame} (hf : a.frames = u :: us) (o : Occurrence) :
    a.mention o = .ok
      { graph :=
          { a.graph.modifyScope u.scope fun s =>
              { s with references := s.references ++ [a.graph.references.length] } with
            references := a.graph.references ++ [{ toOccurrence := o, scope := u.scope }] }
        frames := { u with pending := u.pending ++ [a.graph.references.length] } :: us } := by
  unfold mention
  rw [hf]
  rfl

lemma Invariant.mention (h : Invariant a) {o : Occurrence} (hb : a.mention o = .ok b) :
    Persists a b ∧ Invariant b := by
  cases hf : a.frames with
  | nil =>
    unfold Analysis.mention at hb
    rw [hf] at hb
    cases hb
  | cons u us =>
    rw [mention_eq hf] at hb
    injection hb with hb
    have hu : u ∈ a.frames := by rw [hf]; exact List.mem_cons_self
    obtain ⟨x, hx⟩ := h.stacked.outline_of_mem hu
    have ho : b.graph.outline = a.graph.outline := by
      rw [← hb]
      exact Graph.outline_modifyScope u.scope fun _ => rfl
    have hrefs : b.graph.references =
        a.graph.references ++ [{ toOccurrence := o, scope := u.scope }] := by rw [← hb]
    have hframes : b.frames =
        { u with pending := u.pending ++ [a.graph.references.length] } :: us := by rw [← hb]
    have hp : Persists a b := by
      refine persists_of_outline_eq ho ?_ fun j _ name => ?_
      · intro j hj
        rw [openScopes, hframes] at hj
        rw [openScopes, hf]
        exact hj
      · rw [← hb]
        refine Graph.declares_modifyScope (g := a.graph) u.scope j
          (f := fun s => { s with references := s.references ++ [a.graph.references.length] })
          ?_ name
        exact fun _ _ => rfl
    have hold : ∀ {f f' : Frame} {j : Nat}, f ∈ a.frames → j ∈ f.pending → f'.scope = f.scope →
        f'.outer = f.outer → ∃ r, b.graph.references[j]? = some r ∧ b.Awaits f' r := by
      intro f f' j hfm hj hs ho
      obtain ⟨r, hr, hawaits⟩ := h.pending hfm hj
      refine ⟨r, ?_, hawaits.persist hp (h.scope_lt hr) hs ho⟩
      rw [hrefs]
      exact getElem?_append_left_of_some hr
    refine ⟨hp, hb ▸ h.coherent.modifyScope _ fun s hs => hs.congr rfl rfl, ho ▸ h.rooted, ?_, ?_,
      ?_, ?_⟩
    · rw [ho, hframes]
      exact (hf ▸ h.stacked).withPending _
    · intro j r hr
      refine Nat.lt_of_lt_of_le ?_ hp.length_le
      rw [hrefs] at hr
      rcases getElem?_concat_cases hr with hr | ⟨-, rfl⟩
      · exact h.scope_lt hr
      · rw [← Graph.length_outline]
        exact (List.getElem?_eq_some_iff.1 hx).1
    · intro f j hfm hj
      rw [hframes] at hfm
      rcases List.mem_cons.1 hfm with rfl | hfm
      · rcases List.mem_append.1 hj with hj | hj
        · exact hold hu hj rfl rfl
        · -- The new reference has passed no scope yet.
          obtain rfl : j = a.graph.references.length := by simpa using hj
          refine ⟨_, by rw [hrefs]; exact List.getElem?_concat_length, rfl, [], ?_, nofun⟩
          exact Graph.chain_of_outline (ho ▸ hx)
      · exact hold (by rw [hf]; exact List.mem_cons_of_mem _ hfm) hj rfl rfl
    · intro j r hr
      rw [hrefs] at hr
      rw [hframes]
      rcases getElem?_concat_cases hr with hr | ⟨rfl, rfl⟩
      · rcases h.settled hr with ⟨f, hfm, hj⟩ | hs
        · left
          rw [hf] at hfm
          rcases List.mem_cons.1 hfm with rfl | hfm
          · exact ⟨_, List.mem_cons_self, List.mem_append_left _ hj⟩
          · exact ⟨f, List.mem_cons_of_mem _ hfm, hj⟩
        · exact .inr (hs.persist hp (h.scope_lt hr))
      · exact .inl ⟨_, List.mem_cons_self, List.mem_append_right _ (List.mem_singleton_self _)⟩

/-! ### Closing a scope -/

/-- The scope that a reference awaits is the first open one on its way outward. -/
lemma Awaits.find?_chain {f : Frame} (h : a.Awaits f r) (hf : f ∈ a.frames) :
    (a.graph.chain r.scope).find? (· ∈ a.openScopes) = some f.scope := by
  obtain ⟨-, passed, hchain, hpassed⟩ := h
  have hnone : passed.find? (· ∈ a.openScopes) = none := by
    rw [List.find?_eq_none]
    intro i hi
    simpa using (hpassed i hi).2.1
  have hopen : f.scope ∈ a.openScopes := List.mem_map_of_mem hf
  rw [hchain, List.find?_append, hnone, Option.none_or,
    List.find?_cons_of_pos (by simpa using hopen)]

/-- A reference is pending in one scope at most. -/
lemma Invariant.pending_unique (h : Invariant a) {f g : Frame} {k : Nat} (hf : f ∈ a.frames)
    (hg : g ∈ a.frames) (hkf : k ∈ f.pending) (hkg : k ∈ g.pending) : f = g := by
  obtain ⟨r, hr, haf⟩ := h.pending hf hkf
  obtain ⟨r', hr', hag⟩ := h.pending hg hkg
  obtain rfl : r = r' := Option.some_inj.1 (hr.symm.trans hr')
  refine h.stacked.eq_of_scope_eq h.rooted hf hg (Option.some_inj.1 ?_)
  rw [← haf.find?_chain hf, ← hag.find?_chain hg]

/-- The frames after the innermost scope has closed. -/
def handOver (left : List Nat) : List Frame → List Frame
  | [] => []
  | u :: us => { u with pending := u.pending ++ left } :: us

lemma scope_handOver (left : List Nat) (fs : List Frame) :
    (handOver left fs).map (·.scope) = fs.map (·.scope) := by
  cases fs <;> rfl

lemma stacked_handOver {os : List Outline} {fs : List Frame} (h : Stacked os fs) (left : List Nat) :
    Stacked os (handOver left fs) := by
  cases fs with
  | nil => exact h
  | cons u us => exact h.withPending _

/-- What is pending after the closing was pending before, or is left over by the scope that closes.
-/
lemma mem_handOver {left : List Nat} {fs : List Frame} {f : Frame} (hf : f ∈ handOver left fs) :
    ∃ u ∈ fs, f.scope = u.scope ∧ f.outer = u.outer ∧
      ∀ k ∈ f.pending, k ∈ u.pending ∨ (k ∈ left ∧ fs.head? = some u) := by
  cases fs with
  | nil => cases hf
  | cons u us =>
    rcases List.mem_cons.1 hf with rfl | hf
    · refine ⟨u, List.mem_cons_self, rfl, rfl, fun k hk => ?_⟩
      exact (List.mem_append.1 hk).imp_right fun hk => ⟨hk, rfl⟩
    · exact ⟨f, List.mem_cons_of_mem _ hf, rfl, rfl, fun k hk => .inl hk⟩

lemma exists_mem_handOver {left : List Nat} {fs : List Frame} {u : Frame} (hu : u ∈ fs) :
    ∃ f ∈ handOver left fs, ∀ k ∈ u.pending, k ∈ f.pending := by
  cases fs with
  | nil => cases hu
  | cons v vs =>
    rcases List.mem_cons.1 hu with rfl | hu
    · exact ⟨_, List.mem_cons_self, fun k hk => List.mem_append_left _ hk⟩
    · exact ⟨u, List.mem_cons_of_mem _ hu, fun k hk => hk⟩

/-- What closing the innermost scope does: its pending references are resolved or handed over to the
scope around, and nothing else changes. -/
structure Closing (a : Analysis) (u : Frame) (us : List Frame) (b : Analysis) : Prop where
  before : a.frames = u :: us
  frames : b.frames = handOver (u.pending.filter (isLeft a.graph u.scope)) us
  outline : b.graph.outline = a.graph.outline
  declares : ∀ j name, b.graph.declares j name = a.graph.declares j name
  references : ∀ k, b.graph.references[k]? = a.graph.references[k]?.map fun r =>
    if k ∈ u.pending then resolveIn a.graph u.scope r else r

lemma closing_of_leave (hb : a.leave = .ok b) : ∃ u us, Closing a u us b := by
  unfold leave at hb
  cases hf : a.frames with
  | nil =>
    rw [hf] at hb
    cases hb
  | cons u us =>
    rw [hf] at hb
    cases hb
    refine ⟨u, us, hf, ?_, outline_settleAll .., fun _ _ => declares_settleAll ..,
      fun _ => references_settleAll ..⟩
    rw [← settleAll_snd]
    cases us <;> rfl

lemma scope_resolveIn (g : Graph) (scope : Nat) (r : Reference) :
    (resolveIn g scope r).scope = r.scope := by
  unfold resolveIn
  split <;> rfl

namespace Closing

variable {u : Frame} {us : List Frame} (c : Closing a u us b)
include c

lemma mem : u ∈ a.frames := by
  rw [c.before]
  exact List.mem_cons_self

lemma mem_of_mem {f : Frame} (hf : f ∈ us) : f ∈ a.frames := by
  rw [c.before]
  exact List.mem_cons_of_mem _ hf

lemma openScopes : b.openScopes = us.map (·.scope) := by
  rw [Analysis.openScopes, c.frames, scope_handOver]

lemma persists : Persists a b := by
  refine persists_of_outline_eq c.outline ?_ fun j _ name => c.declares j name
  intro j hj
  rw [c.openScopes] at hj
  rw [Analysis.openScopes, c.before]
  exact List.mem_cons_of_mem _ hj

variable (h : Invariant a)
include h

lemma outer_eq : u.outer = us.map (·.scope) := by
  have hstacked := h.stacked
  rw [c.before] at hstacked
  cases hstacked with
  | cons outer _ _ => exact outer

lemma stacked : Stacked a.graph.outline us := by
  have hstacked := h.stacked
  rw [c.before] at hstacked
  cases hstacked with
  | cons _ _ hus => exact hus

lemma scope_lt : u.scope < b.graph.scopes.length := by
  obtain ⟨x, hx⟩ := h.stacked.outline_of_mem c.mem
  rw [← Graph.length_outline, c.outline]
  exact (List.getElem?_eq_some_iff.1 hx).1

lemma closed : u.scope ∉ b.openScopes := by
  obtain ⟨x, hx⟩ := h.stacked.outline_of_mem c.mem
  rw [c.openScopes, ← c.outer_eq h]
  exact fun hm => Nat.lt_irrefl _ (h.rooted.lt hx u.scope hm)

/-- A reference that is left over has passed the scope that closes, and is unchanged. -/
lemma pass {k : Nat} (hk : k ∈ u.pending) (hr : a.graph.references[k]? = some r)
    (hnot : a.graph.declares u.scope r.name = false) :
    b.graph.references[k]? = some r ∧ r.resolved = none ∧
      ∃ passed, b.graph.chain r.scope = passed ++ u.outer ∧ ∀ i ∈ passed, b.Passed r.name i := by
  obtain ⟨r', hr', hnone, passed, hchain, hpassed⟩ := h.pending c.mem hk
  obtain rfl : r = r' := Option.some_inj.1 (hr.symm.trans hr')
  refine ⟨?_, hnone, passed ++ [u.scope], ?_, ?_⟩
  · rw [c.references, hr, Option.map_some, if_pos hk, resolveIn, if_neg (by simp [hnot])]
  · rw [c.persists.chain r.scope (h.scope_lt hr), hchain, List.append_assoc]
    rfl
  · intro i hi
    rcases List.mem_append.1 hi with hi | hi
    · exact (hpassed i hi).persist c.persists
    · rw [List.mem_singleton.1 hi]
      exact ⟨c.scope_lt h, c.closed h, by rw [c.declares, hnot]⟩

/-- A reference whose name the closing scope declares is settled there. -/
lemma settled_of_declares {k : Nat} (hk : k ∈ u.pending) (hr : a.graph.references[k]? = some r)
    (hd : a.graph.declares u.scope r.name = true) : b.Settled (resolveIn a.graph u.scope r) := by
  obtain ⟨r', hr', hnone, passed, hchain, hpassed⟩ := h.pending c.mem hk
  obtain rfl : r = r' := Option.some_inj.1 (hr.symm.trans hr')
  rw [resolveIn, if_pos hd]
  refine ⟨passed, u.scope :: u.outer, ?_, fun i hi => (hpassed i hi).persist c.persists, .inr ?_⟩
  · exact (c.persists.chain r.scope (h.scope_lt hr)).trans hchain
  · exact ⟨_, _, rfl, c.scope_lt h, c.closed h, by rw [c.declares, hd], rfl⟩

/-- What is pending after the closing awaits the scope that it is pending in. -/
lemma pending {f : Frame} {k : Nat} (hf : f ∈ b.frames) (hk : k ∈ f.pending) :
    ∃ r, b.graph.references[k]? = some r ∧ b.Awaits f r := by
  rw [c.frames] at hf
  obtain ⟨v, hv, hs, hout, hpend⟩ := mem_handOver hf
  rcases hpend k hk with hk | ⟨hk, hhead⟩
  · -- Pending in a scope around the one that closes, hence not in that one.
    obtain ⟨r, hr, hawaits⟩ := h.pending (c.mem_of_mem hv) hk
    have hnot : k ∉ u.pending := by
      intro hku
      have huv := h.pending_unique c.mem (c.mem_of_mem hv) hku hk
      apply c.closed h
      rw [c.openScopes, huv]
      exact List.mem_map_of_mem hv
    refine ⟨r, ?_, hawaits.persist c.persists (h.scope_lt hr) hs hout⟩
    rw [c.references, hr, Option.map_some, if_neg hnot]
  · obtain ⟨hku, hl⟩ := List.mem_filter.1 hk
    obtain ⟨r, hr, -⟩ := h.pending c.mem hku
    have hnot : a.graph.declares u.scope r.name = false := by simpa [isLeft, hr] using hl
    obtain ⟨hr', hnone, passed, hchain, hpassed⟩ := c.pass h hku hr hnot
    refine ⟨r, hr', hnone, passed, ?_, hpassed⟩
    rw [hchain, hs, hout, c.outer_eq h]
    cases c.stacked h with
    | nil => cases hhead
    | cons outer _ _ =>
      cases hhead
      rw [List.map_cons, outer]

/-- After the closing a reference is pending or settled. -/
lemma settled {k : Nat} (hr : b.graph.references[k]? = some r) :
    (∃ f ∈ b.frames, k ∈ f.pending) ∨ b.Settled r := by
  rw [c.references] at hr
  obtain ⟨r₀, hr₀, rfl⟩ := Option.map_eq_some_iff.1 hr
  by_cases hk : k ∈ u.pending
  · rw [if_pos hk]
    cases hd : a.graph.declares u.scope r₀.name with
    | true => exact .inr (c.settled_of_declares h hk hr₀ hd)
    | false =>
      obtain ⟨-, hnone, passed, hchain, hpassed⟩ := c.pass h hk hr₀ hd
      rw [resolveIn, if_neg (by simp [hd])]
      cases hus : us with
      | nil =>
        -- No scope is left to hand the reference over to.
        rw [c.outer_eq h, hus] at hchain
        exact .inr ⟨passed, [], hchain, hpassed, .inl ⟨rfl, hnone⟩⟩
      | cons v vs =>
        rw [c.frames, hus]
        refine .inl ⟨_, List.mem_cons_self, List.mem_append_right _ (List.mem_filter.2 ⟨hk, ?_⟩)⟩
        simp [isLeft, hr₀, hd]
  · rw [if_neg hk]
    rcases h.settled hr₀ with ⟨f, hf, hkf⟩ | hs
    · rw [c.before] at hf
      rcases List.mem_cons.1 hf with rfl | hf
      · exact absurd hkf hk
      · obtain ⟨f', hf', hsub⟩ := exists_mem_handOver hf
        exact .inl ⟨f', c.frames ▸ hf', hsub k hkf⟩
    · exact .inr (hs.persist c.persists (h.scope_lt hr₀))

end Closing

lemma Invariant.leave (h : Invariant a) (hb : a.leave = .ok b) : Persists a b ∧ Invariant b := by
  obtain ⟨u, us, c⟩ := closing_of_leave hb
  refine ⟨c.persists, coherent_leave h.coherent hb, c.outline ▸ h.rooted, ?_, ?_, c.pending h,
    c.settled h⟩
  · rw [c.outline, c.frames]
    exact stacked_handOver (c.stacked h) _
  · intro k r hr
    rw [c.references] at hr
    obtain ⟨r₀, hr₀, rfl⟩ := Option.map_eq_some_iff.1 hr
    refine Nat.lt_of_lt_of_le ?_ c.persists.length_le
    split
    · rw [scope_resolveIn]
      exact h.scope_lt hr₀
    · exact h.scope_lt hr₀

/-! ## Runs -/

/-- **A step keeps what has closed, and the invariant.** -/
lemma Invariant.step (h : Invariant a) {e : Event} (hb : a.step e = .ok b) :
    Persists a b ∧ Invariant b := by
  cases e with
  | enter kind block =>
    cases hb
    exact ⟨enter_persists a kind block, h.enter kind block⟩
  | leave => exact h.leave hb
  | hoist => exact h.inScope (fun _ => rfl) (fun _ hs => hs) hb
  | declare name =>
    exact h.inScope (fun s => s.outline_declare name) (fun _ hs => hs.declare name) hb
  | define hoisted d =>
    exact h.inScope (fun s => s.outline_define d) (fun _ hs => hs.define d) hb
  | mention o => exact h.mention hb

lemma Persists.refl (a : Analysis) : Persists a a :=
  ⟨Nat.le_refl _, fun _ _ => rfl, fun _ _ hi => hi, fun _ _ _ _ => rfl⟩

lemma Persists.trans {c : Analysis} (hab : Persists a b) (hbc : Persists b c) : Persists a c where
  length_le := Nat.le_trans hab.length_le hbc.length_le
  chain i hi := by
    rw [hbc.chain i (Nat.lt_of_lt_of_le hi hab.length_le), hab.chain i hi]
  closed i hi hc :=
    hbc.closed i (Nat.lt_of_lt_of_le hi hab.length_le) (hab.closed i hi hc)
  declares i hi hc name := by
    rw [hbc.declares i (Nat.lt_of_lt_of_le hi hab.length_le) (hab.closed i hi hc) name,
      hab.declares i hi hc name]

/-- **A run keeps what has closed, and the invariant.** -/
theorem Invariant.run (h : Invariant a) {es : List Event} (hb : es.foldlM Analysis.step a = .ok b) :
    Persists a b ∧ Invariant b := by
  induction es generalizing a with
  | nil =>
    cases hb
    exact ⟨Persists.refl _, h⟩
  | cons e es ih =>
    rw [List.foldlM_cons] at hb
    obtain ⟨c, hc, hb⟩ := bind_ok_iff.1 hb
    obtain ⟨hac, hinv⟩ := h.step hc
    obtain ⟨hcb, hb⟩ := ih hinv hb
    exact ⟨hac.trans hcb, hb⟩

end Analysis

end RefFlow
