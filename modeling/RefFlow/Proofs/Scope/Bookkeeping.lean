import Mathlib.Data.List.Nodup
import RefFlow.Proofs.Scope.Resolution

/-!
# Scope analysis loses and duplicates no reference

A reference is entered in several lists: in that of the scope where it stands, in that of the
variable that it means, and in the list `through` of every scope that it leaves on its way outward.
It gets into the last two while the scopes around it close one after the other, and while further
references are made in between.

`Graph.Lists` says what a list must have: exactly the references of some sort, each once, in the
order in which they were made.  `Analysis.Ledger` says that all lists of a state of the analysis
have what they must.  That they stay in order rests on the order of what is pending: read from the
outermost scope to the innermost, the pending references are in the order in which they were made.
Closing a scope moves some of them to the end of the next list outward, which keeps that order.

`Ledger.step` and `Ledger.run` show that a step and a run keep the ledger.
-/

namespace RefFlow

open Fallible

/-! ## Lists of references -/

namespace Graph

/-- The list has exactly the references of a certain sort, by number, each once and in the order in
which they were made. -/
structure Lists (g : Graph) (ks : List Nat) (P : Reference → Prop) : Prop where
  ordered : ks.Pairwise (· < ·)
  mem_iff : ∀ k, k ∈ ks ↔ ∃ r, g.references[k]? = some r ∧ P r

variable {g g' : Graph} {ks : List Nat} {P Q : Reference → Prop}

lemma Lists.lt_length (h : g.Lists ks P) {k : Nat} (hk : k ∈ ks) : k < g.references.length := by
  obtain ⟨r, hr, -⟩ := (h.mem_iff k).1 hk
  exact (List.getElem?_eq_some_iff.1 hr).1

lemma lists_nil (h : ∀ (k : Nat) r, g.references[k]? = some r → ¬P r) : g.Lists [] P := by
  refine ⟨.nil, fun k => ?_⟩
  simp only [List.not_mem_nil, false_iff, not_exists, not_and]
  exact fun r hr => h k r hr

lemma Lists.eq_nil (h : g.Lists ks P) (hP : ∀ (k : Nat) r, g.references[k]? = some r → ¬P r) :
    ks = [] := by
  refine List.eq_nil_iff_forall_not_mem.2 fun k hk => ?_
  obtain ⟨r, hr, hPr⟩ := (h.mem_iff k).1 hk
  exact hP k r hr hPr

/-- A list stays as it must be if each reference changes to one that belongs in it exactly if the
reference did. -/
lemma Lists.of_map (h : g.Lists ks P) {f : Nat → Reference → Reference}
    (hrefs : ∀ k, g'.references[k]? = g.references[k]?.map (f k))
    (hPQ : ∀ (k : Nat) r, g.references[k]? = some r → (Q (f k r) ↔ P r)) : g'.Lists ks Q := by
  refine ⟨h.ordered, fun k => (h.mem_iff k).trans ?_⟩
  rw [hrefs]
  cases hr : g.references[k]? with
  | none => simp
  | some r => simp [hPQ k r hr]

lemma Lists.congr (h : g.Lists ks P) (hrefs : g'.references = g.references)
    (hPQ : ∀ (k : Nat) r, g.references[k]? = some r → (Q r ↔ P r)) : g'.Lists ks Q :=
  h.of_map (f := fun _ r => r) (fun k => by simp [hrefs]) hPQ

/-- A new reference that does not belong in the list. -/
lemma Lists.skip (h : g.Lists ks P) {new : Reference}
    (hrefs : g'.references = g.references ++ [new]) (hnew : ¬Q new)
    (hPQ : ∀ (k : Nat) r, g.references[k]? = some r → (Q r ↔ P r)) : g'.Lists ks Q := by
  refine ⟨h.ordered, fun k => (h.mem_iff k).trans ⟨?_, ?_⟩⟩
  · rintro ⟨r, hr, hPr⟩
    exact ⟨r, by rw [hrefs]; exact getElem?_append_left_of_some hr, (hPQ k r hr).2 hPr⟩
  · rintro ⟨r, hr, hQr⟩
    rw [hrefs] at hr
    rcases getElem?_concat_cases hr with hr | ⟨-, rfl⟩
    · exact ⟨r, hr, (hPQ k r hr).1 hQr⟩
    · exact absurd hQr hnew

/-- A new reference that belongs in the list goes to its end. -/
lemma Lists.concat (h : g.Lists ks P) {new : Reference}
    (hrefs : g'.references = g.references ++ [new]) (hnew : Q new)
    (hPQ : ∀ (k : Nat) r, g.references[k]? = some r → (Q r ↔ P r)) :
    g'.Lists (ks ++ [g.references.length]) Q := by
  refine ⟨?_, fun k => ?_⟩
  · refine List.pairwise_append.2 ⟨h.ordered, List.pairwise_singleton _ _, ?_⟩
    intro k hk l hl
    rw [List.mem_singleton.1 hl]
    exact h.lt_length hk
  · rw [List.mem_append, List.mem_singleton, h.mem_iff, hrefs]
    constructor
    · rintro (⟨r, hr, hPr⟩ | rfl)
      · exact ⟨r, getElem?_append_left_of_some hr, (hPQ k r hr).2 hPr⟩
      · exact ⟨new, List.getElem?_concat_length, hnew⟩
    · rintro ⟨r, hr, hQr⟩
      rcases getElem?_concat_cases hr with hr | ⟨rfl, -⟩
      · exact .inl ⟨r, hr, (hPQ k r hr).1 hQr⟩
      · exact .inr rfl

/-- The reference stands in the list once if the condition holds, and not at all otherwise. -/
def OnceIff (ks : List Nat) (k : Nat) (p : Prop) : Prop :=
  (p → ks.count k = 1) ∧ (¬p → ks.count k = 0)

lemma Lists.onceIff (h : g.Lists ks P) {k : Nat} {r : Reference} (hr : g.references[k]? = some r) :
    OnceIff ks k (P r) := by
  have hnodup : ks.Nodup := h.ordered.imp Nat.ne_of_lt
  refine ⟨fun hP => List.count_eq_one_of_mem hnodup ((h.mem_iff k).2 ⟨r, hr, hP⟩), fun hP => ?_⟩
  refine List.count_eq_zero_of_not_mem fun hk => hP ?_
  obtain ⟨r', hr', hPr⟩ := (h.mem_iff k).1 hk
  obtain rfl : r = r' := Option.some_inj.1 (hr.symm.trans hr')
  exact hPr

/-- The scopes around a scope on the way outward are the rest of the way. -/
lemma chain_of_append (hg : Rooted g.outline) {i j : Nat} {xs js : List Nat}
    (h : g.chain i = xs ++ j :: js) : g.chain j = j :: js := by
  induction xs generalizing i with
  | nil =>
    obtain rfl : i = j := (List.cons.inj h).1
    exact h
  | cons x xs ih =>
    obtain rfl : i = x := (List.cons.inj h).1
    cases xs with
    | nil => exact chain_upper hg h
    | cons y ys => exact ih (chain_upper hg h)

end Graph

/-! ## Closing a scope -/

namespace Analysis

/-- The reference with a number has the given name. -/
def isNamed (g : Graph) (name : String) (ref : Nat) : Bool :=
  g.references[ref]?.any (·.name == name)

/-- A scope after references have been settled in it: each is entered with the variable of its name,
or among those that go through. -/
def takeIn (g : Graph) (scope : Nat) (refs : List Nat) (s : Scope) : Scope :=
  { s with
    through := s.through ++ refs.filter (isLeft g scope)
    declared := s.declared.map fun v =>
      { v with references := v.references ++ refs.filter (isNamed g v.name) } }

lemma isNamed_settle (g : Graph) (scope ref k : Nat) (name : String) :
    isNamed (settle g scope ref).1 name k = isNamed g name k := by
  unfold isNamed
  rw [references_settle]
  cases g.references[k]? with
  | none => rfl
  | some r =>
    simp only [Option.map_some, Option.any_some]
    split
    · rw [name_resolveIn]
    · rfl

lemma takeIn_nil (g : Graph) (scope : Nat) (s : Scope) : takeIn g scope [] s = s := by
  simp [takeIn]

lemma takeIn_cons (g : Graph) (scope ref : Nat) (refs : List Nat) (s : Scope) :
    takeIn (settle g scope ref).1 scope refs (takeIn g scope [ref] s) =
      takeIn g scope (ref :: refs) s := by
  have hleft : isLeft (settle g scope ref).1 scope = isLeft g scope :=
    funext fun k => isLeft_settle g scope ref k
  have hnamed : ∀ name, isNamed (settle g scope ref).1 name = isNamed g name :=
    fun name => funext fun k => isNamed_settle g scope ref k name
  simp only [takeIn, hleft, hnamed, List.map_map, Function.comp_def, List.append_assoc,
    ← List.filter_append, List.singleton_append]

lemma declares_of_mem {g : Graph} (hg : g.Coherent) {scope : Nat} {s : Scope}
    (hs : g.scopes[scope]? = some s) {v : Variable} (hv : v ∈ s.declared) :
    g.declares scope v.name = true := by
  rw [Graph.declares, hs]
  exact (hg.scope hs).declares_iff.2 (List.mem_map_of_mem hv)

lemma takeIn_of_declares {g : Graph} {scope ref : Nat} {r : Reference} {s : Scope}
    (hs : s.Coherent) (hr : g.references[ref]? = some r) (hd : g.declares scope r.name = true) :
    takeIn g scope [ref] s =
      s.modifyVariable r.name fun v => { v with references := v.references ++ [ref] } := by
  have hnot : isLeft g scope ref = false := by simp [isLeft, hr, hd]
  have hdeclared : (takeIn g scope [ref] s).declared = s.declared.map fun v =>
      if v.name == r.name then { v with references := v.references ++ [ref] } else v := by
    refine List.map_congr_left fun v _ => ?_
    have hname : isNamed g v.name ref = (v.name == r.name) := by
      simp [isNamed, hr, Bool.beq_comm]
    rw [List.filter_cons, List.filter_nil, hname]
    split <;> simp
  have hrest : takeIn g scope [ref] s =
      { s with declared := (takeIn g scope [ref] s).declared } := by
    simp [takeIn, hnot]
  rw [hrest, hdeclared, ← hs.declared_modifyVariable]
  rfl

lemma takeIn_of_not_declares {g : Graph} (hg : g.Coherent) {scope ref : Nat} {r : Reference}
    {s : Scope} (hr : g.references[ref]? = some r) (hs : g.scopes[scope]? = some s)
    (hd : g.declares scope r.name = false) :
    takeIn g scope [ref] s = { s with through := s.through ++ [ref] } := by
  have hleft : isLeft g scope ref = true := by simp [isLeft, hr, hd]
  have hname : ∀ v ∈ s.declared, isNamed g v.name ref = false := by
    intro v hv
    have hne : r.name ≠ v.name := by
      intro heq
      rw [heq, declares_of_mem hg hs hv] at hd
      cases hd
    simpa [isNamed, hr] using hne
  have hsame : (s.declared.map fun v =>
      { v with references := v.references ++ [ref].filter (isNamed g v.name) }) = s.declared := by
    refine (List.map_congr_left fun v hv => ?_).trans (List.map_id _)
    simp [hname v hv]
  rw [takeIn, hsame]
  simp [hleft]

lemma scopes_settle {g : Graph} (hg : g.Coherent) (scope ref j : Nat) :
    (settle g scope ref).1.scopes[j]? =
      g.scopes[j]?.map fun s => if j = scope then takeIn g scope [ref] s else s := by
  unfold settle
  split
  · rename_i hr
    have hid : ∀ s, takeIn g scope [ref] s = s := by
      intro s
      simp [takeIn, isLeft, isNamed, hr]
    simp [hid]
  · rename_i r hr
    cases hs : g.scopes[j]? with
    | none =>
      have hlen := List.getElem?_eq_none_iff.1 hs
      split <;> simpa [Graph.modifyScope] using hlen
    | some s =>
      by_cases hj : j = scope
      · subst hj
        split
        · rename_i hd
          simp [Graph.modifyScope, hs, takeIn_of_declares (hg.scope hs) hr hd]
        · rename_i hd
          simp [Graph.modifyScope, hs, takeIn_of_not_declares hg hr hs (by simpa using hd)]
      · split <;> simp [Graph.modifyScope, hs, Ne.symm hj]

/-- Settling enters each reference in the one list of the closing scope where it belongs. -/
lemma scopes_settleAll {g : Graph} (hg : g.Coherent) (scope : Nat) (refs : List Nat) (j : Nat) :
    (settleAll g scope refs).1.scopes[j]? =
      g.scopes[j]?.map fun s => if j = scope then takeIn g scope refs s else s := by
  induction refs generalizing g with
  | nil => simp [settleAll, takeIn_nil]
  | cons ref refs ih =>
    simp only [settleAll]
    rw [ih (coherent_settle hg scope ref), scopes_settle hg]
    cases g.scopes[j]? with
    | none => rfl
    | some s =>
      simp only [Option.map_some]
      split
      · rw [takeIn_cons]
      · rfl

/-! ## The ledger -/

/-- The reference has left the scope on its way outward: the scope is closed, and the variable that
the reference means, if it has come to one, is declared further out. -/
def Through (a : Analysis) (i : Nat) (r : Reference) : Prop :=
  i ∈ a.graph.chain r.scope ∧ i ∉ a.openScopes ∧
    ∀ v, r.resolved = some v → i ∉ a.graph.chain v.scope

/-- All lists have the references that belong in them, and what is pending is in order from the
outermost scope to the innermost. -/
structure Ledger (a : Analysis) : Prop where
  pending : (a.frames.reverse.flatMap (·.pending)).Pairwise (· < ·)
  made : ∀ {i : Nat} {s : Scope}, a.graph.scopes[i]? = some s →
    a.graph.Lists s.references fun r => r.scope = i
  through : ∀ {i : Nat} {s : Scope}, a.graph.scopes[i]? = some s →
    a.graph.Lists s.through (a.Through i)
  uses : ∀ {i : Nat} {s : Scope} {v : Variable}, a.graph.scopes[i]? = some s → v ∈ s.declared →
    a.graph.Lists v.references fun r => r.resolved = some ⟨i, v.name⟩

lemma ledger_initial : Ledger {} where
  pending := .nil
  made h := by cases h
  through h := by cases h
  uses h := by cases h

variable {a b : Analysis} {k : Nat} {r : Reference}

/-- A reference is resolved to a variable of a closed scope around it. -/
lemma Invariant.resolved (h : Invariant a) (hr : a.graph.references[k]? = some r) {v : VariableId}
    (hv : r.resolved = some v) : v.scope < a.graph.scopes.length ∧ v.scope ∉ a.openScopes ∧
      v.scope ∈ a.graph.chain r.scope ∧ a.graph.declares v.scope v.name = true := by
  rcases h.settled hr with ⟨f, hf, hk⟩ | ⟨passed, rest, hchain, -, hrest⟩
  · obtain ⟨r', hr', hnone, -⟩ := h.pending hf hk
    obtain rfl : r = r' := Option.some_inj.1 (hr.symm.trans hr')
    cases hnone.symm.trans hv
  · rcases hrest with ⟨-, hnone⟩ | ⟨j, js, rfl, hlt, hclosed, hd, hres⟩
    · cases hnone.symm.trans hv
    · obtain rfl : v = ⟨j, r.name⟩ := Option.some_inj.1 (hv.symm.trans hres)
      exact ⟨hlt, hclosed, by rw [hchain]; simp, hd⟩

/-- Where the same scopes are open, the same references have left a scope. -/
lemma Through.persist_iff (h : Invariant a) (hp : Persists a b)
    (hr : a.graph.references[k]? = some r) {i : Nat} (hopen : i ∈ b.openScopes ↔ i ∈ a.openScopes) :
    b.Through i r ↔ a.Through i r := by
  have hchain := hp.chain r.scope (h.scope_lt hr)
  have hresolved : ∀ v, r.resolved = some v → b.graph.chain v.scope = a.graph.chain v.scope :=
    fun v hv => hp.chain v.scope (h.resolved hr hv).1
  unfold Through
  rw [hchain, hopen]
  refine and_congr_right fun _ => and_congr_right fun _ => forall_congr' fun v => ?_
  exact imp_congr_right fun hv => by rw [hresolved v hv]

/-! ### Opening a scope -/

lemma scopes_enter (a : Analysis) (kind : ScopeKind) (block : Node) {i : Nat} {s : Scope}
    (hs : (a.enter kind block).graph.scopes[i]? = some s) :
    (∃ s₀, a.graph.scopes[i]? = some s₀ ∧ s.references = s₀.references ∧
      s.through = s₀.through ∧ s.declared = s₀.declared) ∨
    (i = a.graph.scopes.length ∧ s.references = [] ∧ s.through = [] ∧ s.declared = []) := by
  unfold enter at hs
  cases hf : a.frames with
  | nil =>
    rw [hf] at hs
    rcases getElem?_concat_cases hs with hs | ⟨hi, rfl⟩
    · exact .inl ⟨s, hs, rfl, rfl, rfl⟩
    · exact .inr ⟨hi, rfl, rfl, rfl⟩
  | cons f fs =>
    rw [hf] at hs
    rcases getElem?_concat_cases hs with hs | ⟨hi, rfl⟩
    · rw [List.getElem?_modify] at hs
      obtain ⟨s₀, hs₀, rfl⟩ := Option.map_eq_some_iff.1 hs
      refine .inl ⟨s₀, hs₀, ?_⟩
      split <;> exact ⟨rfl, rfl, rfl⟩
    · exact .inr ⟨by simpa using hi, rfl, rfl, rfl⟩

lemma Ledger.enter (l : Ledger a) (h : Invariant a) (kind : ScopeKind) (block : Node) :
    Ledger (a.enter kind block) := by
  have hp := enter_persists a kind block
  have hrefs : (a.enter kind block).graph.references = a.graph.references :=
    references_enter a kind block
  have hnew : a.graph.scopes.length ∈ (a.enter kind block).openScopes := by
    rw [openScopes_enter]
    exact List.mem_cons_self
  refine ⟨?_, ?_, ?_, ?_⟩
  · rw [frames_enter, List.reverse_cons, List.flatMap_append]
    simpa using l.pending
  · intro i s hs
    rcases scopes_enter a kind block hs with ⟨s₀, hs₀, hr, -, -⟩ | ⟨rfl, hr, -, -⟩
    · rw [hr]
      exact (l.made hs₀).congr hrefs fun _ _ _ => Iff.rfl
    · rw [hr]
      refine Graph.lists_nil fun k r hr heq => ?_
      exact Nat.lt_irrefl _ (heq ▸ h.scope_lt (hrefs ▸ hr))
  · intro i s hs
    rcases scopes_enter a kind block hs with ⟨s₀, hs₀, -, ht, -⟩ | ⟨rfl, -, ht, -⟩
    · rw [ht]
      have hi : i < a.graph.scopes.length := (List.getElem?_eq_some_iff.1 hs₀).1
      refine (l.through hs₀).congr hrefs fun k r hr => Through.persist_iff h hp hr ?_
      rw [openScopes_enter, List.mem_cons, or_iff_right (Nat.ne_of_lt hi)]
    · rw [ht]
      exact Graph.lists_nil fun k r _ hthrough => hthrough.2.1 hnew
  · intro i s v hs hv
    rcases scopes_enter a kind block hs with ⟨s₀, hs₀, -, -, hd⟩ | ⟨rfl, -, -, hd⟩
    · rw [hd] at hv
      exact (l.uses hs₀ hv).congr hrefs fun _ _ _ => Iff.rfl
    · rw [hd] at hv
      cases hv

/-! ### Declaring -/

/-- A change of a scope that leaves its references alone: a variable that it declares afterwards has
the references of the variable of the same name before, or is new and has none. -/
structure Declares (s s' : Scope) : Prop where
  references : s'.references = s.references
  through : s'.through = s.through
  uses : ∀ v ∈ s'.declared,
    (∃ w ∈ s.declared, w.name = v.name ∧ w.references = v.references) ∨ v.references = []

lemma declares_id (s : Scope) : Declares s s :=
  ⟨rfl, rfl, fun v hv => .inl ⟨v, hv, rfl, rfl⟩⟩

lemma declares_declare (s : Scope) (name : String) : Declares s (s.declare name) := by
  unfold Scope.declare
  split
  · exact declares_id s
  · refine ⟨rfl, rfl, fun v hv => ?_⟩
    rcases List.mem_append.1 hv with hv | hv
    · exact .inl ⟨v, hv, rfl, rfl⟩
    · rw [List.mem_singleton.1 hv]
      exact .inr rfl

lemma declares_define {s : Scope} (hs : s.Coherent) (d : Definition) :
    Declares s (s.define d) := by
  obtain ⟨hr, ht, hu⟩ := declares_declare s d.name
  refine ⟨hr, ht, fun v hv => ?_⟩
  rw [Scope.define, (hs.declare d.name).declared_modifyVariable] at hv
  obtain ⟨w, hw, rfl⟩ := List.mem_map.1 hv
  split
  · exact hu w hw
  · exact hu w hw

lemma Ledger.inScope (l : Ledger a) (h : Invariant a) {hoisted : Bool} {f : Scope → Scope}
    (hp : Persists a b) (hd : ∀ s : Scope, s.Coherent → Declares s (f s))
    (hb : a.inScope hoisted f = .ok b) : Ledger b := by
  obtain ⟨i, hi, rfl⟩ := h.exists_target hb
  -- A scope is as it was or has been changed by `f`, and then it is open.
  have hscope : ∀ {j : Nat} {s : Scope}, (a.graph.modifyScope i f).scopes[j]? = some s →
      ∃ s₀, a.graph.scopes[j]? = some s₀ ∧ Declares s₀ s ∧ (j = i ∨ s = s₀) := by
    intro j s hs
    rw [Graph.modifyScope, List.getElem?_modify] at hs
    obtain ⟨s₀, hs₀, rfl⟩ := Option.map_eq_some_iff.1 hs
    split
    · rename_i hij
      exact ⟨s₀, hs₀, hd s₀ (h.coherent.scope hs₀), .inl hij.symm⟩
    · exact ⟨s₀, hs₀, declares_id s₀, .inr rfl⟩
  refine ⟨l.pending, ?_, ?_, ?_⟩
  · intro j s hs
    obtain ⟨s₀, hs₀, hds, -⟩ := hscope hs
    rw [hds.references]
    exact (l.made hs₀).congr rfl fun _ _ _ => Iff.rfl
  · intro j s hs
    obtain ⟨s₀, hs₀, hds, -⟩ := hscope hs
    rw [hds.through]
    exact (l.through hs₀).congr rfl fun k r hr => Through.persist_iff h hp hr Iff.rfl
  · intro j s v hs hv
    obtain ⟨s₀, hs₀, hds, hj⟩ := hscope hs
    rcases hj with rfl | rfl
    · rcases hds.uses v hv with ⟨w, hw, hname, hrefs⟩ | hrefs
      · rw [← hname, ← hrefs]
        exact (l.uses hs₀ hw).congr rfl fun _ _ _ => Iff.rfl
      · -- Nothing is resolved to a variable of a scope that is open.
        rw [hrefs]
        exact Graph.lists_nil fun k r hr hres => (h.resolved hr hres).2.1 hi
    · exact (l.uses hs₀ hv).congr rfl fun _ _ _ => Iff.rfl

/-! ### Mentioning -/

lemma Ledger.mention (l : Ledger a) (h : Invariant a) {o : Occurrence} (hb : a.mention o = .ok b) :
    Ledger b := by
  have hp := (h.mention hb).1
  have hopen := openScopes_mention hb
  cases hf : a.frames with
  | nil =>
    unfold Analysis.mention at hb
    rw [hf] at hb
    cases hb
  | cons u us =>
    rw [mention_eq hf] at hb
    injection hb with hb
    have hu : u ∈ a.frames := by rw [hf]; exact List.mem_cons_self
    obtain ⟨x, hx⟩ := h.stacked.outline_of_mem hu
    have hrefs : b.graph.references =
        a.graph.references ++ [{ toOccurrence := o, scope := u.scope }] := by rw [← hb]
    have hscope : ∀ {j : Nat} {s : Scope}, b.graph.scopes[j]? = some s →
        ∃ s₀, a.graph.scopes[j]? = some s₀ ∧ s.through = s₀.through ∧ s.declared = s₀.declared ∧
          s.references = if j = u.scope then s₀.references ++ [a.graph.references.length]
            else s₀.references := by
      intro j s hs
      rw [← hb] at hs
      simp only [Graph.modifyScope, List.getElem?_modify] at hs
      obtain ⟨s₀, hs₀, rfl⟩ := Option.map_eq_some_iff.1 hs
      refine ⟨s₀, hs₀, ?_⟩
      by_cases hj : u.scope = j
      · simp [hj]
      · simp [hj, Ne.symm hj]
    refine ⟨?_, ?_, ?_, ?_⟩
    · -- The new reference comes after all others that are pending.
      have hpending : b.frames.reverse.flatMap (·.pending) =
          a.frames.reverse.flatMap (·.pending) ++ [a.graph.references.length] := by
        rw [← hb, hf]
        simp
      rw [hpending]
      refine List.pairwise_append.2 ⟨l.pending, List.pairwise_singleton _ _, ?_⟩
      intro k hk n hn
      obtain ⟨f, hfm, hk⟩ := List.mem_flatMap.1 hk
      obtain ⟨r, hr, -⟩ := h.pending (List.mem_reverse.1 hfm) hk
      rw [List.mem_singleton.1 hn]
      exact (List.getElem?_eq_some_iff.1 hr).1
    · intro j s hs
      obtain ⟨s₀, hs₀, -, -, hr⟩ := hscope hs
      rw [hr]
      split
      · rename_i hj
        exact (l.made hs₀).concat hrefs hj.symm fun _ _ _ => Iff.rfl
      · rename_i hj
        exact (l.made hs₀).skip hrefs (fun heq => hj heq.symm) fun _ _ _ => Iff.rfl
    · intro j s hs
      obtain ⟨s₀, hs₀, ht, -⟩ := hscope hs
      rw [ht]
      refine (l.through hs₀).skip hrefs ?_ fun k r hr => Through.persist_iff h hp hr (by rw [hopen])
      -- The new reference stands in the innermost scope, and all scopes around that are open.
      rintro ⟨hchain, hclosed, -⟩
      have hlt : u.scope < a.graph.scopes.length := by
        rw [← Graph.length_outline]
        exact (List.getElem?_eq_some_iff.1 hx).1
      rw [hp.chain u.scope hlt, Graph.chain_of_outline hx] at hchain
      apply hclosed
      have hstacked := h.stacked
      rw [hf] at hstacked
      cases hstacked with
      | cons outer _ _ =>
        rw [hopen, openScopes, hf, List.map_cons, ← outer]
        exact hchain
    · intro j s v hs hv
      obtain ⟨s₀, hs₀, -, hd, -⟩ := hscope hs
      rw [hd] at hv
      refine (l.uses hs₀ hv).skip hrefs (fun hresolved => ?_) fun _ _ _ => Iff.rfl
      cases hresolved

/-! ### Closing a scope -/

lemma scopes_leave (ha : a.graph.Coherent) (hb : a.leave = .ok b) {u : Frame} {us : List Frame}
    (hf : a.frames = u :: us) (j : Nat) : b.graph.scopes[j]? = a.graph.scopes[j]?.map fun s =>
      if j = u.scope then takeIn a.graph u.scope u.pending s else s := by
  unfold leave at hb
  rw [hf] at hb
  cases hb
  exact scopes_settleAll ha ..

namespace Closing

variable {u : Frame} {us : List Frame} (c : Closing a u us b)
include c

lemma openScopes_before : a.openScopes = u.scope :: b.openScopes := by
  rw [c.openScopes, Analysis.openScopes, c.before]
  rfl

/-- What the closing does to a reference. -/
lemma exists_before (hr : b.graph.references[k]? = some r) :
    ∃ r₀, a.graph.references[k]? = some r₀ ∧
      r = if k ∈ u.pending then resolveIn a.graph u.scope r₀ else r₀ := by
  rw [c.references] at hr
  obtain ⟨r₀, hr₀, rfl⟩ := Option.map_eq_some_iff.1 hr
  exact ⟨r₀, hr₀, rfl⟩

/-- What is pending afterwards is in order, since the closing scope was the innermost. -/
lemma pairwise_pending (h : (a.frames.reverse.flatMap (·.pending)).Pairwise (· < ·)) :
    (b.frames.reverse.flatMap (·.pending)).Pairwise (· < ·) := by
  rw [c.before] at h
  rw [c.frames]
  cases us with
  | nil => exact .nil
  | cons v vs =>
    refine h.sublist ?_
    simp only [handOver, List.reverse_cons, List.flatMap_append, List.flatMap_cons,
      List.flatMap_nil, List.append_nil, List.append_assoc]
    exact ((List.filter_sublist).append_left _).append_left _

lemma pairwise_pending_self (h : (a.frames.reverse.flatMap (·.pending)).Pairwise (· < ·)) :
    u.pending.Pairwise (· < ·) := by
  rw [c.before, List.reverse_cons, List.flatMap_append] at h
  simpa using (List.pairwise_append.1 h).2.1

variable (h : Invariant a)
include h

lemma chain_scope : a.graph.chain u.scope = a.openScopes := by
  obtain ⟨x, hx⟩ := h.stacked.outline_of_mem c.mem
  rw [Graph.chain_of_outline hx, c.outer_eq h, Analysis.openScopes, c.before]
  rfl

/-- A reference that is not pending in the closing scope and has it on its way outward means a
variable of a scope that has closed before. -/
lemma resolved_of_mem_chain (hr : a.graph.references[k]? = some r) (hk : k ∉ u.pending)
    (hu : u.scope ∈ a.graph.chain r.scope) :
    ∃ v, r.resolved = some v ∧ u.scope ∈ a.graph.chain v.scope := by
  have hopen : u.scope ∈ a.openScopes := List.mem_map_of_mem c.mem
  rcases h.settled hr with ⟨f, hf, hkf⟩ | ⟨passed, rest, hchain, hpassed, hrest⟩
  · -- It awaits a scope around the closing one, so it has passed the latter.
    obtain ⟨r', hr', -, passed, hchain, hpassed⟩ := h.pending hf hkf
    obtain rfl : r = r' := Option.some_inj.1 (hr.symm.trans hr')
    rw [c.before] at hf
    rcases List.mem_cons.1 hf with rfl | hf
    · exact absurd hkf hk
    · exfalso
      rw [hchain] at hu
      rcases List.mem_append.1 hu with hu | hu
      · exact (hpassed _ hu).2.1 hopen
      · have hlt : ∀ i ∈ f.scope :: f.outer, i < u.scope := by
          obtain ⟨x, hx⟩ := h.stacked.outline_of_mem c.mem
          obtain ⟨y, hy⟩ := h.stacked.outline_of_mem (c.mem_of_mem hf)
          have hfu : f.scope < u.scope := by
            refine h.rooted.lt hx f.scope ?_
            rw [c.outer_eq h]
            exact List.mem_map_of_mem hf
          intro i hi
          rcases List.mem_cons.1 hi with rfl | hi
          · exact hfu
          · exact Nat.lt_trans (h.rooted.lt hy i hi) hfu
        exact Nat.lt_irrefl _ (hlt _ hu)
  · rw [hchain] at hu
    rcases hrest with ⟨rfl, -⟩ | ⟨j, js, rfl, -, -, -, hres⟩
    · rw [List.append_nil] at hu
      exact absurd hopen (hpassed _ hu).2.1
    · refine ⟨_, hres, ?_⟩
      rw [Graph.chain_of_append h.rooted hchain]
      rcases List.mem_append.1 hu with hu | hu
      · exact absurd hopen (hpassed _ hu).2.1
      · exact hu

/-- The references that have left another scope are the same as before. -/
lemma through_iff_of_ne (hr : a.graph.references[k]? = some r) {i : Nat} (hi : i ≠ u.scope) :
    b.Through i (if k ∈ u.pending then resolveIn a.graph u.scope r else r) ↔ a.Through i r := by
  have hopen : i ∈ b.openScopes ↔ i ∈ a.openScopes := by
    rw [c.openScopes_before, List.mem_cons, or_iff_right hi]
  rw [← Through.persist_iff h c.persists hr hopen]
  split
  · rename_i hk
    obtain ⟨r', hr', hnone, -⟩ := h.pending c.mem hk
    obtain rfl : r = r' := Option.some_inj.1 (hr.symm.trans hr')
    unfold resolveIn
    split
    · -- A reference that is resolved now has left the closed scopes up to there.
      have hchain : b.graph.chain u.scope = a.openScopes := by
        rw [Graph.chain, c.outline, ← Graph.chain, c.chain_scope h]
      constructor
      · rintro ⟨hmem, hclosed, -⟩
        exact ⟨hmem, hclosed, fun v hv => by cases hnone.symm.trans hv⟩
      · rintro ⟨hmem, hclosed, -⟩
        refine ⟨hmem, hclosed, fun v hv => ?_⟩
        cases hv
        rw [hchain, ← hopen]
        exact hclosed
    · rfl
  · rfl

/-- The references that leave the closing scope are those that it hands over. -/
lemma lists_through (hord : u.pending.Pairwise (· < ·)) :
    b.graph.Lists (u.pending.filter (isLeft a.graph u.scope)) (b.Through u.scope) := by
  refine ⟨hord.filter _, fun k => ⟨fun hk => ?_, ?_⟩⟩
  · obtain ⟨hk, hleft⟩ := List.mem_filter.1 hk
    obtain ⟨r, hr, -, passed, hchain, -⟩ := h.pending c.mem hk
    have hnot : a.graph.declares u.scope r.name = false := by simpa [isLeft, hr] using hleft
    obtain ⟨hr', hnone, -⟩ := c.pass h hk hr hnot
    refine ⟨r, hr', ?_, c.closed h, fun v hv => by cases hnone.symm.trans hv⟩
    rw [c.persists.chain r.scope (h.scope_lt hr), hchain]
    simp
  · rintro ⟨r, hr, hmem, -, hbelow⟩
    obtain ⟨r₀, hr₀, rfl⟩ := c.exists_before hr
    by_cases hk : k ∈ u.pending
    · rw [if_pos hk] at hbelow
      refine List.mem_filter.2 ⟨hk, ?_⟩
      cases hd : a.graph.declares u.scope r₀.name with
      | false => simp [isLeft, hr₀, hd]
      | true =>
        rw [resolveIn, if_pos hd] at hbelow
        exact absurd (List.mem_cons_self) (hbelow _ rfl)
    · rw [if_neg hk] at hmem hbelow
      rw [c.persists.chain r₀.scope (h.scope_lt hr₀)] at hmem
      obtain ⟨v, hv, hu⟩ := c.resolved_of_mem_chain h hr₀ hk hmem
      rw [← c.persists.chain v.scope (h.resolved hr₀ hv).1] at hu
      exact absurd hu (hbelow v hv)

/-- A variable of the closing scope gets the pending references of its name. -/
lemma lists_uses (hord : u.pending.Pairwise (· < ·)) {name : String}
    (hd : a.graph.declares u.scope name = true) :
    b.graph.Lists (u.pending.filter (isNamed a.graph name)) fun r =>
      r.resolved = some ⟨u.scope, name⟩ := by
  refine ⟨hord.filter _, fun k => ⟨fun hk => ?_, ?_⟩⟩
  · obtain ⟨hk, hnamed⟩ := List.mem_filter.1 hk
    obtain ⟨r, hr, -⟩ := h.pending c.mem hk
    have hname : r.name = name := by simpa [isNamed, hr] using hnamed
    refine ⟨resolveIn a.graph u.scope r, ?_, ?_⟩
    · rw [c.references, hr, Option.map_some, if_pos hk]
    · rw [resolveIn, hname, if_pos hd]
  · rintro ⟨r, hr, hres⟩
    obtain ⟨r₀, hr₀, rfl⟩ := c.exists_before hr
    by_cases hk : k ∈ u.pending
    · rw [if_pos hk] at hres
      refine List.mem_filter.2 ⟨hk, ?_⟩
      obtain ⟨r', hr', hnone, -⟩ := h.pending c.mem hk
      obtain rfl : r₀ = r' := Option.some_inj.1 (hr₀.symm.trans hr')
      unfold resolveIn at hres
      split at hres
      · cases hres
        simp [isNamed, hr₀]
      · cases hnone.symm.trans hres
    · rw [if_neg hk] at hres
      exact absurd (List.mem_map_of_mem c.mem) (h.resolved hr₀ hres).2.1

end Closing

lemma Ledger.leave (l : Ledger a) (h : Invariant a) (hb : a.leave = .ok b) : Ledger b := by
  obtain ⟨u, us, c⟩ := closing_of_leave hb
  have hord := c.pairwise_pending_self l.pending
  have hopen : u.scope ∈ a.openScopes := List.mem_map_of_mem c.mem
  have hscope : ∀ {i : Nat} {s : Scope}, b.graph.scopes[i]? = some s →
      ∃ s₀, a.graph.scopes[i]? = some s₀ ∧
        s = if i = u.scope then takeIn a.graph u.scope u.pending s₀ else s₀ := by
    intro i s hs
    rw [scopes_leave h.coherent hb c.before] at hs
    obtain ⟨s₀, hs₀, rfl⟩ := Option.map_eq_some_iff.1 hs
    exact ⟨s₀, hs₀, rfl⟩
  refine ⟨c.pairwise_pending l.pending, ?_, ?_, ?_⟩
  · intro i s hs
    obtain ⟨s₀, hs₀, rfl⟩ := hscope hs
    have hrefs : (if i = u.scope then takeIn a.graph u.scope u.pending s₀ else s₀).references =
        s₀.references := by
      split <;> rfl
    rw [hrefs]
    refine (l.made hs₀).of_map c.references fun k r _ => ?_
    split
    · rw [scope_resolveIn]
    · rfl
  · intro i s hs
    obtain ⟨s₀, hs₀, rfl⟩ := hscope hs
    split
    · rename_i hi
      subst hi
      -- Nothing leaves a scope while it is open.
      have hnone : s₀.through = [] := (l.through hs₀).eq_nil fun _ _ _ ht => ht.2.1 hopen
      rw [takeIn, hnone, List.nil_append]
      exact c.lists_through h hord
    · rename_i hi
      exact (l.through hs₀).of_map c.references fun k r hr => c.through_iff_of_ne h hr hi
  · intro i s v hs hv
    obtain ⟨s₀, hs₀, rfl⟩ := hscope hs
    split at hv
    · rename_i hi
      subst hi
      obtain ⟨w, hw, rfl⟩ := List.mem_map.1 hv
      have hnone : w.references = [] :=
        (l.uses hs₀ hw).eq_nil fun _ _ hr hres => (h.resolved hr hres).2.1 hopen
      dsimp only
      rw [hnone, List.nil_append]
      exact c.lists_uses h hord (declares_of_mem h.coherent hs₀ hw)
    · rename_i hi
      refine (l.uses hs₀ hv).of_map c.references fun k r hr => ?_
      split
      · rename_i hk
        obtain ⟨r', hr', hnone, -⟩ := h.pending c.mem hk
        obtain rfl : r = r' := Option.some_inj.1 (hr.symm.trans hr')
        unfold resolveIn
        split
        · simp [hnone, Ne.symm hi]
        · rfl
      · rfl

/-! ## Runs -/

/-- **A step keeps the ledger.** -/
lemma Ledger.step (l : Ledger a) (h : Invariant a) {e : Event} (hb : a.step e = .ok b) :
    Ledger b := by
  have hp := (h.step hb).1
  cases e with
  | enter kind block =>
    cases hb
    exact l.enter h kind block
  | leave => exact l.leave h hb
  | hoist => exact l.inScope h hp (fun s _ => declares_id s) hb
  | declare name => exact l.inScope h hp (fun s _ => declares_declare s name) hb
  | define hoisted d => exact l.inScope h hp (fun _ hs => declares_define hs d) hb
  | mention o => exact l.mention h hb

/-- **A run keeps the ledger.** -/
lemma Ledger.run (l : Ledger a) (h : Invariant a) {es : List Event}
    (hb : es.foldlM Analysis.step a = .ok b) : Ledger b := by
  induction es generalizing a with
  | nil =>
    cases hb
    exact l
  | cons e es ih =>
    rw [List.foldlM_cons] at hb
    obtain ⟨c, hc, hb⟩ := bind_ok_iff.1 hb
    exact ih (l.step h hc) (h.step hc).2 hb

end Analysis

/-! ## The finished graph -/

namespace Graph

lemma isSome_get? {g : Graph} {v : VariableId} : (g.get? v).isSome = g.declares v.scope v.name := by
  unfold get? declares
  cases g.scopes[v.scope]? <;> rfl

variable {sourceType : String} {globals : List String} {root : Node} {g : Graph}

/-- Where the references of a finished graph are entered. -/
structure Entered (g : Graph) : Prop where
  scope_lt : ∀ r ∈ g.references, r.scope < g.scopes.length
  resolved : ∀ r ∈ g.references, ∀ v, r.resolved = some v →
    v.scope < g.scopes.length ∧ v.scope ∈ g.chain r.scope ∧ g.declares v.scope v.name = true
  through : ∀ {i : Nat} {s : Scope}, g.scopes[i]? = some s → g.Lists s.through fun r =>
    i ∈ g.chain r.scope ∧ ∀ v, r.resolved = some v → i ∉ g.chain v.scope
  coherent : g.Coherent
  uses : ∀ {i : Nat} {s : Scope} {v : Variable}, g.scopes[i]? = some s → v ∈ s.declared →
    g.Lists v.references fun r => r.resolved = some ⟨i, v.name⟩

lemma entered_scopeGraph (h : root.scopeGraph sourceType globals = .ok g) : g.Entered := by
  obtain ⟨es, b, hes, hb, rfl⟩ := Node.exists_run h
  have hinv := (Analysis.invariant_initial.run hb).2
  have hledger := Analysis.ledger_initial.run Analysis.invariant_initial hb
  have hclosed : b.openScopes = [] := Analysis.openScopes_run (Event.nested_events hes) hb
  refine ⟨fun r hr => ?_, fun r hr v hv => ?_, fun hs => ?_, hinv.coherent, hledger.uses⟩
  · obtain ⟨k, hk⟩ := List.mem_iff_getElem?.1 hr
    exact hinv.scope_lt hk
  · obtain ⟨k, hk⟩ := List.mem_iff_getElem?.1 hr
    obtain ⟨hlt, -, hchain, hdeclares⟩ := hinv.resolved hk hv
    exact ⟨hlt, hchain, hdeclares⟩
  · refine (hledger.through hs).congr rfl fun k r hr => ?_
    simp [Analysis.Through, hclosed]

/-- The references in a list. -/
lemma Lists.mem_referencesOf_iff {ks : List Nat} {P : Reference → Prop} (h : g.Lists ks P)
    {r : Reference} : r ∈ g.referencesOf ks ↔ r ∈ g.references ∧ P r := by
  unfold referencesOf
  rw [List.mem_filterMap, List.mem_iff_getElem?]
  constructor
  · rintro ⟨k, hk, hr⟩
    obtain ⟨r', hr', hP⟩ := (h.mem_iff k).1 hk
    obtain rfl : r = r' := Option.some_inj.1 (hr.symm.trans hr')
    exact ⟨⟨k, hr⟩, hP⟩
  · rintro ⟨⟨k, hk⟩, hP⟩
    exact ⟨k, (h.mem_iff k).2 ⟨r, hk, hP⟩, hk⟩

/-- **No reference is lost or entered twice.**  The references of a program that can be analysed are
the mentions of its events, in order.  Each stands once in the list of its own scope, once in the
list of the variable that it means, once in the list `through` of every scope from its own outward
up to but excluding that of the variable (of all scopes outward, if it means no variable), and in no
other list of these three sorts.  All lists are in the order in which the references were made. -/
theorem references_entered_once (h : root.scopeGraph sourceType globals = .ok g) :
    (∃ es, root.events sourceType globals = .ok es ∧
      g.references.map (·.toOccurrence) = es.flatMap Event.uses) ∧
    (∀ (k : Nat) (r : Reference), g.references[k]? = some r →
      r.scope < g.scopes.length ∧
      (∀ v, r.resolved = some v → g.Outward r.scope v.scope ∧ (g.get? v).isSome) ∧
      ∀ (i : Nat) (s : Scope), g.scopes[i]? = some s →
        OnceIff s.references k (r.scope = i) ∧
        (∀ v ∈ s.declared, OnceIff v.references k (r.resolved = some ⟨i, v.name⟩)) ∧
        OnceIff s.through k
          (g.Outward r.scope i ∧ ∀ v, r.resolved = some v → ¬g.Outward v.scope i)) ∧
    ∀ (i : Nat) (s : Scope), g.scopes[i]? = some s →
      (s.declared.map (·.name)).Nodup ∧
      ∀ ks ∈ s.references :: s.through :: s.declared.map (·.references),
        ks.Pairwise (· < ·) ∧ ∀ k ∈ ks, k < g.references.length := by
  obtain ⟨es, hes, h⟩ := bind_ok_iff.1 h
  obtain ⟨b, hb, h⟩ := bind_ok_iff.1 h
  obtain rfl := pure_ok_iff.1 h
  have hinv := (Analysis.invariant_initial.run hb).2
  have hledger := Analysis.ledger_initial.run Analysis.invariant_initial hb
  have hclosed : b.openScopes = [] := Analysis.openScopes_run (Event.nested_events hes) hb
  refine ⟨⟨es, hes, Analysis.occurrences_run hb⟩, fun k r hr => ⟨hinv.scope_lt hr, ?_, ?_⟩, ?_⟩
  · intro v hv
    obtain ⟨-, -, hchain, hd⟩ := hinv.resolved hr hv
    exact ⟨(outward_iff_mem_chain hinv.rooted).2 hchain, isSome_get?.trans hd⟩
  · intro i s hs
    refine ⟨(hledger.made hs).onceIff hr, fun v hv => (hledger.uses hs hv).onceIff hr, ?_⟩
    have hthrough := (hledger.through hs).onceIff hr
    simp only [Analysis.Through, hclosed, ← outward_iff_mem_chain hinv.rooted] at hthrough
    simpa using hthrough
  · intro i s hs
    refine ⟨(hinv.coherent.scope hs).names, fun ks hks => ?_⟩
    have hlists : ∃ P, b.graph.Lists ks P := by
      rcases List.mem_cons.1 hks with rfl | hks
      · exact ⟨_, hledger.made hs⟩
      rcases List.mem_cons.1 hks with rfl | hks
      · exact ⟨_, hledger.through hs⟩
      obtain ⟨v, hv, rfl⟩ := List.mem_map.1 hks
      exact ⟨_, hledger.uses hs hv⟩
    obtain ⟨P, hP⟩ := hlists
    exact ⟨hP.ordered, fun k hk => hP.lt_length hk⟩

/-- The program `let a; () => { b; a }`, which uses a variable of the scope around a function and a
name that nothing declares. -/
def innerUses : Node :=
  let name (s : String) := Node.unplaced .identifier [(.name, .text s)]
  let use (s : String) := Node.unplaced .expressionStatement [(.expression, .node (name s))]
  let declarator := Node.unplaced .variableDeclarator [(.id, .node (name "a")), (.init, .blank)]
  let declaration := Node.unplaced .variableDeclaration
    [(.kind, .text "let"), (.declarations, .ofList [declarator])]
  let body := Node.unplaced .blockStatement [(.body, .ofList [use "b", use "a"])]
  let function := Node.unplaced .arrowFunctionExpression
    [(.params, .ofList []), (.body, .node body)]
  let statement := Node.unplaced .expressionStatement [(.expression, .node function)]
  Node.unplaced .program [(.body, .ofList [declaration, statement])]

/-- Both uses are entered once with the function, and go through it once. -/
theorem references_entered_innerUses : ∃ g s, innerUses.scopeGraph "module" [] = .ok g ∧
    g.references.length = 2 ∧ g.scopes[2]? = some s ∧
      ∀ k < 2, s.references.count k = 1 ∧ s.through.count k = 1 := by
  have hall : (innerUses.scopeGraph "module" []).toOption.any fun g =>
      g.references.length == 2 && (g.scopes[2]?).isSome && g.references.all fun r =>
        r.scope == 2 && r.resolved.all fun v => !(g.chain v.scope).contains 2 := by decide +kernel
  obtain ⟨g, h, hall⟩ := exists_ok_of_any hall
  simp only [Bool.and_eq_true, beq_iff_eq, List.all_eq_true] at hall
  obtain ⟨⟨hlen, hscope⟩, hall⟩ := hall
  obtain ⟨s, hs⟩ := Option.isSome_iff_exists.1 hscope
  obtain ⟨-, honce, -⟩ := references_entered_once h
  refine ⟨g, s, h, hlen, hs, fun k hk => ?_⟩
  obtain ⟨r, hr⟩ : ∃ r, g.references[k]? = some r :=
    ⟨g.references[k], List.getElem?_eq_getElem (by omega)⟩
  obtain ⟨hhere, houter⟩ := hall r (List.mem_of_getElem? hr)
  obtain ⟨hmade, -, hthrough⟩ := (honce k r hr).2.2 2 s hs
  refine ⟨hmade.1 hhere, hthrough.1 ⟨hhere ▸ .refl, fun v hv houtward => ?_⟩⟩
  have hmem := (outward_iff_mem_chain (Node.resolved_eq_lookup h).1).1 houtward
  simp [hv, hmem] at houter

end Graph

end RefFlow
