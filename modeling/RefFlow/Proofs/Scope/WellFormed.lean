import RefFlow.Proofs.Scope.Blocks
import RefFlow.Proofs.Scope.Identifiers

/-!
# The scope graph is well formed

The scopes of a finished graph form a tree that follows the tree of the program, and what a scope
says about others agrees with what they say about it.  `Graph.WellFormed` puts together all that a
user of the graph may rely on.  Its parts are kept by a run for different reasons:

* the scopes around a scope, those right inside it and its home are fixed when a scope opens
  (`Graph.Linked`), and nothing else touches them (`emptied_step`);
* every scope but the first opens while another one is open (`surrounded_run`);
* what is mentioned or defined comes from visits to nodes below the blocks of all scopes that are
  open, so it does not matter to which of them a definition is hoisted (`enclosed_run`).
-/

namespace RefFlow

open Fallible

/-! ## How scopes are linked -/

/-- The scope without what is declared or mentioned in it. -/
def Scope.emptied (s : Scope) : Scope :=
  { s with declared := [], table := [], references := [], through := [] }

lemma Scope.emptied_declare (s : Scope) (name : String) :
    (s.declare name).emptied = s.emptied := by
  unfold declare
  split <;> rfl

namespace Graph

variable {g g' : Graph} {i j : Nat} {s : Scope}

/-- The scopes without what is declared or mentioned in them. -/
def emptied (g : Graph) : List Scope := g.scopes.map Scope.emptied

/-- The scopes inside a scope are those that say so, in the order in which they opened, and
hoisted declarations go to the scope itself, if they stop there, or where those of the scope around
it go. -/
structure Linked (g : Graph) : Prop where
  ordered : ∀ {i : Nat} {s : Scope}, g.scopes[i]? = some s → s.inner.Pairwise (· < ·)
  inner : ∀ {i : Nat} {s : Scope}, g.scopes[i]? = some s → ∀ j, j ∈ s.inner ↔ g.IsUpper j i
  home : ∀ {i : Nat} {s : Scope}, g.scopes[i]? = some s → s.home = if s.kind.hoists then i else
    (s.upper.bind fun u => g.scopes[u]?.map (·.home)).getD i

lemma linked_empty : Linked {} where
  ordered h := by cases h
  inner h := by cases h
  home h := by cases h

lemma exists_of_emptied_eq (h : g'.emptied = g.emptied) (hs : g'.scopes[i]? = some s) :
    ∃ s₀, g.scopes[i]? = some s₀ ∧ s.kind = s₀.kind ∧ s.upper = s₀.upper ∧ s.home = s₀.home ∧
      s.inner = s₀.inner := by
  have hi : g.emptied[i]? = some s.emptied := by
    rw [← h, emptied, List.getElem?_map, hs]
    rfl
  rw [emptied, List.getElem?_map] at hi
  obtain ⟨s₀, hs₀, he⟩ := Option.map_eq_some_iff.1 hi
  injection he with hkind _ houter hhome hinner
  exact ⟨s₀, hs₀, hkind.symm, by rw [Scope.upper, Scope.upper, houter], hhome.symm, hinner.symm⟩

lemma isUpper_of_emptied_eq (h : g'.emptied = g.emptied) (hj : g'.IsUpper i j) :
    g.IsUpper i j := by
  obtain ⟨s, hs, hupper⟩ := hj
  obtain ⟨s₀, hs₀, -, hsame, -, -⟩ := exists_of_emptied_eq h hs
  exact ⟨s₀, hs₀, by rw [← hsame, hupper]⟩

lemma Linked.congr (h : g.Linked) (he : g'.emptied = g.emptied) : g'.Linked := by
  refine ⟨fun {i s} hs => ?_, fun {i s} hs j => ?_, fun {i s} hs => ?_⟩
  all_goals obtain ⟨s₀, hs₀, hkind, hupper, hhome, hinner⟩ := exists_of_emptied_eq he hs
  · exact hinner ▸ h.ordered hs₀
  · rw [hinner, h.inner hs₀]
    exact ⟨isUpper_of_emptied_eq he.symm, isUpper_of_emptied_eq he⟩
  · have hhomes : ∀ u : Nat, g'.scopes[u]?.map Scope.home = g.scopes[u]?.map Scope.home := by
      intro u
      have hu := congrArg (fun ss : List Scope => ss[u]?.map Scope.home) he
      simpa [emptied, Function.comp_def, Scope.emptied] using hu
    rw [hhome, h.home hs₀, hkind, hupper]
    simp only [hhomes]

end Graph

namespace Analysis

variable {a b : Analysis} {e : Event} {es : List Event}

/-- Only opening a scope changes how scopes are linked. -/
lemma emptied_step (he : e.opened = []) (h : a.step e = .ok b) :
    b.graph.emptied = a.graph.emptied := by
  cases e with
  | enter kind block => cases he
  | leave => exact map_scopes_leave (fun _ _ _ => rfl) (fun _ _ => rfl) h
  | hoist => exact map_scopes_inScope (fun _ _ => rfl) h
  | declare name => exact map_scopes_inScope (fun s _ => s.emptied_declare name) h
  | define hoisted d =>
    exact map_scopes_inScope (f := (·.define d)) (fun s _ => s.emptied_declare d.name) h
  | mention o => exact map_scopes_mention (fun _ _ => rfl) h

/-- A scope that opens is new, and is entered with the innermost open one. -/
lemma getElem?_enter (a : Analysis) (kind : ScopeKind) (block : Node) {i : Nat} {s : Scope}
    (hs : (a.enter kind block).graph.scopes[i]? = some s) :
    (∃ s₀, a.graph.scopes[i]? = some s₀ ∧ s = { s₀ with
        inner := if a.openScopes.head? = some i then s₀.inner ++ [a.graph.scopes.length]
          else s₀.inner }) ∨
      i = a.graph.scopes.length ∧ s =
        { kind := kind, block := block, outer := (a.nextOutline kind).outer
          home := (a.nextOutline kind).home } := by
  unfold enter at hs
  unfold nextOutline openScopes
  cases hf : a.frames with
  | nil =>
    rw [hf] at hs
    rcases getElem?_concat_cases hs with hs | ⟨hi, rfl⟩
    · exact .inl ⟨s, hs, by simp⟩
    · exact .inr ⟨hi, by simp⟩
  | cons f fs =>
    rw [hf] at hs
    rcases getElem?_concat_cases hs with hs | ⟨hi, rfl⟩
    · rw [List.getElem?_modify] at hs
      obtain ⟨s₀, hs₀, rfl⟩ := Option.map_eq_some_iff.1 hs
      refine .inl ⟨s₀, hs₀, ?_⟩
      by_cases hi : f.scope = i <;> simp [hi]
    · exact .inr ⟨by simpa using hi, rfl⟩

lemma head?_nextOutline (a : Analysis) (kind : ScopeKind) :
    (a.nextOutline kind).outer.head? = a.openScopes.head? := by
  unfold nextOutline openScopes
  cases a.frames <;> rfl

lemma isUpper_enter (kind : ScopeKind) (block : Node) {i j : Nat} :
    (a.enter kind block).graph.IsUpper j i ↔
      a.graph.IsUpper j i ∨ j = a.graph.scopes.length ∧ a.openScopes.head? = some i := by
  have houtline := outline_enter a kind block
  have hupper {g : Graph} :
      g.IsUpper j i ↔ ∃ o, g.outline[j]? = some o ∧ o.outer.head? = some i := by
    simp [Graph.IsUpper, Graph.outline_getElem?, Scope.outline, Scope.upper]
  rw [hupper, hupper, houtline, ← head?_nextOutline a kind, ← Graph.length_outline]
  constructor
  · rintro ⟨o, ho, hhead⟩
    rcases getElem?_concat_cases ho with ho | ⟨rfl, rfl⟩
    · exact .inl ⟨o, ho, hhead⟩
    · exact .inr ⟨rfl, hhead⟩
  · rintro (⟨o, ho, hhead⟩ | ⟨rfl, hhead⟩)
    · exact ⟨o, getElem?_append_left_of_some ho, hhead⟩
    · exact ⟨_, List.getElem?_concat_length, hhead⟩

lemma isUpper_lt_length {g : Graph} {i j : Nat} (h : g.IsUpper i j) : i < g.scopes.length := by
  obtain ⟨s, hs, -⟩ := h
  exact (List.getElem?_eq_some_iff.1 hs).1

lemma home_enter (a : Analysis) (kind : ScopeKind) (block : Node) {u : Nat}
    (hu : u < a.graph.scopes.length) :
    (a.enter kind block).graph.scopes[u]?.map Scope.home = a.graph.scopes[u]?.map Scope.home := by
  have houtline := congrArg (fun os : List Outline => os[u]?.map (·.home))
    (outline_enter a kind block)
  rw [List.getElem?_append_left (by rwa [Graph.length_outline]), Graph.outline_getElem?,
    Graph.outline_getElem?, Option.map_map, Option.map_map] at houtline
  exact houtline

lemma linked_enter (h : Invariant a) (hl : a.graph.Linked) (kind : ScopeKind) (block : Node) :
    (a.enter kind block).graph.Linked := by
  have hrooted := (h.enter kind block).rooted
  refine ⟨fun {i s} hs => ?_, fun {i s} hs j => ?_, fun {i s} hs => ?_⟩
  all_goals rcases getElem?_enter a kind block hs with ⟨s₀, hs₀, rfl⟩ | ⟨rfl, rfl⟩
  · -- What is inside the scope opened before the new one.
    dsimp only
    split
    · refine List.pairwise_append.2 ⟨hl.ordered hs₀, List.pairwise_singleton _ _, ?_⟩
      intro j hj k hk
      rw [List.mem_singleton.1 hk]
      exact isUpper_lt_length ((hl.inner hs₀ j).1 hj)
    · exact hl.ordered hs₀
  · exact .nil
  · rw [isUpper_enter, ← hl.inner hs₀]
    dsimp only
    split
    · rename_i hhead
      simp [hhead]
    · rename_i hhead
      simp [hhead]
  · simp only [List.not_mem_nil, false_iff]
    intro hupper
    have hlt := hupper.lt hrooted
    rcases (isUpper_enter kind block).1 hupper with hupper | ⟨rfl, -⟩
    · have := isUpper_lt_length hupper
      omega
    · omega
  · have hhome := hl.home hs₀
    dsimp only [Scope.upper] at hhome ⊢
    rw [hhome]
    cases ho : s₀.outer.head? with
    | none => rfl
    | some u =>
      have hi := (List.getElem?_eq_some_iff.1 hs₀).1
      have hu : u < i := Graph.IsUpper.lt h.rooted ⟨s₀, hs₀, ho⟩
      rw [Option.bind_some, Option.bind_some, home_enter a kind block (by omega)]
  · have hu : ∀ u ∈ a.openScopes.head?, (a.enter kind block).graph.scopes[u]?.map Scope.home =
        a.graph.scopes[u]?.map Scope.home := by
      intro u hu
      obtain ⟨s, hs⟩ := h.exists_scope (List.mem_of_head? hu)
      exact home_enter a kind block (List.getElem?_eq_some_iff.1 hs).1
    simp only [Scope.upper, head?_nextOutline]
    unfold nextOutline
    unfold openScopes at hu ⊢
    cases hf : a.frames with
    | nil => simp
    | cons f fs =>
      rw [hf] at hu
      simp only [List.map_cons, List.head?_cons, Option.bind_some, hu f.scope rfl]

lemma linked_step (h : Invariant a) (hl : a.graph.Linked) (hb : a.step e = .ok b) :
    b.graph.Linked := by
  cases e with
  | enter kind block =>
    cases hb
    exact linked_enter h hl kind block
  | _ => exact hl.congr (emptied_step rfl hb)

lemma linked_run (h : Invariant a) (hl : a.graph.Linked) (hb : es.foldlM step a = .ok b) :
    b.graph.Linked := by
  induction es generalizing a with
  | nil =>
    cases hb
    exact hl
  | cons e es ih =>
    rw [List.foldlM_cons] at hb
    obtain ⟨c, hc, hb⟩ := bind_ok_iff.1 hb
    exact ih (h.step hc).2 (linked_step h hl hc) hb

/-! ## Only the first scope stands alone -/

/-- Every scope but the first stands in another one. -/
def Surrounded (g : Graph) : Prop :=
  ∀ (i : Nat) (s : Scope), g.scopes[i]? = some s → i ≠ 0 → s.upper ≠ none

lemma Surrounded.congr {g g' : Graph} (h : Surrounded g) (he : g'.emptied = g.emptied) :
    Surrounded g' := by
  intro i s hs hi
  obtain ⟨s₀, hs₀, -, hupper, -, -⟩ := Graph.exists_of_emptied_eq he hs
  rw [hupper]
  exact h i s₀ hs₀ hi

lemma surrounded_enter (h : Surrounded a.graph) (kind : ScopeKind) (block : Node)
    (hopen : a.graph.scopes ≠ [] → a.openScopes ≠ []) :
    Surrounded (a.enter kind block).graph := by
  intro i s hs hi
  rcases getElem?_enter a kind block hs with ⟨s₀, hs₀, rfl⟩ | ⟨rfl, rfl⟩
  · exact h i s₀ hs₀ hi
  · simp only [Scope.upper, head?_nextOutline]
    have hne := hopen fun hnil => hi (by rw [hnil]; rfl)
    simpa using hne

/-- Going outward from any scope leads to the first one. -/
lemma Surrounded.zero_mem_chain {g : Graph} (h : Surrounded g) (hrooted : Rooted g.outline)
    {i : Nat} (hi : i < g.scopes.length) : 0 ∈ g.chain i := by
  induction i using Nat.strongRecOn with
  | ind i ih =>
    by_cases hzero : i = 0
    · rw [hzero]
      exact List.mem_cons_self
    · obtain ⟨u, hu⟩ := Option.ne_none_iff_exists'.1 (h i _ (List.getElem?_eq_getElem hi) hzero)
      have hupper : g.IsUpper i u := ⟨_, List.getElem?_eq_getElem hi, hu⟩
      have hlt := hupper.lt hrooted
      obtain ⟨js, hjs⟩ := Graph.isUpper_iff.1 hupper
      rw [hjs, ← Graph.chain_upper hrooted hjs]
      exact List.mem_cons_of_mem i (ih u hlt (by omega))

/-- The scopes of a construct stand in the scope in which the construct stands. -/
lemma surrounded_run {n : Node} (hn : Event.Nested n es) (hopen : a.openScopes ≠ [])
    (h : Surrounded a.graph) (hb : es.foldlM step a = .ok b) : Surrounded b.graph := by
  have hstep {a b : Analysis} {e : Event} (he : e.opened = []) (h : Surrounded a.graph)
      (hb : [e].foldlM step a = .ok b) : Surrounded b.graph :=
    h.congr (emptied_step he (by simpa using hb))
  induction hn generalizing a b with
  | nil =>
    cases hb
    exact h
  | append hes _ ih ih' =>
    rw [List.foldlM_append] at hb
    obtain ⟨c, hc, hb⟩ := bind_ok_iff.1 hb
    exact ih' (by rwa [openScopes_run hes hc]) (ih hopen h hc) hb
  | @within n block kind es _ _ _ ih =>
    rw [Event.within, List.cons_append, List.foldlM_cons] at hb
    obtain ⟨c, hc, hb⟩ := bind_ok_iff.1 hb
    cases hc
    rw [List.foldlM_append] at hb
    obtain ⟨d, hd, hb⟩ := bind_ok_iff.1 hb
    have henter := surrounded_enter h kind block fun _ => hopen
    exact hstep rfl (ih (by rw [openScopes_enter]; exact List.cons_ne_nil _ _) henter hd) hb
  | _ => exact hstep rfl h hb

end Analysis

/-! ## What stands below a block -/

namespace Graph

/-- The node stands below the block of the scope. -/
def Encloses (g : Graph) (i : Nat) (x : Node) : Prop :=
  ∃ e, g.blocks[i]? = some e ∧ ∃ c ∈ e.2.children, c.Contains x

/-- References stand below the blocks of the scopes in which they are made, and definitions below
those of the scopes that hold them. -/
structure Enclosed (g : Graph) : Prop where
  reference : ∀ r ∈ g.references, g.Encloses r.scope r.identifier
  definition : ∀ {i : Nat} {ds : List (String × Definition)}, g.held[i]? = some ds →
    ∀ d ∈ ds, g.Encloses i d.2.identifier

variable {g g' : Graph} {i : Nat} {x y : Node}

lemma enclosed_empty : Enclosed {} where
  reference _ h := by cases h
  definition h := by cases h

lemma Encloses.trans (h : g.Encloses i x) (hy : x.Contains y) : g.Encloses i y := by
  obtain ⟨e, he, c, hc, hx⟩ := h
  exact ⟨e, he, c, hc, hx.trans hy⟩

lemma Encloses.below (h : g.Encloses i x) {s : Scope} (hs : g.scopes[i]? = some s) :
    ∃ c ∈ s.block.children, c.Contains x := by
  obtain ⟨e, he, hx⟩ := h
  rw [blocks_getElem?, hs] at he
  cases he
  exact hx

lemma Housed.contains_block (h : g.Housed) {u : Nat} {s : Scope} (hs : g.scopes[i]? = some s)
    (hu : s.upper = some u) : ∃ t, g.scopes[u]? = some t ∧ t.block.Contains s.block := by
  obtain ⟨us, hus⟩ := List.head?_eq_some_iff.1 hu
  have ho : g.outline[i]? = some s.outline := by rw [outline_getElem?, hs]; rfl
  obtain ⟨e, he, e', he', hin⟩ := h.block ho hus
  rw [blocks_getElem?, hs] at he
  cases he
  rw [blocks_getElem?] at he'
  obtain ⟨t, ht, rfl⟩ := Option.map_eq_some_iff.1 he'
  exact ⟨t, ht, hin⟩

lemma Encloses.append (h : g.Encloses i x) {es : List (ScopeKind × Node)}
    (hg : g'.blocks = g.blocks ++ es) : g'.Encloses i x := by
  obtain ⟨e, he, hx⟩ := h
  refine ⟨e, ?_, hx⟩
  rw [hg]
  exact getElem?_append_left_of_some he

end Graph

namespace Analysis

variable {a b : Analysis} {e : Event} {es : List Event} {n : Node} {ns : List Node}

/-- A reference was there before, or the event has made it in the innermost open scope. -/
lemma mem_references_step (hb : a.step e = .ok b) {r : Reference} (hr : r ∈ b.graph.references) :
    (∃ r₀ ∈ a.graph.references, r₀.scope = r.scope ∧ r₀.identifier = r.identifier) ∨
      ∃ o ∈ e.uses, o.identifier = r.identifier ∧ r.scope ∈ a.openScopes := by
  have hkept {hoisted : Bool} {f : Scope → Scope} (hb : a.inScope hoisted f = .ok b) :
      r ∈ a.graph.references := by
    unfold inScope at hb
    split at hb
    · cases hb
    · cases hb
      exact hr
  cases e with
  | enter kind block =>
    cases hb
    exact .inl ⟨r, hr, rfl, rfl⟩
  | leave =>
    obtain ⟨u, us, c⟩ := closing_of_leave hb
    obtain ⟨k, hk⟩ := List.mem_iff_getElem?.1 hr
    rw [c.references] at hk
    obtain ⟨r₀, hr₀, rfl⟩ := Option.map_eq_some_iff.1 hk
    refine .inl ⟨r₀, List.mem_of_getElem? hr₀, ?_⟩
    split
    · rw [scope_resolveIn, toOccurrence_resolveIn]
      exact ⟨rfl, rfl⟩
    · exact ⟨rfl, rfl⟩
  | mention o =>
    cases hf : a.frames with
    | nil =>
      rw [step, mention, hf] at hb
      cases hb
    | cons u us =>
      rw [step, mention_eq hf] at hb
      cases hb
      rcases List.mem_append.1 hr with hr | hr
      · exact .inl ⟨r, hr, rfl, rfl⟩
      · rw [List.mem_singleton.1 hr]
        exact .inr ⟨o, List.mem_singleton_self o, rfl, by simp [openScopes, hf]⟩
  | hoist => exact .inl ⟨r, hkept hb, rfl, rfl⟩
  | declare name => exact .inl ⟨r, hkept hb, rfl, rfl⟩
  | define hoisted d => exact .inl ⟨r, hkept hb, rfl, rfl⟩

/-- The nodes stand below the blocks of all open scopes. -/
def Surrounds (a : Analysis) (ns : List Node) : Prop :=
  ∀ i ∈ a.openScopes, ∀ m ∈ ns, a.graph.Encloses i m

lemma surrounds_nil (a : Analysis) : a.Surrounds [] :=
  fun _ _ _ hm => (List.not_mem_nil hm).elim

lemma Surrounds.mono {ms : List Node} (h : a.Surrounds ns) (hms : ∀ m ∈ ms, m ∈ ns) :
    a.Surrounds ms :=
  fun i hi m hm => h i hi m (hms m hm)

/-- A step keeps everything below the blocks of the scopes where it belongs, if the event mentions
and defines only what stands below the blocks of all open scopes. -/
lemma enclosed_step (h : Invariant a) (ha : a.graph.Enclosed)
    (hb : a.step e = .ok b) (hin : a.Surrounds (e.mentions ++ e.introduces)) :
    b.graph.Enclosed := by
  have hblocks := blocks_step hb
  refine ⟨fun r hr => ?_, fun {i ds} hds d hd => ?_⟩
  · rcases mem_references_step hb hr with ⟨r₀, hr₀, hscope, hid⟩ | ⟨o, ho, hid, hopen⟩
    · rw [← hscope, ← hid]
      exact (ha.reference r₀ hr₀).append hblocks
    · rw [← hid]
      exact (hin _ hopen _ (List.mem_append_left _ (List.mem_map_of_mem ho))).append hblocks
  · refine Graph.Encloses.append ?_ hblocks
    have hholds := held_step h hb
    unfold Event.introduces at hin
    generalize e.defines = defined at hholds hin
    cases hholds with
    | same held => exact ha.definition (held ▸ hds) d hd
    | opens held =>
      rw [held] at hds
      rcases getElem?_concat_cases hds with hds | ⟨-, rfl⟩
      · exact ha.definition hds d hd
      · cases hd
    | @adds new j ds₀ ds' isOpen before perm held =>
      rw [held, List.getElem?_set] at hds
      split at hds
      · rename_i hij
        subst hij
        split at hds
        · cases hds
          rcases List.mem_append.1 (perm.subset hd) with hd | hd
          · exact ha.definition before d hd
          · rw [List.mem_singleton.1 hd]
            exact hin j isOpen _ (List.mem_append_right _ (List.mem_singleton_self _))
        · cases hds
      · exact ha.definition hds d hd

/-- The same nodes stand below the blocks of all open scopes after the events of a construct. -/
lemma Surrounds.run (hin : a.Surrounds ns) (hn : Event.Nested n es)
    (hb : es.foldlM step a = .ok b) : b.Surrounds ns := by
  intro i hi m hm
  rw [openScopes_run hn hb] at hi
  exact (hin i hi m hm).append (blocks_run hb)

/-- **What comes from visits to nodes below the blocks of all open scopes ends up where it
belongs.** -/
lemma enclosed_run (hv : Event.Visits n ns es) (hin : a.Surrounds ns)
    (h : Invariant a) (ha : a.graph.Enclosed) (hb : es.foldlM step a = .ok b) :
    b.graph.Enclosed := by
  have hone {a b : Analysis} {e : Event} {ns : List Node} (hin : a.Surrounds ns)
      (h : Invariant a) (ha : a.graph.Enclosed) (hb : [e].foldlM step a = .ok b)
      (hns : ∀ m ∈ e.mentions ++ e.introduces, m ∈ ns) : b.graph.Enclosed :=
    enclosed_step h ha (by simpa using hb) (hin.mono hns)
  induction hv generalizing a b with
  | nil =>
    cases hb
    exact ha
  | append hes _ ih ih' =>
    rw [List.foldlM_append] at hb
    obtain ⟨c, hc, hb⟩ := bind_ok_iff.1 hb
    have hleft := hin.mono fun m hm => List.mem_append_left _ hm
    have hright := hin.mono fun m hm => List.mem_append_right _ hm
    exact ih' (hright.run hes.nested hc) (h.run hc).2 (ih hleft h ha hc) hb
  | leaving rest _ ih => exact ih (hin.mono fun m hm => rest.subset hm) h ha hb
  | @opening n c ns es _ ih =>
    refine ih (fun i hi m hm => ?_) h ha hb
    rcases List.mem_append.1 hm with hm | hm
    · exact (hin i hi c List.mem_cons_self).trans (Node.contains_of_mem_exposed hm)
    · exact hin i hi m (List.mem_cons_of_mem c hm)
  | inside _ _ ih => exact ih hin h ha hb
  | hoist => exact hone hin h ha hb (List.forall_mem_nil _)
  | declare => exact hone hin h ha hb (List.forall_mem_nil _)
  | define _ _ _ => exact hone hin h ha hb fun m hm => hm
  | mention _ _ _ => exact hone hin h ha hb fun m hm => hm
  | @initialise n hoisted d o same sameName inside isIdentifier named =>
    rw [List.foldlM_cons] at hb
    obtain ⟨c, hc, hb⟩ := bind_ok_iff.1 hb
    have hc' : [Event.define hoisted d].foldlM step a = .ok c := by simpa using hc
    refine hone (hin.run (.define inside named) hc') (h.step hc).2
      (hone hin h ha hc' fun m hm => hm) hb fun m hm => ?_
    rw [← same]
    exact hm
  | @within n kind ns es isProgram below hes ih =>
    rw [Event.within, List.cons_append, List.foldlM_cons] at hb
    obtain ⟨c, hc, hb⟩ := bind_ok_iff.1 hb
    have hch := (h.step hc).2
    have hca := enclosed_step h ha hc (surrounds_nil a)
    cases hc
    rw [List.foldlM_append] at hb
    obtain ⟨d, hd, hb⟩ := bind_ok_iff.1 hb
    refine hone (surrounds_nil d) (hch.run hd).2 (ih ?_ hch hca hd) hb
      (List.forall_mem_nil _)
    intro i hi m hm
    rw [openScopes_enter] at hi
    rcases List.mem_cons.1 hi with rfl | hi
    · refine ⟨(kind, n), ?_, m, below m hm, .refl m⟩
      rw [blocks_enter, ← List.length_map (f := fun s : Scope => (s.kind, s.block))]
      exact List.getElem?_concat_length
    · exact (hin i hi m hm).append (blocks_enter a kind n)

end Analysis

/-! ## Well-formed graphs -/

namespace Graph

/-- Hoisted declarations made in the first scope go to the second one: it is the nearest, going
outward, at which they stop. -/
inductive Home (g : Graph) : Nat → Nat → Prop
  | here {i : Nat} {s : Scope} (scope : g.scopes[i]? = some s) (stops : s.kind.hoists = true) :
      Home g i i
  | outward {i u j : Nat} {s : Scope} (scope : g.scopes[i]? = some s)
      (passes : s.kind.hoists = false) (upper : s.upper = some u) : Home g u j → Home g i j

/-- What a user of a scope graph may rely on. -/
structure WellFormed (g : Graph) : Prop where
  /-- The first scope stands in no other one. -/
  first : ∃ s, g.scopes[0]? = some s ∧ s.upper = none
  /-- Every other scope stands in one that opened before. -/
  upper : ∀ {i : Nat} {s : Scope}, g.scopes[i]? = some s → i ≠ 0 → ∃ u < i, s.upper = some u
  /-- The scopes right inside a scope are listed in the order in which they opened. -/
  ordered : ∀ {i : Nat} {s : Scope}, g.scopes[i]? = some s → s.inner.Pairwise (· < ·)
  /-- These are the scopes that it is right around. -/
  inner : ∀ {i : Nat} {s : Scope}, g.scopes[i]? = some s →
    ∀ j, j ∈ s.inner ↔ ∃ t, g.scopes[j]? = some t ∧ t.upper = some i
  /-- Hoisted declarations go to the nearest scope where they stop. -/
  home : ∀ {i : Nat} {s : Scope}, g.scopes[i]? = some s → g.Home i s.home
  /-- The block of a scope stands in the block of the scope around. -/
  block : ∀ {i u : Nat} {s : Scope}, g.scopes[i]? = some s → s.upper = some u →
    ∃ t, g.scopes[u]? = some t ∧ t.block.Contains s.block
  /-- A scope lists the references that are made in it. -/
  made : ∀ {i : Nat} {s : Scope}, g.scopes[i]? = some s →
    ∀ k, k ∈ s.references ↔ ∃ r, g.references[k]? = some r ∧ r.scope = i
  /-- The references that are made in a scope stand below its block. -/
  reference : ∀ {i : Nat} {s : Scope}, g.scopes[i]? = some s → ∀ r ∈ g.references, r.scope = i →
    ∃ c ∈ s.block.children, c.Contains r.identifier
  /-- The definitions that a scope holds stand below its block. -/
  definition : ∀ {i : Nat} {s : Scope}, g.scopes[i]? = some s → ∀ v ∈ s.declared,
    ∀ d ∈ v.definitions, ∃ c ∈ s.block.children, c.Contains d.identifier
  /-- A scope declares a name once. -/
  names : ∀ {i : Nat} {s : Scope}, g.scopes[i]? = some s → (s.declared.map (·.name)).Nodup
  /-- Its table has the place of each variable under its name, and nothing else. -/
  table : ∀ {i : Nat} {s : Scope}, g.scopes[i]? = some s → ∀ name k,
    s.table.get? name = some k ↔ ∃ v, s.declared[k]? = some v ∧ v.name = name
  /-- The variables of a scope are those that are found by their names. -/
  find? : ∀ {i : Nat} {s : Scope}, g.scopes[i]? = some s → ∀ name v,
    s.find? name = some v ↔ v ∈ s.declared ∧ v.name = name
  /-- The identifiers of a variable are those of its definitions, and bear its name. -/
  identifiers : ∀ {i : Nat} {s : Scope}, g.scopes[i]? = some s → ∀ v ∈ s.declared,
    v.identifiers = v.definitions.map (·.identifier) ∧
      ∀ n ∈ v.identifiers, n.text? .name = .ok (some v.name)

variable {g : Graph} {i : Nat} {s : Scope}

/-- Where hoisted declarations stop at the first scope, they go to the nearest scope where they
stop. -/
lemma Linked.isHome (h : g.Linked) (hupper : ∀ {i : Nat} {s : Scope}, g.scopes[i]? = some s →
      i ≠ 0 → ∃ u < i, s.upper = some u ∧ ∃ t, g.scopes[u]? = some t)
    (hfirst : ∀ s, g.scopes[0]? = some s → s.kind.hoists = true) (hs : g.scopes[i]? = some s) :
    g.Home i s.home := by
  induction i using Nat.strongRecOn generalizing s with
  | ind i ih =>
    have hhome := h.home hs
    by_cases hstops : s.kind.hoists = true
    · rw [if_pos hstops] at hhome
      rw [hhome]
      exact .here hs hstops
    · have hi : i ≠ 0 := by
        rintro rfl
        exact hstops (hfirst s hs)
      obtain ⟨u, hu, hsu, t, ht⟩ := hupper hs hi
      rw [if_neg hstops, hsu, Option.bind_some, ht, Option.map_some, Option.getD_some] at hhome
      rw [hhome]
      exact .outward hs (by simpa using hstops) hsu (ih u hu ht)

end Graph

namespace Node

variable {sourceType : String} {globals : List String} {root : Node} {g : Graph}

lemma nested_declare (n : Node) (names : List String) : Event.Nested n (names.map .declare) := by
  induction names with
  | nil => exact .nil
  | cons name names ih => exact Event.Nested.declare.append ih

lemma surrounded_scopeGraph (hroot : root.kind = .program)
    (h : root.scopeGraph sourceType globals = .ok g) : Analysis.Surrounded g := by
  obtain ⟨body, a, b, c, hbody, ha, hb, hc, rfl⟩ := run_program hroot h
  have hdeclare := nested_declare root globals
  -- The first scope opens while no other one is open, and stays open up to the end.
  have hfirst : Analysis.Surrounded (Analysis.enter {} .global root).graph :=
    Analysis.surrounded_enter (a := {}) nofun .global root fun hne => absurd rfl hne
  have hopen : (Analysis.enter {} .global root).openScopes ≠ [] := List.cons_ne_nil _ _
  have hdeclared := Analysis.surrounded_run hdeclare hopen hfirst ha
  rw [← Analysis.openScopes_run hdeclare ha] at hopen
  have hclosing := Analysis.surrounded_run (nested_moduleEvents hbody) hopen hdeclared hb
  exact hclosing.congr (Analysis.emptied_step (e := .leave) rfl hc)

end Node

/-- **The scope graph of a program is well formed.** -/
theorem Graph.wellFormed_of_program {sourceType : String} {globals : List String} {root : Node}
    {g : Graph} (hroot : root.kind = .program) (h : root.scopeGraph sourceType globals = .ok g) :
    g.WellFormed := by
  have hsurrounded := Node.surrounded_scopeGraph hroot h
  have hhoused := Node.housed_scopeGraph h
  have hfirst := Node.exists_first hroot h
  obtain ⟨es, hvisits, -, hheld⟩ := Node.exists_events h
  obtain ⟨es', b, hes', hb, rfl⟩ := Node.exists_run h
  obtain ⟨-, hinv⟩ := Analysis.invariant_initial.run hb
  have hledger := Analysis.ledger_initial.run Analysis.invariant_initial hb
  have hlinked := Analysis.linked_run Analysis.invariant_initial linked_empty hb
  have henclosed := Analysis.enclosed_run (Event.visits_events hes') (fun _ h => by cases h)
    Analysis.invariant_initial enclosed_empty hb
  have hupper {i : Nat} {s : Scope} (hs : b.graph.scopes[i]? = some s) (hi : i ≠ 0) :
      ∃ u < i, s.upper = some u := by
    obtain ⟨u, hu⟩ := Option.ne_none_iff_exists'.1 (hsurrounded i s hs hi)
    exact ⟨u, IsUpper.lt hinv.rooted ⟨s, hs, hu⟩, hu⟩
  refine ⟨?_, hupper, hlinked.ordered, hlinked.inner, fun hs => ?_, hhoused.contains_block,
    fun hs => (hledger.made hs).mem_iff, fun {i s} hs r hr hi => ?_, fun {i s} hs v hv d hd => ?_,
    fun hs => (hinv.coherent.scope hs).names, fun hs => (hinv.coherent.scope hs).table,
    fun hs name v => (hinv.coherent.scope hs).find?_eq_some_iff,
    fun {i s} hs v hv => ⟨(hinv.coherent.scope hs).identifiers v hv, ?_⟩⟩
  · obtain ⟨s, hs, -⟩ := hfirst
    refine ⟨s, hs, ?_⟩
    by_contra hne
    obtain ⟨u, hu⟩ := Option.ne_none_iff_exists'.1 hne
    exact absurd (IsUpper.lt hinv.rooted ⟨s, hs, hu⟩) (Nat.not_lt_zero u)
  · refine hlinked.isHome (fun hs hi => ?_) (fun s hs => ?_) hs
    · obtain ⟨u, hlt, hu⟩ := hupper hs hi
      obtain ⟨t, ht, -⟩ := hhoused.contains_block hs hu
      exact ⟨u, hlt, hu, t, ht⟩
    · obtain ⟨s', hs', hkind⟩ := hfirst
      obtain rfl : s = s' := Option.some_inj.1 (hs.symm.trans hs')
      rw [hkind]
      rfl
  · exact Encloses.below (hi ▸ henclosed.reference r hr) hs
  · have hds : b.graph.held[i]? = some s.held := by rw [held_getElem?, hs]; rfl
    exact (henclosed.definition hds _ (Scope.mem_held hv hd)).below hs
  · intro n hn
    rw [(hinv.coherent.scope hs).identifiers v hv] at hn
    obtain ⟨d, hd, rfl⟩ := List.mem_map.1 hn
    have hmem : (v.name, d) ∈ b.graph.held.flatten :=
      List.mem_flatten.2 ⟨s.held, List.mem_map_of_mem (List.mem_of_getElem? hs),
        Scope.mem_held hv hd⟩
    obtain ⟨hname, -, -, hnamed⟩ := hvisits.defined (hheld.subset hmem)
    rw [hname]
    exact hnamed

/-- In the program `() => { a; { var a } }`, the block has the function as its home. -/
theorem Graph.wellFormed_lateDeclaration : Node.lateDeclaration.kind = .program ∧
    ∃ g, Node.lateDeclaration.scopeGraph "module" ["a"] = .ok g ∧
      g.scopes.map (·.upper) = [none, some 0, some 1, some 2] ∧
      g.scopes.map (·.home) = [0, 1, 2, 2] ∧ g.WellFormed := by
  have hall : (Node.lateDeclaration.scopeGraph "module" ["a"]).toOption.any fun g =>
      g.scopes.map (·.upper) == [none, some 0, some 1, some 2] &&
        g.scopes.map (·.home) == [0, 1, 2, 2] := by decide +kernel
  obtain ⟨g, h, hall⟩ := exists_ok_of_any hall
  simp only [Bool.and_eq_true, beq_iff_eq] at hall
  exact ⟨rfl, g, h, hall.1, hall.2, Graph.wellFormed_of_program rfl h⟩

end RefFlow
