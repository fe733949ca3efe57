import Mathlib.Data.List.Induction
import RefFlow.Proofs.Program
import RefFlow.Proofs.Scope.Blocks

/-!
# Names by position

There are two ways to find out what an identifier means.  Scope analysis looks its name up from the
scope that is open where the identifier is used; `Program.find` looks it up from the innermost scope
whose block covers the position of the identifier.  The two are different wherever a construct
evaluates a part of its own range outside its scope: the key of a method, what a class extends, or
what a loop runs over.

* `Graph.innermost_spec` says that one pass over the scopes does find the innermost scope at an
  offset: it covers the offset, and no scope right inside does.
* `Graph.lookup_eq_lookup_iff` says when looking a name up from two scopes gives the same variable:
  the scopes that declare it must be around both or around none of them.
* `Program.find_eq_resolved_iff` puts these together.  All scopes around a reference cover its
  position; where no other scopes do, both ways give the same variable, and in general they do
  exactly if the scopes around the reference and around its position that declare the name are the
  same.
-/

namespace RefFlow

open Fallible

/-- A pass over a list with positions: what holds at the beginning and is kept by every step holds
at the end. -/
lemma foldl_zipIdx_induction {α σ : Type} {as : List α} {f : σ → α × Nat → σ} {s : σ}
    {P : Nat → σ → Prop} (start : P 0 s)
    (step : ∀ (k : Nat) (a : α) (s : σ), as[k]? = some a → P k s → P (k + 1) (f s (a, k))) :
    P as.length (as.zipIdx.foldl f s) := by
  induction as using List.reverseRecOn with
  | nil => exact start
  | append_singleton as a ih =>
    have hbefore := ih fun k b s hb => step k b s (getElem?_append_left_of_some hb)
    rw [List.zipIdx_append, List.foldl_append, List.length_append]
    simpa using step as.length a _ List.getElem?_concat_length hbefore

namespace Graph

variable {g : Graph} {i j k start offset : Nat} {name : String} {v : VariableId}

/-! ## The innermost scope at an offset -/

/-- The block of the scope covers the offset. -/
def Covers (g : Graph) (i offset : Nat) : Prop :=
  ∃ s, g.scopes[i]? = some s ∧ s.block.span.Contains offset

/-- The search for the innermost scope ends in a scope that covers the offset, if it starts in one,
and none right inside does. -/
lemma innermost_spec (hg : Rooted g.outline) (hstart : g.Covers start offset) :
    g.Covers (g.innermost start offset) offset ∧
      ∀ j, g.IsUpper j (g.innermost start offset) → ¬g.Covers j offset := by
  -- Of the scopes that have been passed, none is right inside the one that was come to.
  have hpass : g.Covers (g.innermost start offset) offset ∧
      ∀ j < g.scopes.length, g.IsUpper j (g.innermost start offset) → ¬g.Covers j offset := by
    refine foldl_zipIdx_induction (P := fun k cur => g.Covers cur offset ∧
      ∀ j < k, g.IsUpper j cur → ¬g.Covers j offset) ⟨hstart, nofun⟩ fun k s cur hs hcur => ?_
    dsimp only
    split
    · rename_i htaken
      refine ⟨⟨s, hs, htaken.2⟩, fun j hj hupper => ?_⟩
      have hlt := hupper.lt hg
      omega
    · rename_i hpassed
      refine ⟨hcur.1, fun j hj hupper => ?_⟩
      rcases Nat.lt_succ_iff_lt_or_eq.1 hj with hj | rfl
      · exact hcur.2 j hj hupper
      · rintro ⟨t, ht, hcovers⟩
        obtain ⟨u, hu, hucur⟩ := hupper
        obtain rfl : t = s := Option.some_inj.1 (ht.symm.trans hs)
        obtain rfl : u = t := Option.some_inj.1 (hu.symm.trans ht)
        exact hpassed ⟨by simp [hucur], hcovers⟩
  refine ⟨hpass.1, fun j hupper => hpass.2 j ?_ hupper⟩
  obtain ⟨s, hs, -⟩ := hupper
  exact (List.getElem?_eq_some_iff.1 hs).1

/-! ## The same name in two scopes -/

lemma outward_iff_of_isUpper (h : g.IsUpper i j) : g.Outward i k ↔ i = k ∨ g.Outward j k := by
  rw [Outward, Relation.ReflTransGen.cases_head_iff]
  refine or_congr_right ⟨?_, fun hk => ⟨j, h, hk⟩⟩
  rintro ⟨j', hj', hk⟩
  rwa [g.rightUnique_isUpper h hj']

namespace Nearest

lemma declares (h : g.Nearest name i v) : g.declares v.scope name = true := by
  induction h with
  | here hd => exact hd
  | outward _ _ _ ih => exact ih

lemma outward_scope (h : g.Nearest name i v) : g.Outward i v.scope := by
  induction h with
  | here => exact .refl
  | outward _ hupper _ ih => exact .head hupper ih

/-- Of the scopes that declare the name, those around a scope are those around the nearest. -/
lemma outward_iff (h : g.Nearest name i v) (hk : g.declares k name = true) :
    g.Outward i k ↔ g.Outward v.scope k := by
  induction h with
  | here => rfl
  | @outward i j v hpasses hupper _ ih =>
    rw [outward_iff_of_isUpper hupper, ih]
    refine or_iff_right ?_
    rintro rfl
    rw [hpasses] at hk
    cases hk

end Nearest

/-- A name means the same in two scopes exactly if the scopes that declare it are around both or
around neither. -/
lemma lookup_eq_lookup_iff (hg : Rooted g.outline) : g.lookup i name = g.lookup j name ↔
    ∀ k, g.declares k name = true → (g.Outward i k ↔ g.Outward j k) := by
  constructor
  · intro heq k hk
    cases hi : g.lookup i name with
    | none =>
      have hj : g.lookup j name = none := heq.symm.trans hi
      rw [lookup_eq_none_iff hg] at hi hj
      refine iff_of_false (fun ho => ?_) fun ho => ?_
      · simp [hi k ho] at hk
      · simp [hj k ho] at hk
    | some v =>
      have hj : g.lookup j name = some v := heq.symm.trans hi
      rw [lookup_eq_some_iff hg] at hi hj
      exact (hi.outward_iff hk).trans (hj.outward_iff hk).symm
  · intro hiff
    cases hi : g.lookup i name with
    | none =>
      rw [lookup_eq_none_iff hg] at hi
      refine Eq.symm ((lookup_eq_none_iff hg).2 fun k hk => ?_)
      by_contra hd
      have hd : g.declares k name = true := by simpa using hd
      simp [hi k ((hiff k hd).2 hk)] at hd
    | some v =>
      rw [lookup_eq_some_iff hg] at hi
      have hv : g.Outward j v.scope := (hiff _ hi.declares).1 hi.outward_scope
      cases hj : g.lookup j name with
      | none =>
        have hd := (lookup_eq_none_iff hg).1 hj _ hv
        rw [hi.declares] at hd
        cases hd
      | some w =>
        rw [lookup_eq_some_iff hg] at hj
        have hw : g.Outward i w.scope := (hiff _ hj.declares).2 hj.outward_scope
        have hvw : v.scope ≤ w.scope := ((hj.outward_iff hi.declares).1 hv).le hg
        have hwv : w.scope ≤ v.scope := ((hi.outward_iff hj.declares).1 hw).le hg
        have hscope : v.scope = w.scope := Nat.le_antisymm hvw hwv
        have hname : v.name = w.name := hi.name_eq.trans hj.name_eq.symm
        cases v
        cases w
        simp_all

end Graph

/-! ## Blocks around positions -/

lemma Span.Contains.mono {s t : Span} {offset : Nat} (h : s.Contains offset) (hs : s.Within t) :
    t.Contains offset :=
  ⟨Nat.le_trans hs.1 h.1, Nat.lt_of_lt_of_le h.2 hs.2⟩

namespace Graph

variable {g : Graph} {i j : Nat} {n : Node}

lemma houses_iff : g.Houses i n ↔ ∃ s, g.scopes[i]? = some s ∧ s.block.Contains n := by
  simp [Houses, blocks_getElem?]

/-- What stands in the block of a scope stands in the blocks of all scopes around it. -/
lemma Housed.houses_of_outward (h : g.Housed) (hi : g.Houses i n) (ho : g.Outward i j) :
    g.Houses j n := by
  induction ho with
  | refl => exact hi
  | tail _ hupper ih =>
    obtain ⟨s, hs, hj⟩ := hupper
    obtain ⟨us, hus⟩ := List.head?_eq_some_iff.1 hj
    obtain ⟨e, he, hhouses⟩ := h.block (o := s.outline) (by rw [outline_getElem?, hs]; rfl) hus
    obtain ⟨e', he', hn⟩ := ih
    obtain rfl : e = e' := Option.some_inj.1 (he.symm.trans he')
    exact hhouses.trans hn

end Graph

namespace Program

variable {source : Source} {options : Options} {tree : Concrete Unit} {p : Program} {i j : Nat}
  {n : Node} {r : Reference}

section Nested

variable (h : analyze source options tree = .ok p) (hnested : tree.NestedRanges)

include h hnested

/-- A node in the block of a scope lies inside the range of the block. -/
lemma within_of_houses (hi : p.graph.Houses i n) :
    ∃ s, p.graph.scopes[i]? = some s ∧ p.Has s.block ∧ s.block.Contains n ∧
      n.span.Within s.block.span := by
  obtain ⟨s, hs, hn⟩ := Graph.houses_iff.1 hi
  have hmem : (s.kind, s.block) ∈ p.graph.blocks := List.mem_map_of_mem (List.mem_of_getElem? hs)
  have hblock : p.Has s.block := (Node.opens_scopes p.graph_eq _ hmem).1
  have hconforming : s.block.Conforming tree.ranging := fun u hu =>
    Convert.conforming_build (build_of_analyze h) u (hblock.trans hu)
  exact ⟨s, hs, hblock, hn, hconforming.span_within hnested hn⟩

/-- The scopes around one that covers an offset cover it too. -/
lemma covers_of_outward {offset : Nat} (hi : p.graph.Covers i offset)
    (ho : p.graph.Outward i j) : p.graph.Covers j offset := by
  obtain ⟨s, hs, hoffset⟩ := hi
  have hhouses : p.graph.Houses i s.block := Graph.houses_iff.2 ⟨s, hs, .refl _⟩
  have houter := (Node.housed_scopeGraph p.graph_eq).houses_of_outward hhouses ho
  obtain ⟨t, ht, -, -, hwithin⟩ := within_of_houses h hnested houter
  exact ⟨t, ht, hoffset.mono hwithin⟩

/-- A scope covers the beginning of what stands in its block. -/
lemma covers_of_houses (hnonempty : tree.NonemptyRanges) (hi : p.graph.Houses i n) :
    p.graph.Covers i n.span.start := by
  obtain ⟨s, hs, hblock, hn, hwithin⟩ := within_of_houses h hnested hi
  have hcovers := (Convert.conforming_build (build_of_analyze h) n (hblock.trans hn)).2
  exact ⟨s, hs, Span.Contains.mono ⟨Nat.le_refl _, hcovers.nonempty hnonempty⟩ hwithin⟩

/-- The global scope has the whole program in its block. -/
lemma houses_global (hroot : tree.symbol = "program") (hn : p.Has n) :
    p.graph.Houses p.global n := by
  have hbuild := build_of_analyze h
  obtain ⟨s, hs, hblock⟩ := Node.block_global (Convert.kind_build hbuild hroot)
    (Convert.conforming_build hbuild) hnested.soleProgram p.graph_eq
  refine Graph.houses_iff.2 ⟨s, hs, ?_⟩
  rw [hblock]
  exact hn

end Nested

/-! ## Both ways compared -/

/-- What a reference means by its position is what its name means in the innermost scope there. -/
lemma find_eq_lookup (hroot : p.root.kind = .program) (hr : r ∈ p.graph.references) :
    p.find r.identifier =
      .ok (p.graph.lookup (p.graph.innermost p.global r.identifier.span.start) r.name) := by
  obtain ⟨s, hs, -⟩ := Node.global_program hroot p.graph_eq
  obtain ⟨-, -, hname⟩ := Node.named_of_mem_references p.graph_eq hr
  have hglobal : p.graph.scope p.global = .ok s := by rw [Graph.scope, global, hs]
  rw [find, Graph.find, hglobal, ok_bind, hname, ok_bind]
  rfl

/-- **When the position of a reference tells what it means.**  Let the ranges of the concrete tree
be nested and not empty, and its root be the only program.  Then all scopes around a reference cover
its position.  If no others do, what is found at the position is what the reference was resolved to;
and in general it is so exactly if, among the scopes that cover the position and declare the name,
those around the reference are those around the innermost scope at the position. -/
theorem find_eq_resolved_iff (h : analyze source options tree = .ok p)
    (hroot : tree.symbol = "program") (hnested : tree.NestedRanges)
    (hnonempty : tree.NonemptyRanges) (hr : r ∈ p.graph.references) :
    (∀ k, p.graph.Outward r.scope k → p.graph.Covers k r.identifier.span.start) ∧
      ((∀ k, p.graph.Covers k r.identifier.span.start → p.graph.Outward r.scope k) →
        p.find r.identifier = .ok r.resolved) ∧
      (p.find r.identifier = .ok r.resolved ↔
        ∀ k, p.graph.Covers k r.identifier.span.start → p.graph.declares k r.name = true →
          (p.graph.Outward r.scope k ↔
            p.graph.Outward (p.graph.innermost p.global r.identifier.span.start) k)) := by
  obtain ⟨hrooted, hresolved⟩ := Node.resolved_eq_lookup p.graph_eq
  obtain ⟨hid, -, -⟩ := Node.named_of_mem_references p.graph_eq hr
  have hglobal : p.graph.Covers p.global r.identifier.span.start :=
    covers_of_houses h hnested hnonempty (houses_global h hnested hroot hid)
  obtain ⟨hcovers, hinside⟩ := Graph.innermost_spec hrooted hglobal
  set i := p.graph.innermost p.global r.identifier.span.start with hi
  have haround : ∀ k, p.graph.Outward r.scope k → p.graph.Covers k r.identifier.span.start :=
    fun k hk => covers_of_outward h hnested (covers_of_houses h hnested hnonempty
      ((Node.housed_scopeGraph p.graph_eq).reference r hr)) hk
  have hiff : p.find r.identifier = .ok r.resolved ↔ ∀ k, p.graph.declares k r.name = true →
      (p.graph.Outward r.scope k ↔ p.graph.Outward i k) := by
    rw [find_eq_lookup (Convert.kind_build (build_of_analyze h) hroot) hr, ← hi, hresolved r hr,
      Except.ok.injEq, eq_comm]
    exact Graph.lookup_eq_lookup_iff hrooted
  refine ⟨haround, fun honly => ?_, ?_⟩
  · -- The innermost scope is around the reference, and were it further out than the scope of the
    -- reference, the next scope inward would cover the position.
    have hscope : i = r.scope := by
      have hmem := honly i hcovers
      rcases Relation.ReflTransGen.cases_tail hmem with heq | ⟨j, hj, hupper⟩
      · exact heq
      · exact absurd (haround j hj) (hinside j hupper)
    exact hiff.2 fun k _ => by rw [hscope]
  · rw [hiff]
    refine forall_congr' fun k => ⟨fun hk _ => hk, fun hk hd => ?_⟩
    by_cases hc : p.graph.Covers k r.identifier.span.start
    · exact hk hc hd
    · exact iff_of_false (fun ho => hc (haround k ho))
        fun ho => hc (covers_of_outward h hnested hcovers ho)

/-- The tree of `const k='a';({[k](k){}})`.  The key of the method is evaluated outside the scope of
the method, though the block of the scope begins with the key. -/
def computedKey : Concrete Unit :=
  let declarator : Concrete Unit := .node "variable_declarator" none 6 11
    [.identifier (some "name") 6 7, .node "string" (some "value") 8 11 []]
  let method : Concrete Unit := .node "method_definition" none 14 22
    [.node "computed_property_name" (some "name") 14 17 [.identifier none 15 16],
     .node "formal_parameters" (some "parameters") 17 20 [.identifier none 18 19],
     .node "statement_block" (some "body") 20 22 []]
  .node "program" none 0 24
    [.node "lexical_declaration" none 0 12
      [.token "const" (some "kind") 0 5, declarator],
     .node "expression_statement" none 12 24
      [.node "parenthesized_expression" none 12 24 [.node "object" none 13 23 [method]]]]

/-- The source of `computedKey`. -/
def computedKeySource : Source := ⟨"const k='a';(\x7b[k](k)\x7b\x7d\x7d)".toUTF8.toList⟩

/-- The key is resolved to the constant, but at its position the parameter of the method is
found. -/
theorem find_ne_resolved_computedKey : computedKey.symbol = "program" ∧ computedKey.NestedRanges ∧
    computedKey.NonemptyRanges ∧
    ∃ p, analyze computedKeySource {} computedKey = .ok p ∧ ∃ r ∈ p.graph.references,
      r.resolved = some ⟨1, "k"⟩ ∧ p.find r.identifier = .ok (some ⟨2, "k"⟩) := by
  have hall : (analyze computedKeySource {} computedKey).toOption.any fun p =>
      p.graph.references.any fun r => r.resolved = some ⟨1, "k"⟩ &&
        (p.find r.identifier).toOption.any (· == some ⟨2, "k"⟩) := by decide +kernel
  refine ⟨rfl, by decide +kernel, by decide +kernel, ?_⟩
  obtain ⟨p, hp, hall⟩ := exists_ok_of_any hall
  obtain ⟨r, hr, hboth⟩ := List.any_eq_true.1 hall
  obtain ⟨hresolved, hfind⟩ := Bool.and_eq_true_iff.1 hboth
  obtain ⟨v, hv, heq⟩ := exists_ok_of_any hfind
  exact ⟨p, hp, r, hr, of_decide_eq_true hresolved, by rw [hv, beq_iff_eq.1 heq]⟩

/-- Some scope that covers the position of the key and declares its name is around the innermost
scope there, but not around the reference. -/
theorem find_eq_resolved_iff_computedKey : computedKey.symbol = "program" ∧
    computedKey.NestedRanges ∧ computedKey.NonemptyRanges ∧
    ∃ p, analyze computedKeySource {} computedKey = .ok p ∧ ∃ r ∈ p.graph.references,
      ∃ k, p.graph.Covers k r.identifier.span.start ∧ p.graph.declares k r.name = true ∧
        ¬(p.graph.Outward r.scope k ↔
          p.graph.Outward (p.graph.innermost p.global r.identifier.span.start) k) := by
  have hnested : computedKey.NestedRanges := by decide +kernel
  have hnonempty : computedKey.NonemptyRanges := by decide +kernel
  have hall : (analyze computedKeySource {} computedKey).toOption.any fun p =>
      p.graph.references.any fun r => (p.find r.identifier).toOption.any (· != r.resolved) := by
    decide +kernel
  obtain ⟨p, hp, hall⟩ := exists_ok_of_any hall
  obtain ⟨r, hr, hfind⟩ := List.any_eq_true.1 hall
  obtain ⟨v, hv, hne⟩ := exists_ok_of_any hfind
  refine ⟨rfl, hnested, hnonempty, p, hp, r, hr, ?_⟩
  obtain ⟨-, -, hiff⟩ := find_eq_resolved_iff hp rfl hnested hnonempty hr
  have hdiffers : p.find r.identifier ≠ .ok r.resolved := by
    rw [hv]
    simpa using hne
  simpa only [not_forall, exists_prop] using (not_congr hiff).1 hdiffers

end Program

end RefFlow
