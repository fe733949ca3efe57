import RefFlow.Proofs.Reactive.Records
import RefFlow.Proofs.Scope.Globals

/-!
# Reactive variables and the names that are known to be there

Macros are functions that are there without a declaration.  A user may list them, and any other
names, among the names that are known to be there, or leave it.  This module compares two analyses
of a program that differ in these names, and shows that the same references to reactive variables
are found (`Reactive.extract_globals`).

The graphs of both analyses are alike.  A reference that has a variable with a definition, or one of
a scope other than the global one, has the same variable in both.  Only variables without
definitions differ, and these play no part: a macro is called through a reference that has no
variable or one of the global scope, whichever it is, and a reference counts as an occurrence of a
reactive variable only if that variable has a definition.
-/

namespace RefFlow

open Fallible

/-- Whether a node is handed to one of the calls depends on which calls there are, and not on their
order. -/
lemma Escape.handed_congr {calls calls' : List Node} (h : ∀ c, c ∈ calls ↔ c ∈ calls') (n : Node)
    (above : List Node) : handed calls n above = handed calls' n above := by
  have hany (i : Nat) : calls.any (·.id == i) = calls'.any (·.id == i) := by
    rw [Bool.eq_iff_iff, List.any_eq_true, List.any_eq_true]
    simp only [h]
  induction above generalizing n with
  | nil => rfl
  | cons parent rest ih => simp only [handed, hany, ih]

/-! ## Two analyses of a program -/

namespace Program

/-- The programs have the same tree, and graphs that are alike. -/
structure Twin (p q : Program) : Prop where
  whole : p.Whole
  whole' : q.Whole
  root : p.root = q.root
  alike : p.graph.Alike q.graph

namespace Twin

variable {p q : Program} (h : p.Twin q) {r : Reference} {v : VariableId} {n : Node}

include h

lemma symm : q.Twin p := ⟨h.whole', h.whole, h.root.symm, h.alike.symm⟩

lemma above (n : Node) : p.above n = q.above n := by
  unfold Program.above place?
  rw [p.places_eq, q.places_eq, h.root]

lemma parent? (n : Node) : p.parent? n = q.parent? n := by
  unfold Program.parent?
  rw [h.above]

/-- Every reference has a counterpart in the other graph, which means the same if the former means a
variable of a scope other than the first. -/
lemma exists_reference (hr : r ∈ p.graph.references) :
    ∃ r' ∈ q.graph.references, r'.toOccurrence = r.toOccurrence ∧ r'.scope = r.scope ∧
      ∀ v, r'.resolved = some v → v.scope ≠ 0 → r.resolved = some v := by
  obtain ⟨-, hlookup⟩ := Node.resolved_eq_lookup p.graph_eq
  obtain ⟨hrooted', hlookup'⟩ := Node.resolved_eq_lookup q.graph_eq
  obtain ⟨r', hr', ho, hscope⟩ := h.alike.exists_reference hr
  refine ⟨r', hr', ho, hscope, fun v hv hne => ?_⟩
  have hname : r'.name = r.name := congrArg Occurrence.name ho
  rw [hlookup' r' hr', hscope, hname] at hv
  rw [hlookup r hr]
  exact h.alike.symm.lookup hrooted' hv fun hzero => absurd hzero hne

/-- What a node means is the same, if it means a variable that has definitions. -/
lemma find_of_defined (hv : p.find n = .ok (some v)) {x : Variable} (hx : p.graph.get? v = some x)
    (hne : x.definitions ≠ []) : q.find n = .ok (some v) := by
  have hrooted := (Node.resolved_eq_lookup p.graph_eq).1
  obtain ⟨name, hname, hlookup⟩ := h.whole.find_eq_some_iff.1 hv
  refine h.whole'.find_eq_some_iff.2 ⟨name, hname, ?_⟩
  rw [← Graph.innermost_of_emptied_eq h.alike.emptied]
  exact h.alike.lookup_of_defined hrooted hlookup hx hne

lemma resolved_of_defined {r' : Reference} (hr : r ∈ p.graph.references)
    (hr' : r' ∈ q.graph.references) (hname : r'.name = r.name) (hscope : r'.scope = r.scope)
    (hv : r.resolved = some v) {x : Variable} (hx : p.graph.get? v = some x)
    (hne : x.definitions ≠ []) : r'.resolved = some v := by
  obtain ⟨hrooted, hlookup⟩ := Node.resolved_eq_lookup p.graph_eq
  obtain ⟨-, hlookup'⟩ := Node.resolved_eq_lookup q.graph_eq
  rw [hlookup r hr] at hv
  rw [hlookup' r' hr', hscope, hname]
  exact h.alike.lookup_of_defined hrooted hv hx hne

end Twin

/-- The analyses of a tree with different names that are known to be there. -/
lemma twin_of_analyze {source : Source} {options : Options} {globals : List String}
    {tree : Concrete Unit} {p q : Program} (hp : analyze source options tree = .ok p)
    (hq : analyze source { options with globals := globals } tree = .ok q)
    (hprogram : tree.symbol = "program") (hsole : tree.SoleProgram) : p.Twin q := by
  have hbuild := build_of_analyze hp
  have hbuild' := build_of_analyze hq
  have hroot : p.root = q.root := Except.ok.inj (hbuild.symm.trans hbuild')
  have hwhole := whole_of_analyze hp hprogram hsole
  have hgraph := p.graph_eq
  have hgraph' := q.graph_eq
  rw [options_of_analyze hp] at hgraph
  rw [options_of_analyze hq, ← hroot] at hgraph'
  refine ⟨hwhole, whole_of_analyze hq hprogram hsole, hroot, ?_⟩
  exact Node.alike_scopeGraph hwhole.isProgram (Convert.conforming_build hbuild) hsole hgraph
    hgraph'

end Program

/-! ## Macros -/

namespace Site

variable {p q : Program} (h : p.Twin q) {names : List String} {sites : List Site}

include h

lemma callOf_eq {r r' : Reference} (ho : r'.toOccurrence = r.toOccurrence) :
    callOf q r' = callOf p r := by
  have hid : r'.identifier = r.identifier := congrArg Occurrence.identifier ho
  have hname : r'.name = r.name := congrArg Occurrence.name ho
  unfold callOf
  rw [hid, hname, h.parent?]

/-- The counterpart of a reference to a name that is there without a declaration is another one. -/
lemma Ambient.exists_twin {r : Reference} (hr : Ambient p names r) :
    ∃ r', Ambient q names r' ∧ callOf q r' = callOf p r := by
  obtain ⟨r', hr', ho, -, hinner⟩ := h.exists_reference hr.mem
  have hname : r'.name = r.name := congrArg Occurrence.name ho
  refine ⟨r', ⟨hr', hname ▸ hr.name, fun v hv => ?_⟩, callOf_eq h ho⟩
  by_contra hne
  exact hne (hr.outside v (hinner v hv hne))

/-- Both programs have the same calls of functions that are there without a declaration. -/
lemma exists_ambientCalls_twin (hsites : ambientCalls p names = .ok sites) :
    ∃ sites', ambientCalls q names = .ok sites' ∧ ∀ site, site ∈ sites ↔ site ∈ sites' := by
  obtain ⟨sites', hsites'⟩ : ∃ sites', ambientCalls q names = .ok sites' := by
    refine (exists_ambientCalls_iff h.whole').2 fun r' hr' => ?_
    obtain ⟨r, hr, hcall⟩ := hr'.exists_twin h.symm
    rw [← hcall]
    exact (exists_ambientCalls_iff h.whole).1 ⟨sites, hsites⟩ r hr
  refine ⟨sites', hsites', fun site => ?_⟩
  rw [mem_ambientCalls_iff h.whole hsites, mem_ambientCalls_iff h.whole' hsites']
  constructor
  · rintro ⟨r, hr, hcall⟩
    obtain ⟨r', hr', hcall'⟩ := hr.exists_twin h
    exact ⟨r', hr', hcall'.trans hcall⟩
  · rintro ⟨r', hr', hcall⟩
    obtain ⟨r, hr, hcall'⟩ := hr'.exists_twin h.symm
    exact ⟨r, hr, hcall'.trans hcall⟩

end Site

/-! ## Reactive variables -/

namespace Reactive

variable {p q : Program} (h : p.Twin q) {b x : Node} {calls calls' : List Node}

include h

lemma declared_eq (site : Site) : declared p site = declared q site := by
  unfold declared
  rw [h.parent?]

lemma Makes.twin (hb : Makes p b) : Makes q b := by
  obtain ⟨sites, hsites, site, hsite, ns, hns, hmem⟩ := hb
  obtain ⟨sites', hsites', hsame⟩ := Site.exists_ambientCalls_twin h hsites
  exact ⟨sites', hsites', site, (hsame site).1 hsite, ns, declared_eq h site ▸ hns, hmem⟩

/-- An identifier leads to the same nodes: the occurrences that count are those of a variable with a
definition. -/
lemma Reaches.twin (hx : Reaches p b x) : Reaches q b x := by
  obtain ⟨v, r, hv, hr, hresolved, ⟨d, hd, hne⟩, rfl⟩ := reaches_iff.1 hx
  obtain ⟨w, y, hw, hy, hdefs, hkind⟩ := Program.soleDefinition?_eq_some_iff.1 hd
  obtain rfl : v = w := Option.some_inj.1 (hresolved.symm.trans hw)
  have hdefined : y.definitions ≠ [] := by
    rw [hdefs]
    exact List.cons_ne_nil d []
  obtain ⟨r', hr', ho, hscope, -⟩ := h.exists_reference hr
  have hid : r'.identifier = r.identifier := congrArg Occurrence.identifier ho
  have hname : r'.name = r.name := congrArg Occurrence.name ho
  have hresolved' := h.resolved_of_defined hr hr' hname hscope hresolved hy hdefined
  obtain ⟨z, hz, hsame⟩ := h.alike.exists_get? hy hdefined
  refine reaches_iff.2 ⟨v, r', h.find_of_defined hv hy hdefined, hr', hresolved', ⟨d, ?_, ?_⟩, hid⟩
  · exact Program.soleDefinition?_eq_some_iff.2 ⟨v, z, hresolved', hz, hsame.trans hdefs, hkind⟩
  · rwa [hid]

lemma handed_eq (hcalls : ∀ c, c ∈ calls ↔ c ∈ calls') (x : Node) :
    Escape.handed calls x (p.above x) = Escape.handed calls' x (q.above x) := by
  rw [h.above, Escape.handed_congr hcalls]

lemma Settles.twin (hcalls : ∀ c, c ∈ calls ↔ c ∈ calls') (hb : Settles p calls b) :
    Settles q calls' b := by
  refine ⟨?_, fun x hx => ?_⟩
  · have hfind := h.whole.exists_find_iff.1 (Program.exists_occurrences_iff.1 hb.occurrences)
    exact Program.exists_occurrences_iff.2 (h.whole'.exists_find_iff.2 hfind)
  · rw [← handed_eq h hcalls]
    exact hb.handed x (hx.twin h.symm)

/-- The calls of the escape hint are the same. -/
lemma exists_escapeCalls_twin (hcalls : Site.escapeCalls p = .ok calls) :
    ∃ calls', Site.escapeCalls q = .ok calls' ∧ ∀ c, c ∈ calls ↔ c ∈ calls' := by
  obtain ⟨sites, hsites, hcalls⟩ := bind_ok_iff.1 hcalls
  obtain rfl := pure_ok_iff.1 hcalls
  obtain ⟨sites', hsites', hsame⟩ := Site.exists_ambientCalls_twin h hsites
  refine ⟨sites'.map (·.node), ?_, fun c => ?_⟩
  · rw [Site.escapeCalls, hsites', ok_bind]
    rfl
  · simp only [List.mem_map, hsame]

/-- What is recorded in one program is recorded in the other. -/
lemma exists_extract_twin {f : Findings} (hf : extract p = .ok f) :
    ∃ f', extract q = .ok f' ∧ ∀ n r, f.get? n = some r →
      ∃ r', f'.get? n = some r' ∧ (r'.node, r'.escape) = (r.node, r.escape) := by
  obtain ⟨calls, sites, hcalls, hsites, hall⟩ := exists_extract_iff.1 ⟨f, hf⟩
  obtain ⟨calls', hcalls', hsame⟩ := exists_escapeCalls_twin h hcalls
  obtain ⟨sites', hsites', hsameSites⟩ := Site.exists_ambientCalls_twin h hsites
  obtain ⟨f', hf'⟩ : ∃ f', extract q = .ok f' := by
    refine exists_extract_iff.2 ⟨calls', sites', hcalls', hsites', fun site hsite => ?_⟩
    obtain ⟨ns, hns, hsettles⟩ := hall site ((hsameSites site).2 hsite)
    exact ⟨ns, declared_eq h site ▸ hns, fun b hb => (hsettles b hb).twin h hsame⟩
  refine ⟨f', hf', fun n r hr => ?_⟩
  obtain ⟨hid, ⟨b, hmakes, hreaches⟩, hhanded⟩ := (gives_extract hcalls hf).1 n r hr
  obtain ⟨hrecords', hrecorded'⟩ := gives_extract hcalls' hf'
  obtain ⟨r', hr', hnode⟩ := hrecorded' b r.node (hmakes.twin h) (hreaches.twin h)
  rw [hid] at hr'
  obtain ⟨-, -, hhanded'⟩ := hrecords' n r' hr'
  rw [hnode, ← handed_eq h hsame, hhanded] at hhanded'
  exact ⟨r', hr', by rw [hnode, Except.ok.inj hhanded']⟩

end Reactive

/-- **The names that are known to be there do not change which references are reactive.**  Let the
root of the concrete tree be its only program, and let the program be analysed with two lists of
names that are known to be there.  Then both extractions fail, or both have records of the same
nodes, and these agree on what is escaped. -/
theorem Reactive.extract_globals {source : Source} {options : Options} {globals : List String}
    {tree : Concrete Unit} {p q : Program} (hp : Program.analyze source options tree = .ok p)
    (hq : Program.analyze source { options with globals := globals } tree = .ok q)
    (hprogram : tree.symbol = "program") (hsole : tree.SoleProgram) :
    (∃ e e', extract p = .error e ∧ extract q = .error e') ∨
      ∃ f f', extract p = .ok f ∧ extract q = .ok f' ∧ ∀ n,
        (f.get? n).map (fun r => (r.node, r.escape)) =
          (f'.get? n).map fun r => (r.node, r.escape) := by
  have htwin := Program.twin_of_analyze hp hq hprogram hsole
  cases hf : extract p with
  | error e =>
    cases hf' : extract q with
    | error e' => exact .inl ⟨e, e', rfl, rfl⟩
    | ok f' =>
      obtain ⟨f, hf₁, -⟩ := exists_extract_twin htwin.symm hf'
      cases hf.symm.trans hf₁
  | ok f =>
    obtain ⟨f', hf', hsame⟩ := exists_extract_twin htwin hf
    obtain ⟨f₁, hf₁, hsame'⟩ := exists_extract_twin htwin.symm hf'
    obtain rfl : f = f₁ := Except.ok.inj (hf.symm.trans hf₁)
    refine .inr ⟨f, f', rfl, hf', fun n => Option.ext fun y => ?_⟩
    rw [Option.map_eq_some_iff, Option.map_eq_some_iff]
    constructor
    · rintro ⟨r, hr, rfl⟩
      exact hsame n r hr
    · rintro ⟨r', hr', rfl⟩
      exact hsame' n r' hr'

/-- The tree of `let a=$ref(0);$$(a);a`, a script in which a reactive variable occurs twice. -/
def Concrete.escapedUse : Concrete Unit :=
  let macroCall := node "call_expression" (some "value") 6 13
    [identifier (some "function") 6 10,
     node "arguments" (some "arguments") 10 13 [node "number" none 11 12 []]]
  let hint := node "call_expression" none 14 19
    [identifier (some "function") 14 16,
     node "arguments" (some "arguments") 16 19 [identifier none 17 18]]
  node "program" none 0 21
    [node "lexical_declaration" none 0 14
      [token "let" (some "kind") 0 3,
       node "variable_declarator" none 4 13 [identifier (some "name") 4 5, macroCall]],
     node "expression_statement" none 14 20 [hint],
     node "expression_statement" none 20 21 [identifier none 20 21]]

/-- The source of `escapedUse`. -/
def Source.escapedUse : Source := ⟨"let a=$ref(0);$$(a);a".toUTF8.toList⟩

/-- The first use is escaped and the second is not, also if the macros and the variable itself are
among the names that are known to be there. -/
theorem Reactive.extract_globals_escapedUse :
    Concrete.escapedUse.symbol = "program" ∧ Concrete.escapedUse.SoleProgram ∧ ∃ p q f f',
      Program.analyze .escapedUse { sourceType := "script" } .escapedUse = .ok p ∧
      Program.analyze .escapedUse
        { sourceType := "script", globals := ["$$", "$ref", "a"] } .escapedUse = .ok q ∧
      p.graph.declares 0 "$ref" = false ∧ q.graph.declares 0 "$ref" = true ∧
      extract p = .ok f ∧ f.records.map (·.2.escape) = [true, false] ∧ extract q = .ok f' ∧
      ∀ n, (f.get? n).map (fun r => (r.node, r.escape)) =
        (f'.get? n).map fun r => (r.node, r.escape) := by
  have hleft : (Program.analyze .escapedUse { sourceType := "script" } .escapedUse).toOption.any
      fun p => !p.graph.declares 0 "$ref" &&
        (extract p).toOption.any fun f => f.records.map (·.2.escape) == [true, false] := by
    decide +kernel
  have hright : (Program.analyze .escapedUse
      { sourceType := "script", globals := ["$$", "$ref", "a"] } .escapedUse).toOption.any
        fun q => q.graph.declares 0 "$ref" := by decide +kernel
  have hsole : Concrete.escapedUse.SoleProgram := by decide +kernel
  obtain ⟨p, hp, hleft⟩ := exists_ok_of_any hleft
  obtain ⟨q, hq, hdeclares⟩ := exists_ok_of_any hright
  obtain ⟨hnot, hf⟩ := Bool.and_eq_true_iff.1 hleft
  obtain ⟨f, hf, hescapes⟩ := exists_ok_of_any hf
  refine ⟨rfl, hsole, p, q, f, ?_⟩
  rcases extract_globals hp hq rfl hsole with ⟨e, e', he, -⟩ | ⟨f₁, f', hf₁, hf', hsame⟩
  · cases hf.symm.trans he
  · obtain rfl : f = f₁ := Except.ok.inj (hf.symm.trans hf₁)
    exact ⟨f', hp, hq, by simpa using hnot, hdeclares, hf, beq_iff_eq.1 hescapes, hf', hsame⟩

end RefFlow
