import RefFlow.Proofs.Fault.Follow
import RefFlow.Proofs.Scope.Placement

/-!
# Calls of names that are there without a declaration

The macros and the escape hint are not imported.  They are known by their names alone, so a call is
one of them if its callee bears the name and does not mean something else.  The search for these
calls goes through the occurrences of the names in the global scope and through what passes the
global scope without a declaration.  This module says which calls it finds.

* `Site.mem_ambientReferences_iff` describes the occurrences by what they mean: the global scope is
  around them, and nothing further in declares the name (`Exposed`).  In a program whose first scope
  is taken for the global one (`Program.Whole`) they have no variable, or one of the global scope
  (`Ambient`).
* `Site.nodup_ambientCalls` shows that no call is found twice, and `Site.exists_ambientCalls` that
  there is a result, if all that bears the name of a call is one (`Program.Known`).  This is so
  where the symbols of the concrete tree are those of a grammar.  `Site.macro_calls_found_once` puts
  these together.
* `Site.call_of_declared_iff` is about calls of names that the program itself declares.  These are
  taken for macros if they are declared in the global scope, which can be so in a script, but not in
  a module.
-/

namespace RefFlow

open Fallible

/-! ## Whole programs -/

namespace Program

variable {p : Program}

/-- The tree is that of a whole program, and the first scope is taken for the global one. -/
structure Whole (p : Program) : Prop where
  isProgram : p.root.kind = .program
  global : p.global = 0

lemma Whole.exists_scope (hp : p.Whole) :
    ∃ s, p.graph.scopes[0]? = some s ∧ p.globalScope = .ok s := by
  obtain ⟨s, hs, -⟩ := Node.global_program hp.isProgram p.graph_eq
  have hzero : p.graph.global = 0 := hp.global
  rw [hzero] at hs
  refine ⟨s, hs, ?_⟩
  rw [globalScope, Graph.scope, hp.global, hs]

lemma whole_of_analyze {source : Source} {options : Options} {tree : Concrete Unit}
    (h : analyze source options tree = .ok p) (hprogram : tree.symbol = "program")
    (hsole : tree.SoleProgram) : p.Whole := by
  have hbuild := build_of_analyze h
  have hkind := Convert.kind_build hbuild hprogram
  exact ⟨hkind, Node.global_eq_zero hkind (Convert.conforming_build hbuild) hsole p.graph_eq⟩

/-- The nodes that are asked for their parts on the way up have a rule, and so have these parts. -/
def Known (p : Program) : Prop :=
  ∀ q, p.Has q → q.kind ∈ Kind.unguarded → ¬q.shape.IsGeneric

lemma known_of_analyze {source : Source} {options : Options} {tree : Concrete Unit}
    (h : analyze source options tree = .ok p) (hgrammar : tree.Grammatical) : p.Known :=
  fun q hq => (Convert.conforming_build (build_of_analyze h) q hq).2.known hgrammar

end Program

namespace Site

variable {p : Program} {names : List String} {r : Reference} {rs : List Reference}

/-! ## Occurrences -/

/-- The global scope is around the reference, and what it means is not declared further in. -/
structure Exposed (p : Program) (r : Reference) : Prop where
  inside : p.graph.Outward r.scope p.global
  outside : ∀ v, r.resolved = some v → p.graph.Outward p.global v.scope

lemma globalScope_eq_ok_iff {s : Scope} :
    p.globalScope = .ok s ↔ p.graph.scopes[p.global]? = some s := by
  unfold Program.globalScope Graph.scope
  cases p.graph.scopes[p.global]? <;> simp

/-- The occurrences are those of the variables of the global scope, and of what no scope up to the
global one declares. -/
lemma ambientReferences_eq {s : Scope} (hs : p.globalScope = .ok s) (names : List String) :
    ambientReferences p names = .ok (names.flatMap (fun name => p.referencesTo ⟨p.global, name⟩) ++
      (p.graph.referencesOf s.through).filter (names.contains ·.name)) := by
  rw [ambientReferences, hs, ok_bind]
  simp only [Program.referencesTo, Graph.get?, globalScope_eq_ok_iff.1 hs]
  rfl

lemma mem_ambientReferences_iff (h : ambientReferences p names = .ok rs) :
    r ∈ rs ↔ r ∈ p.graph.references ∧ r.name ∈ names ∧ Exposed p r := by
  have hentered := Graph.entered_scopeGraph p.graph_eq
  have hrooted := (Node.resolved_eq_lookup p.graph_eq).1
  obtain ⟨s, hs, -⟩ := bind_ok_iff.1 h
  rw [ambientReferences_eq hs] at h
  have hthrough := hentered.through (globalScope_eq_ok_iff.1 hs)
  simp only [← Graph.outward_iff_mem_chain hrooted] at hthrough
  rw [← Except.ok.inj h, List.mem_append, List.mem_flatMap, List.mem_filter,
    hthrough.mem_referencesOf_iff]
  have houtward (hr : r ∈ p.graph.references) {v : VariableId} (hv : r.resolved = some v) :
      p.graph.Outward r.scope v.scope :=
    (Graph.outward_iff_mem_chain hrooted).2 (hentered.resolved r hr v hv).2.1
  constructor
  · rintro (⟨name, hname, hr⟩ | ⟨⟨hr, hinside, hfurther⟩, hname⟩)
    · obtain ⟨hr, hv⟩ := Program.mem_referencesTo_iff.1 hr
      refine ⟨hr, Program.name_of_resolved hr hv ▸ hname, houtward hr hv, fun w hw => ?_⟩
      obtain rfl := Option.some_inj.1 (hv.symm.trans hw)
      exact .refl
    · refine ⟨hr, by simpa using hname, hinside, fun v hv => ?_⟩
      -- Both scopes are around the reference, so one of them is around the other.
      exact ((houtward hr hv).total hinside).resolve_left (hfurther v hv)
  · rintro ⟨hr, hname, hinside, hfurther⟩
    by_cases hglobal : ∃ v, r.resolved = some v ∧ v.scope = p.global
    · obtain ⟨v, hv, hscope⟩ := hglobal
      have hvname := Program.name_of_resolved hr hv
      refine .inl ⟨r.name, hname, Program.mem_referencesTo_iff.2 ⟨hr, ?_⟩⟩
      rw [hv, ← hscope, ← hvname]
    · refine .inr ⟨⟨hr, hinside, fun v hv hback => hglobal ⟨v, hv, ?_⟩⟩, by simpa using hname⟩
      exact hback.antisymm hrooted (hfurther v hv)

/-- No occurrence is met twice. -/
lemma nodup_ambientReferences (hnames : names.Nodup) (h : ambientReferences p names = .ok rs) :
    (rs.map (·.identifier)).Nodup := by
  have hmem : ∀ r ∈ rs, r ∈ p.graph.references := fun r hr =>
    ((mem_ambientReferences_iff h).1 hr).1
  obtain ⟨s, hs, -⟩ := bind_ok_iff.1 h
  rw [ambientReferences_eq hs] at h
  have hthrough := (Graph.entered_scopeGraph p.graph_eq).through (globalScope_eq_ok_iff.1 hs)
  have hto (name : String) {r : Reference} (hr : r ∈ p.referencesTo ⟨p.global, name⟩) :
      r.resolved = some ⟨p.global, name⟩ := (Program.mem_referencesTo_iff.1 hr).2
  have hnodup : rs.Nodup := by
    rw [← Except.ok.inj h, List.nodup_append', List.nodup_flatMap]
    refine ⟨⟨fun name _ => (Program.nodup_referencesTo _).of_map, ?_⟩, ?_, ?_⟩
    · refine hnames.imp fun {name name'} hne r hr hr' => hne ?_
      exact congrArg VariableId.name (Option.some_inj.1 ((hto name hr).symm.trans (hto name' hr')))
    · exact (Program.nodup_referencesOf hthrough.ordered).of_map.filter _
    · intro r hr hr'
      obtain ⟨name, -, hr⟩ := List.mem_flatMap.1 hr
      obtain ⟨-, -, hfurther⟩ := hthrough.mem_referencesOf_iff.1 (List.mem_filter.1 hr').1
      exact hfurther _ (hto name hr) List.mem_cons_self
  refine (List.nodup_map_iff_inj_on hnodup).2 fun r hr r' hr' heq => ?_
  exact List.inj_on_of_nodup_map p.nodup_identifiers (hmem r hr) (hmem r' hr') heq

/-- The reference bears one of the names, and means no variable or one of the global scope. -/
structure Ambient (p : Program) (names : List String) (r : Reference) : Prop where
  mem : r ∈ p.graph.references
  name : r.name ∈ names
  outside : ∀ v, r.resolved = some v → v.scope = 0

/-- In a whole program, the global scope is around all references, and nothing is around it. -/
lemma exposed_iff (hp : p.Whole) (hr : r ∈ p.graph.references) :
    Exposed p r ↔ ∀ v, r.resolved = some v → v.scope = 0 := by
  have hrooted := (Node.resolved_eq_lookup p.graph_eq).1
  constructor
  · rintro ⟨-, houtside⟩ v hv
    have hle := (houtside v hv).le hrooted
    rw [hp.global] at hle
    exact Nat.le_zero.1 hle
  · intro houtside
    have hlt := (Graph.entered_scopeGraph p.graph_eq).scope_lt r hr
    have hchain := (Node.surrounded_scopeGraph hp.isProgram p.graph_eq).zero_mem_chain hrooted hlt
    refine ⟨?_, fun v hv => ?_⟩
    · rw [hp.global]
      exact (Graph.outward_iff_mem_chain hrooted).2 hchain
    · rw [hp.global, houtside v hv]
      exact .refl

lemma ambient_iff (hp : p.Whole) :
    Ambient p names r ↔ r ∈ p.graph.references ∧ r.name ∈ names ∧ Exposed p r := by
  constructor
  · rintro ⟨hr, hname, houtside⟩
    exact ⟨hr, hname, (exposed_iff hp hr).2 houtside⟩
  · rintro ⟨hr, hname, hexposed⟩
    exact ⟨hr, hname, (exposed_iff hp hr).1 hexposed⟩

/-! ## Calls -/

lemma exists_callOf (hp : p.Known) (hr : r ∈ p.graph.references) : ∃ o, callOf p r = .ok o := by
  unfold callOf
  split
  · exact ⟨none, rfl⟩
  · rename_i q hq
    obtain ⟨hhas, -⟩ := (Program.has_of_mem_references hr).1.parent hq
    split
    · rename_i hkind
      have hkind : q.kind = .callExpression := by simpa using hkind
      have hrule : ¬q.shape.IsGeneric := hp q hhas (by rw [hkind]; decide)
      obtain ⟨o, ho⟩ := hhas.exists_child hrule hkind (f := .callee) (by decide)
      rw [ho, ok_bind]
      split <;> exact ⟨_, rfl⟩
    · exact ⟨none, rfl⟩

variable {sites : List Site} {site : Site}

lemma exists_of_ambientCalls (h : ambientCalls p names = .ok sites) :
    ∃ rs os, ambientReferences p names = .ok rs ∧ rs.mapM (callOf p) = .ok os ∧
      os.filterMap id = sites := by
  obtain ⟨rs, hrs, h⟩ := bind_ok_iff.1 h
  obtain ⟨os, hos, h⟩ := bind_ok_iff.1 h
  exact ⟨rs, os, hrs, hos, pure_ok_iff.1 h⟩

lemma mem_ambientCalls_iff_exposed (h : ambientCalls p names = .ok sites) :
    site ∈ sites ↔ ∃ r ∈ p.graph.references, r.name ∈ names ∧ Exposed p r ∧
      callOf p r = .ok (some site) := by
  obtain ⟨rs, os, hrs, hos, rfl⟩ := exists_of_ambientCalls h
  simp [mem_mapM_iff hos, mem_ambientReferences_iff hrs, and_assoc]

/-- The calls of functions that are there without a declaration. -/
lemma mem_ambientCalls_iff (hp : p.Whole) (h : ambientCalls p names = .ok sites) :
    site ∈ sites ↔ ∃ r, Ambient p names r ∧ callOf p r = .ok (some site) := by
  simp [mem_ambientCalls_iff_exposed h, ambient_iff hp, and_assoc]

lemma gives_escapeCalls : Gives (escapeCalls p) fun calls =>
    ∀ call ∈ calls, p.Has call ∧ call.kind = .callExpression := by
  intro calls h call hcall
  obtain ⟨sites, hsites, h⟩ := bind_ok_iff.1 h
  rw [← pure_ok_iff.1 h] at hcall
  obtain ⟨site, hsite, rfl⟩ := List.mem_map.1 hcall
  obtain ⟨r, hr, -, -, hcallOf⟩ := (mem_ambientCalls_iff_exposed hsites).1 hsite
  obtain ⟨hhas, hkind, -, -⟩ := (callOf_eq_some_iff hr).1 hcallOf
  exact ⟨hhas, hkind⟩

/-- No call is found twice, since it has one callee. -/
lemma nodup_ambientCalls (hnames : names.Nodup) (h : ambientCalls p names = .ok sites) :
    (sites.map (·.node)).Nodup := by
  obtain ⟨rs, os, hrs, hos, rfl⟩ := exists_of_ambientCalls h
  have hnodup := nodup_ambientReferences hnames hrs
  have hmem : ∀ r ∈ rs, r ∈ p.graph.references := gives_ambientReferences names rs hrs
  clear h hrs hnames
  rw [mapM_ok_iff] at hos
  induction hos with
  | nil => exact List.nodup_nil
  | @cons r o rs os ho hos ih =>
    obtain ⟨hr, hmem⟩ := List.forall_mem_cons.1 hmem
    obtain ⟨hfresh, hnodup⟩ := List.nodup_cons.1 hnodup
    have hrest := ih hnodup hmem
    cases o with
    | none => exact hrest
    | some site =>
      refine List.nodup_cons.2 ⟨fun hagain => hfresh ?_, hrest⟩
      obtain ⟨site', hsite', hnode⟩ := List.mem_map.1 hagain
      obtain ⟨r', hr', hcall'⟩ := (mem_mapM_iff (mapM_ok_iff.2 hos)).1 (by simpa using hsite')
      obtain ⟨-, -, hcallee, -⟩ := (callOf_eq_some_iff hr).1 ho
      obtain ⟨-, -, hcallee', -⟩ := (callOf_eq_some_iff (hmem r' hr')).1 hcall'
      rw [hnode] at hcallee'
      have heq := Option.some_inj.1 (Except.ok.inj (hcallee.symm.trans hcallee'))
      exact List.mem_map.2 ⟨r', hr', heq.symm⟩

lemma exists_ambientCalls_iff_exposed {s : Scope} (hs : p.globalScope = .ok s) :
    (∃ sites, ambientCalls p names = .ok sites) ↔ ∀ r ∈ p.graph.references,
      r.name ∈ names → Exposed p r → ∃ o, callOf p r = .ok o := by
  obtain ⟨rs, hrs⟩ : ∃ rs, ambientReferences p names = .ok rs := ⟨_, ambientReferences_eq hs names⟩
  have hall : (∃ os, rs.mapM (callOf p) = .ok os) ↔ ∀ r ∈ rs, ∃ o, callOf p r = .ok o :=
    exists_mapM_iff
  simp only [mem_ambientReferences_iff hrs, and_imp] at hall
  rw [← hall]
  constructor
  · rintro ⟨sites, h⟩
    obtain ⟨rs', os, hrs', hos, -⟩ := exists_of_ambientCalls h
    obtain rfl : rs = rs' := Except.ok.inj (hrs.symm.trans hrs')
    exact ⟨os, hos⟩
  · rintro ⟨os, hos⟩
    rw [ambientCalls, hrs, ok_bind, hos]
    exact ⟨_, rfl⟩

lemma exists_ambientCalls_iff (hp : p.Whole) :
    (∃ sites, ambientCalls p names = .ok sites) ↔
      ∀ r, Ambient p names r → ∃ o, callOf p r = .ok o := by
  obtain ⟨s, -, hs⟩ := hp.exists_scope
  simp only [exists_ambientCalls_iff_exposed hs, ambient_iff hp, and_imp]

/-- The search has a result, since every call has a callee to be asked for. -/
lemma exists_ambientCalls (hp : p.Known) {s : Scope} (hs : p.globalScope = .ok s)
    (names : List String) : ∃ sites, ambientCalls p names = .ok sites :=
  (exists_ambientCalls_iff_exposed hs).2 fun _ hr _ _ => exists_callOf hp hr

/-- The call has an identifier with one of the names as its callee, and the reference on it means no
variable or one of the global scope. -/
structure Qualifies (p : Program) (names : List String) (site : Site) : Prop where
  has : p.Has site.node
  isCall : site.node.kind = .callExpression
  isNamed : site.method ∈ names
  callee : ∃ r ∈ p.graph.references, site.node.child .callee = .ok (some r.identifier) ∧
    r.identifier.kind = .identifier ∧ r.identifier.text? .name = .ok (some site.method) ∧
    ∀ v, r.resolved = some v → v.scope = p.global

lemma qualifies_iff (hp : p.Whole) : Qualifies p names site ↔
    ∃ r, Ambient p names r ∧ callOf p r = .ok (some site) := by
  constructor
  · rintro ⟨hhas, hcall, hnamed, r, hr, hcallee, -, hname, houtside⟩
    obtain ⟨-, -, hname'⟩ := Node.named_of_mem_references p.graph_eq hr
    have hmethod : site.method = r.name :=
      Option.some_inj.1 (Except.ok.inj (hname.symm.trans hname'))
    refine ⟨r, ⟨hr, hmethod ▸ hnamed, fun v hv => hp.global ▸ houtside v hv⟩, ?_⟩
    exact (callOf_eq_some_iff hr).2 ⟨hhas, hcall, hcallee, hmethod⟩
  · rintro ⟨r, ⟨hr, hname, houtside⟩, hcallOf⟩
    obtain ⟨-, hkind, hname'⟩ := Node.named_of_mem_references p.graph_eq hr
    obtain ⟨hhas, hcall, hcallee, hmethod⟩ := (callOf_eq_some_iff hr).1 hcallOf
    refine ⟨hhas, hcall, hmethod ▸ hname, r, hr, hcallee, hkind, hmethod ▸ hname', fun v hv => ?_⟩
    rw [hp.global, houtside v hv]

lemma mem_ambientCalls_iff_qualifies (hp : p.Whole) (h : ambientCalls p names = .ok sites) :
    site ∈ sites ↔ Qualifies p names site := by
  rw [mem_ambientCalls_iff hp h, qualifies_iff hp]

/-- **Every call of a macro or of the escape hint is found once, and nothing else is.**  Let the
root of the concrete tree be its only program, and its symbols those of a grammar.  The search for
the calls of macros finds the calls that qualify, each one once.  The same holds for the escape
hint.  The global scope is the first one. -/
theorem macro_calls_found_once {source : Source} {options : Options} {tree : Concrete Unit}
    (h : Program.analyze source options tree = .ok p) (hprogram : tree.symbol = "program")
    (hsole : tree.SoleProgram) (hgrammar : tree.Grammatical) :
    p.global = 0 ∧
    (∃ sites, ofMacros p = .ok sites ∧ (sites.map (·.node)).Nodup ∧
      ∀ site, site ∈ sites ↔ Qualifies p macros site) ∧
    ∃ calls, escapeCalls p = .ok calls ∧ calls.Nodup ∧
      ∀ call, call ∈ calls ↔ Qualifies p [escapeHint] ⟨call, escapeHint⟩ := by
  have hp := Program.whole_of_analyze h hprogram hsole
  have hknown := Program.known_of_analyze h hgrammar
  obtain ⟨s, -, hs⟩ := hp.exists_scope
  refine ⟨hp.global, ?_, ?_⟩
  · obtain ⟨sites, hsites⟩ := exists_ambientCalls hknown hs macros
    refine ⟨sites, hsites, nodup_ambientCalls (by decide) hsites, fun site => ?_⟩
    exact mem_ambientCalls_iff_qualifies hp hsites
  · obtain ⟨sites, hsites⟩ := exists_ambientCalls hknown hs [escapeHint]
    rw [escapeCalls, hsites, ok_bind]
    refine ⟨_, rfl, nodup_ambientCalls (by decide) hsites, fun call => ?_⟩
    rw [List.mem_map, ← mem_ambientCalls_iff_qualifies hp hsites]
    constructor
    · rintro ⟨site, hsite, rfl⟩
      have hmethod := ((mem_ambientCalls_iff_qualifies hp hsites).1 hsite).isNamed
      rwa [← List.mem_singleton.1 hmethod]
    · exact fun hsite => ⟨_, hsite, rfl⟩

end Site

/-- The tree of `$ref($(x));$=>$(y)`, in which one macro is called in the call of another one, and
then declared as a parameter. -/
def Concrete.nestedMacros : Concrete Unit :=
  let call (role : Option String) (start mid stop : Nat) (argument : Concrete Unit) :=
    node "call_expression" role start stop
      [identifier (some "function") start mid,
       node "arguments" (some "arguments") mid stop [argument]]
  node "program" none 0 18
    [node "expression_statement" none 0 11
      [call none 0 4 10 (call none 5 6 9 (identifier none 7 8))],
     node "expression_statement" none 11 18
      [node "arrow_function" none 11 18
        [identifier (some "parameter") 11 12,
         call (some "body") 14 15 18 (identifier none 16 17)]]]

/-- The source of `nestedMacros`. -/
def Source.nestedMacros : Source := ⟨"$ref($(x));$=>$(y)".toUTF8.toList⟩

/-- Both calls in the first statement are found, that of the declared global first.  The call of the
parameter is not. -/
theorem Site.macro_calls_found_once_nested : Concrete.nestedMacros.symbol = "program" ∧
    Concrete.nestedMacros.SoleProgram ∧ Concrete.nestedMacros.Grammatical ∧ ∃ p sites,
      Program.analyze .nestedMacros { sourceType := "script", globals := ["$"] }
        .nestedMacros = .ok p ∧
      ofMacros p = .ok sites ∧ sites.map (·.method) = ["$", "$ref"] ∧
      (sites.map (·.node)).Nodup ∧ ∀ site, site ∈ sites ↔ Qualifies p macros site := by
  have hall : (Program.analyze .nestedMacros { sourceType := "script", globals := ["$"] }
      .nestedMacros).toOption.any fun p =>
        (ofMacros p).toOption.any fun sites => sites.map (·.method) == ["$", "$ref"] := by
    decide +kernel
  have hsole : Concrete.nestedMacros.SoleProgram := by decide +kernel
  have hgrammar : Concrete.nestedMacros.Grammatical := by decide +kernel
  obtain ⟨p, hp, hall⟩ := exists_ok_of_any hall
  obtain ⟨sites, hsites, hmethods⟩ := exists_ok_of_any hall
  refine ⟨rfl, hsole, hgrammar, p, sites, hp, hsites, beq_iff_eq.1 hmethods, ?_⟩
  obtain ⟨-, ⟨sites', hsites', hfound⟩, -⟩ := macro_calls_found_once hp rfl hsole hgrammar
  rwa [Except.ok.inj (hsites.symm.trans hsites')]

/-! ## Names that the program declares -/

namespace Site

variable {p : Program} {names : List String} {r : Reference} {sites : List Site} {call : Node}
  {v : VariableId}

/-- The callee of the call means a variable that the program defines. -/
structure CallsDeclared (p : Program) (call : Node) (r : Reference) (v : VariableId) : Prop where
  has : p.Has call
  isCall : call.kind = .callExpression
  mem : r ∈ p.graph.references
  callee : call.child .callee = .ok (some r.identifier)
  resolved : r.resolved = some v
  defined : p.graph.definitionsOf v ≠ []

lemma CallsDeclared.mem_ambientCalls_iff (hd : CallsDeclared p call r v)
    (h : ambientCalls p names = .ok sites) :
    call ∈ sites.map (·.node) ↔ r.name ∈ names ∧ Exposed p r := by
  rw [List.mem_map]
  constructor
  · rintro ⟨site, hsite, rfl⟩
    obtain ⟨r', hr', hname, hexposed, hcallOf⟩ := (mem_ambientCalls_iff_exposed h).1 hsite
    obtain ⟨-, -, hcallee, -⟩ := (callOf_eq_some_iff hr').1 hcallOf
    have heq := Option.some_inj.1 (Except.ok.inj (hcallee.symm.trans hd.callee))
    obtain rfl := List.inj_on_of_nodup_map p.nodup_identifiers hr' hd.mem heq
    exact ⟨hname, hexposed⟩
  · rintro ⟨hname, hexposed⟩
    have hcallOf : callOf p r = .ok (some ⟨call, r.name⟩) :=
      (callOf_eq_some_iff hd.mem).2 ⟨hd.has, hd.isCall, hd.callee, rfl⟩
    exact ⟨_, (mem_ambientCalls_iff_exposed h).2 ⟨r, hd.mem, hname, hexposed, hcallOf⟩, rfl⟩

/-- In a whole program, only scripts define variables of the global scope. -/
lemma CallsDeclared.exposed_iff (hd : CallsDeclared p call r v) (hp : p.Whole) :
    Exposed p r ↔ v.scope = p.global ∧ p.options.sourceType ≠ "module" := by
  rw [Site.exposed_iff hp hd.mem, hp.global]
  constructor
  · intro houtside
    have hscope := houtside v hd.resolved
    refine ⟨hscope, fun hmodule => hd.defined ?_⟩
    have hgraph := p.graph_eq
    rw [hmodule] at hgraph
    have hnone := Node.definitionsOf_global hp.isProgram hgraph v.name
    rwa [← hscope] at hnone
  · rintro ⟨hscope, -⟩ w hw
    rwa [← Option.some_inj.1 (hd.resolved.symm.trans hw)]

/-- **When the call of a declared name is taken for one of a macro.**  Let the callee mean a
variable that the program defines.  The call is found exactly if it bears the name of a macro, the
global scope is around it, and the variable is not declared further in; and so for the escape hint.
If the root of the concrete tree is its only program, this is so exactly if the variable belongs to
the global scope and the program is not a module.  So in a module no such call is found. -/
theorem call_of_declared_iff {source : Source} {options : Options} {tree : Concrete Unit}
    (h : Program.analyze source options tree = .ok p) (hprogram : tree.symbol = "program")
    (hd : CallsDeclared p call r v) :
    (∀ sites, ofMacros p = .ok sites →
      (call ∈ sites.map (·.node) ↔ r.name ∈ macros ∧ Exposed p r)) ∧
    (∀ calls, escapeCalls p = .ok calls → (call ∈ calls ↔ r.name = escapeHint ∧ Exposed p r)) ∧
    (tree.SoleProgram → (Exposed p r ↔ v.scope = p.global ∧ options.sourceType ≠ "module")) := by
  refine ⟨fun sites hsites => hd.mem_ambientCalls_iff hsites, fun calls hcalls => ?_, ?_⟩
  · obtain ⟨sites, hsites, hcalls⟩ := bind_ok_iff.1 hcalls
    rw [← pure_ok_iff.1 hcalls, hd.mem_ambientCalls_iff hsites, List.mem_singleton]
  · intro hsole
    rw [hd.exposed_iff (Program.whole_of_analyze h hprogram hsole), Program.options_of_analyze h]

/-- Evaluates whether a macro is called whose name the program declares in the scope with the
number. -/
def callsDeclaredIn (p : Program) (i : Nat) : Bool :=
  p.graph.references.any fun r => macros.contains r.name &&
    r.resolved.any (fun v => v.scope == i && !(p.graph.definitionsOf v).isEmpty) &&
    (callOf p r).toOption.any Option.isSome

lemma exists_of_callsDeclaredIn {i : Nat} (h : callsDeclaredIn p i = true) :
    ∃ call r v, CallsDeclared p call r v ∧ r.name ∈ macros ∧ v.scope = i := by
  obtain ⟨r, hr, hall⟩ := List.any_eq_true.1 h
  simp only [Bool.and_eq_true, List.contains_iff_mem] at hall
  obtain ⟨⟨hname, hvariable⟩, hcall⟩ := hall
  obtain ⟨v, hv, hvariable⟩ := (Option.any_eq_true _ _).1 hvariable
  obtain ⟨hscope, hdefined⟩ := Bool.and_eq_true_iff.1 hvariable
  obtain ⟨o, ho, hsome⟩ := exists_ok_of_any hcall
  obtain ⟨site, rfl⟩ := Option.isSome_iff_exists.1 hsome
  obtain ⟨hhas, hkind, hcallee, -⟩ := (callOf_eq_some_iff hr).1 ho
  exact ⟨site.node, r, v, ⟨hhas, hkind, hr, hcallee, hv, by simpa using hdefined⟩, hname,
    beq_iff_eq.1 hscope⟩

end Site

/-- The tree of `function $ref(){}$ref(0)`, in which a function has the name of a macro. -/
def Concrete.declaredMacro : Concrete Unit :=
  node "program" none 0 24
    [node "function_declaration" none 0 17
      [identifier (some "name") 9 13,
       node "formal_parameters" (some "parameters") 13 15 [],
       node "statement_block" (some "body") 15 17 []],
     node "expression_statement" none 17 24
      [node "call_expression" none 17 24
        [identifier (some "function") 17 21,
         node "arguments" (some "arguments") 21 24 [node "number" none 22 23 []]]]]

/-- The source of `declaredMacro`. -/
def Source.declaredMacro : Source := ⟨"function $ref()\x7b\x7d$ref(0)".toUTF8.toList⟩

/-- In a module, the call of the function is not taken for one of the macro. -/
theorem Site.call_of_declared_module : Concrete.declaredMacro.symbol = "program" ∧
    Concrete.declaredMacro.SoleProgram ∧ ∃ p call r v sites,
      Program.analyze .declaredMacro {} .declaredMacro = .ok p ∧ CallsDeclared p call r v ∧
      r.name ∈ macros ∧ ofMacros p = .ok sites ∧ call ∉ sites.map (·.node) := by
  have hall : (Program.analyze .declaredMacro {} .declaredMacro).toOption.any fun p =>
      callsDeclaredIn p 1 && (ofMacros p).toOption.any fun _ => true := by
    decide +kernel
  have hsole : Concrete.declaredMacro.SoleProgram := by decide +kernel
  obtain ⟨p, hp, hall⟩ := exists_ok_of_any hall
  obtain ⟨hcalls, hsites⟩ := Bool.and_eq_true_iff.1 hall
  obtain ⟨call, r, v, hd, hname, -⟩ := exists_of_callsDeclaredIn hcalls
  obtain ⟨sites, hsites, -⟩ := exists_ok_of_any hsites
  refine ⟨rfl, hsole, p, call, r, v, sites, hp, hd, hname, hsites, fun hmem => ?_⟩
  obtain ⟨hmacros, -, hexposed⟩ := call_of_declared_iff hp rfl hd
  exact ((hexposed hsole).1 ((hmacros sites hsites).1 hmem).2).2 rfl

/-- In a script, it is taken for one. -/
theorem Site.call_of_declared_script : ∃ p call r v sites,
    Program.analyze .declaredMacro { sourceType := "script" } .declaredMacro = .ok p ∧
      CallsDeclared p call r v ∧ ofMacros p = .ok sites ∧ call ∈ sites.map (·.node) := by
  have hall : (Program.analyze .declaredMacro { sourceType := "script" }
      .declaredMacro).toOption.any fun p =>
      callsDeclaredIn p 0 && (ofMacros p).toOption.any fun _ => true := by
    decide +kernel
  have hsole : Concrete.declaredMacro.SoleProgram := by decide +kernel
  obtain ⟨p, hp, hall⟩ := exists_ok_of_any hall
  obtain ⟨hcalls, hsites⟩ := Bool.and_eq_true_iff.1 hall
  obtain ⟨call, r, v, hd, hname, hscope⟩ := exists_of_callsDeclaredIn hcalls
  obtain ⟨sites, hsites, -⟩ := exists_ok_of_any hsites
  have hwhole := Program.whole_of_analyze hp rfl hsole
  refine ⟨p, call, r, v, sites, hp, hd, hsites, (hd.mem_ambientCalls_iff hsites).2 ⟨hname, ?_⟩⟩
  refine (exposed_iff hwhole hd.mem).2 fun w hw => ?_
  rwa [← Option.some_inj.1 (hd.resolved.symm.trans hw)]

end RefFlow
