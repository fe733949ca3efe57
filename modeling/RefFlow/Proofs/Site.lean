import Mathlib.Data.List.Induction
import RefFlow.Proofs.Table
import RefFlow.Proofs.Trace.Outcomes
import RefFlow.Proofs.Trace.Paths

/-!
# Calls of factories

The calls of factories are looked for in imports, in global objects of the library, or in both.  One
call may be reached in several ways, under several names, and is reported once, under the name that
comes first.

* `ofFactories_composed`: what is found in both modes is what is found in imports, followed by what
  is found in global objects without the calls that were found before.
* `ofFactories_libraryModules`: what is found in global objects does not depend on the modules of
  the library, as long as there are any.  The objects are described by the first of the modules, so
  that without modules nothing is found.
-/

namespace RefFlow

open Fallible Search

/-! ## Maps that give the same to all names -/

namespace TraceMap

variable {names : List String} {u : TraceMap}

lemma constant_concat (names : List String) (name : String) (u : TraceMap) :
    constant (names ++ [name]) u = (constant names u).insert name u := by
  simp [constant]

lemma get?_constant (names : List String) (u : TraceMap) (name : String) :
    (constant names u).get? name = if name ∈ names then some u else none := by
  induction names using List.reverseRecOn with
  | nil => rfl
  | append_singleton names last ih =>
    rw [constant_concat]
    refine (Table.get?_set _ last name u).trans ?_
    by_cases h : last = name
    · simp [h]
    · have hget : Table.get? (constant names u).members name = _ := ih
      simp [h, Ne.symm h, hget]

lemma eq_of_mem_constant {e : String × TraceMap} (h : e ∈ (constant names u).members) :
    e.2 = u := by
  induction names using List.reverseRecOn with
  | nil => cases h
  | append_singleton names last ih =>
    rw [constant_concat] at h
    rcases Table.eq_or_mem_of_mem_set h with h | h
    · exact h
    · exact ih h

lemma members_constant_eq_nil_iff : (constant names u).members = [] ↔ names = [] := by
  induction names using List.reverseRecOn with
  | nil => exact iff_of_true rfl rfl
  | append_singleton names last ih =>
    rw [constant_concat]
    exact iff_of_false (Table.set_ne_nil last u _) (List.append_ne_nil_of_right_ne_nil _ (by simp))

end TraceMap

namespace Site

open Trace

variable {p : Program} {o : Options}

/-! ## What the maps ask for -/

/-- Global objects are described as modules are, if there are any modules. -/
lemma globalMap_eq (o : Options) :
    globalMap o =
      .constant o.globalObjects (if o.libraryModules = [] then .empty else factoryMap) := by
  dsimp only [globalMap]
  split
  · rename_i name object rest hmembers
    have hmodules : o.libraryModules ≠ [] := fun hnil => by
      rw [moduleMap, TraceMap.members_constant_eq_nil_iff.2 hnil] at hmembers
      cases hmembers
    have hobject : object = factoryMap :=
      TraceMap.eq_of_mem_constant (hmembers ▸ List.mem_cons_self)
    rw [if_neg hmodules, hobject]
  · rename_i hmembers
    rw [if_pos (TraceMap.members_constant_eq_nil_iff.1 hmembers)]

/-- The map of the library asks for calls of factories only. -/
lemma factory_of_mark {path : List String} {sub : TraceMap} {use : Use} {info : Info}
    (hsub : factoryMap.descend path = some sub) (hmark : sub.mark use = some info) :
    ∃ m ∈ factories, path = [m] := by
  cases path with
  | nil =>
    obtain rfl := Option.some.inj hsub
    cases use <;> cases hmark
  | cons m rest =>
    have hget := TraceMap.get?_constant factories
      (TraceMap.empty.withMarks fun m => { m with call := some .flag }) m
    change factoryMap.get? m = _ at hget
    rw [TraceMap.descend, hget] at hsub
    by_cases hm : m ∈ factories
    · rw [if_pos hm] at hsub
      cases rest with
      | nil => exact ⟨m, hm, rfl⟩
      | cons key rest => cases hsub
    · rw [if_neg hm] at hsub
      cases hsub

/-- The map without members asks for nothing. -/
lemma not_mark_of_descend_empty {path : List String} {sub : TraceMap} {use : Use} {info : Info}
    (hsub : TraceMap.empty.descend path = some sub) : sub.mark use ≠ some info := by
  intro hmark
  cases path with
  | nil =>
    obtain rfl := Option.some.inj hsub
    cases use <;> cases hmark
  | cons name rest => cases hsub

/-- What is reported for an import of the library has the name of a factory. -/
lemma factory_of_mem_imports {t : Tracked} (h : t ∈ (imports p (moduleMap o)).toList) :
    ∃ name, ∃ m ∈ factories, t.path = [name, m] := by
  obtain ⟨sub, hsub, hmark⟩ := marked_of_mem_imports h
  cases hpath : t.path with
  | nil =>
    rw [hpath] at hsub
    cases hsub
  | cons name rest =>
    rw [hpath, TraceMap.importedAt, moduleMap, TraceMap.get?_constant] at hsub
    by_cases hname : name ∈ o.libraryModules
    · rw [if_pos hname] at hsub
      obtain ⟨m, hm, rfl⟩ := factory_of_mark hsub hmark
      exact ⟨name, m, hm, rfl⟩
    · rw [if_neg hname] at hsub
      cases hsub

/-- What is reported for a global object of the library has the name of a factory, and there are
modules of the library. -/
lemma factory_of_mem_globals {t : Tracked} (h : t ∈ (globals p (globalMap o)).toList) :
    o.libraryModules ≠ [] ∧ ∃ name, ∃ m ∈ factories, t.path = [name, m] := by
  obtain ⟨sub, ⟨name, next, rest, hmember, hpath, hrest⟩, hmark⟩ := marked_of_mem_globals h
  rw [globalMap_eq] at hmember
  obtain rfl : next = _ := TraceMap.eq_of_mem_constant hmember
  split at hrest
  · exact absurd hmark (not_mark_of_descend_empty hrest)
  · rename_i hmodules
    obtain ⟨m, hm, rfl⟩ := factory_of_mark hrest hmark
    exact ⟨hmodules, name, m, hm, hpath⟩

lemma method_of_ofTracked? {t : Tracked} {s : Site} (h : ofTracked? t = some s) :
    t.path.getLast? = some s.method := by
  unfold ofTracked? at h
  split at h
  · obtain ⟨m, hm, rfl⟩ := Option.map_eq_some_iff.1 h
    exact hm
  · cases h

/-- A call that is found is one that is reported for an import or for a global object. -/
lemma exists_of_mem_ofFactories {s : Site} (h : s ∈ (ofFactories p o).toList) :
    ∃ t, ofTracked? t = some s ∧
      (o.tracesImports = true ∧ t ∈ (imports p (moduleMap o)).toList ∨
        o.tracesGlobals = true ∧ t ∈ (globals p (globalMap o)).toList) := by
  obtain ⟨-, -, h⟩ := exists_of_mem_liftM_bind h
  obtain ⟨t, ht, hs⟩ := mem_toList_filterMap (mem_of_mem_distinct h)
  refine ⟨t, hs, ?_⟩
  rcases mem_toList_append ht with ht | ht
  · split at ht
    · exact .inl ⟨‹_›, ht⟩
    · cases ht
  · split at ht
    · exact .inr ⟨‹_›, ht⟩
    · cases ht

lemma method_mem_factories {s : Site} (h : s ∈ (ofFactories p o).toList) :
    s.method ∈ factories := by
  obtain ⟨t, hs, ht⟩ := exists_of_mem_ofFactories h
  obtain ⟨name, m, hm, hpath⟩ : ∃ name, ∃ m ∈ factories, t.path = [name, m] := by
    rcases ht with ⟨-, ht⟩ | ⟨-, ht⟩
    · exact factory_of_mem_imports ht
    · exact (factory_of_mem_globals ht).2
  have hmethod := method_of_ofTracked? hs
  rw [hpath] at hmethod
  obtain rfl : m = s.method := Option.some.inj hmethod
  exact hm

/-! ## Each call once -/

/-- The node of the site is none of those given. -/
def isNew (seen : List Nat) (s : Site) : Bool := s.node.id ∉ seen

/-- What is found first and what is found later have different calls. -/
lemma nodup_distinct (seen : List Nat) (s : Search Site) :
    ((distinct seen s).toList.map (·.node.id)).Nodup ∧
      ∀ t ∈ (distinct seen s).toList, t.node.id ∉ seen := by
  induction s generalizing seen with
  | done | broken => exact ⟨List.nodup_nil, all_done⟩
  | found a rest ih =>
    rw [distinct]
    split
    · exact ih seen
    · rename_i hseen
      obtain ⟨hnodup, hfresh⟩ := ih (a.node.id :: seen)
      have ha : a.node.id ∉ seen := by simpa using hseen
      refine ⟨List.nodup_cons.2 ⟨fun hmem => ?_, hnodup⟩, fun t ht => ?_⟩
      · obtain ⟨t, ht, hid⟩ := List.mem_map.1 hmem
        exact hfresh t ht (hid ▸ List.mem_cons_self)
      · rcases List.mem_cons.1 ht with rfl | ht
        · exact ha
        · exact fun hmem => hfresh t ht (List.mem_cons_of_mem _ hmem)

/-- Only which calls came before matters, not their order. -/
lemma distinct_congr {seen seen' : List Nat} (h : ∀ i, i ∈ seen ↔ i ∈ seen') (s : Search Site) :
    distinct seen s = distinct seen' s := by
  induction s generalizing seen seen' with
  | done | broken => rfl
  | found a rest ih =>
    have hcontains : seen.contains a.node.id = seen'.contains a.node.id := by
      rw [Bool.eq_iff_iff, List.contains_iff_mem, List.contains_iff_mem, h]
    have hcons : ∀ i, i ∈ a.node.id :: seen ↔ i ∈ a.node.id :: seen' := fun i => by
      rw [List.mem_cons, List.mem_cons, h]
    rw [distinct, distinct, hcontains, ih h, ih hcons]

/-- The calls of a second search are looked at after those of the first one. -/
lemma distinct_append (seen : List Nat) (s t : Search Site) :
    distinct seen (s ++ t) =
      distinct seen s ++ distinct ((distinct seen s).toList.map (·.node.id) ++ seen) t := by
  induction s generalizing seen with
  | done | broken => rfl
  | found a rest ih =>
    rw [found_append, distinct, distinct]
    split
    · exact ih seen
    · rw [ih, found_append, toList, List.map_cons]
      congr 2
      refine distinct_congr (fun i => ?_) t
      simp only [List.mem_append, List.mem_cons]
      tauto

/-- Calls that came before may be left out at the end. -/
lemma distinct_append_seen (seen before : List Nat) (s : Search Site) :
    distinct (seen ++ before) s = (distinct seen s).filterMap (Option.guard (isNew before)) := by
  induction s generalizing seen with
  | done | broken => rfl
  | found a rest ih =>
    simp only [distinct, List.contains_iff_mem, List.mem_append]
    by_cases hseen : a.node.id ∈ seen
    · rw [if_pos hseen, if_pos (.inl hseen), ih]
    · rw [if_neg hseen, Search.filterMap]
      by_cases hbefore : a.node.id ∈ before
      · have hguard : Option.guard (isNew before) a = none := by simp [isNew, hbefore]
        have hsame : ∀ i, i ∈ seen ++ before ↔ i ∈ a.node.id :: seen ++ before := fun i => by
          grind
        rw [if_pos (.inr hbefore), hguard, distinct_congr hsame, ih]
      · have hguard : Option.guard (isNew before) a = some a := by simp [isNew, hbefore]
        rw [if_neg (by tauto), hguard, ← List.cons_append, ih]

/-- The calls that are reported for imports, each one once. -/
lemma ofFactories_esm (p : Program) (o : Options) :
    ofFactories p { o with traceMode := "esm" } =
      (liftM p.globalScope : Search Scope) >>= fun _ =>
        distinct [] ((imports p (moduleMap o)).filterMap ofTracked?) := by
  change (_ >>= fun _ => distinct [] ((imports p (moduleMap o) ++ .done).filterMap ofTracked?)) = _
  simp only [append_done]

/-- The calls that are reported for global objects, each one once. -/
lemma ofFactories_global (p : Program) (o : Options) :
    ofFactories p { o with traceMode := "global" } =
      (liftM p.globalScope : Search Scope) >>= fun _ =>
        distinct [] ((globals p (globalMap o)).filterMap ofTracked?) := rfl

/-- In both modes, calls that were found in imports are left out of those found in global
objects. -/
lemma ofFactories_all (p : Program) (o : Options) :
    ofFactories p { o with traceMode := "all" } =
      ofFactories p { o with traceMode := "esm" } ++
        (ofFactories p { o with traceMode := "global" }).filterMap (Option.guard
          (isNew ((ofFactories p { o with traceMode := "esm" }).toList.map (·.node.id)))) := by
  have hall : ofFactories p { o with traceMode := "all" } =
      (liftM p.globalScope : Search Scope) >>= fun _ => distinct []
        ((imports p (moduleMap o) ++ globals p (globalMap o)).filterMap ofTracked?) := rfl
  rw [hall, ofFactories_esm, ofFactories_global]
  cases p.globalScope with
  | error f => rfl
  | ok s =>
    simp only [liftM_ok_bind rfl]
    rw [filterMap_append, distinct_append, List.append_nil, ← distinct_append_seen, List.nil_append]

/-- **Each call is found once, and modes compose.**  The calls of factories that are found, up to
the end of the search or to the fault at which it breaks off, are calls of the program, no two of
them the same, each with the name of a factory.  In both modes, those of the imports come first, and
then those of the global objects whose call was not found in an import; each keeps the name under
which it is found in its own mode. -/
theorem ofFactories_composed (p : Program) (o : Options) :
    ((ofFactories p o).toList.map (·.node.id)).Nodup ∧
    (∀ s ∈ (ofFactories p o).toList,
      p.Has s.node ∧ s.node.kind = .callExpression ∧ s.method ∈ factories) ∧
    (ofFactories p { o with traceMode := "all" }).toExcept = do
      let imported ← (ofFactories p { o with traceMode := "esm" }).toExcept
      let ambient ← (ofFactories p { o with traceMode := "global" }).toExcept
      return imported ++ ambient.filter fun s => s.node.id ∉ imported.map (·.node.id) := by
  refine ⟨?_, fun s hs => ?_, ?_⟩
  · unfold ofFactories
    cases p.globalScope with
    | error f => exact List.nodup_nil
    | ok s =>
      rw [liftM_ok_bind rfl]
      exact (nodup_distinct [] _).1
  · obtain ⟨hhas, hkind⟩ := has_of_mem_ofFactories hs
    exact ⟨hhas, hkind, method_mem_factories hs⟩
  · rw [ofFactories_all, toExcept_append, toExcept_filterMap, List.filterMap_eq_filter]
    cases himported : (ofFactories p { o with traceMode := "esm" }).toExcept with
    | error f => rfl
    | ok imported =>
      obtain ⟨-, rfl⟩ := toExcept_ok_iff.1 himported
      cases (ofFactories p { o with traceMode := "global" }).toExcept <;> rfl

/-! ### A call that is reached in both ways -/

/-- The program `import {ref} from 'vue';const {computed:f=ref}=Vue;f(0);Vue.toRef(0)`, in which `f`
is a member of the global object or the imported function. -/
def reachedTwice : Except Fault Program :=
  Program.analyze
      ⟨("import {ref} from 'vue';const \x7bcomputed:f=ref\x7d=Vue;" ++
        "f(0);Vue.toRef(0)").toUTF8.toList⟩ {} <|
    .node "program" none 0 68
      [.node "import_statement" none 0 24
        [.node "import_clause" none 7 12
          [.node "named_imports" none 7 12
            [.node "import_specifier" none 8 11 [.identifier (some "name") 8 11]]],
         .node "string" (some "source") 18 23 []],
       .node "lexical_declaration" none 24 51
        [.token "const" (some "kind") 24 29,
         .node "variable_declarator" none 30 50
          [.node "object_pattern" (some "name") 30 46
            [.node "pair_pattern" none 31 45
              [.node "property_identifier" (some "key") 31 39 [],
               .node "assignment_pattern" (some "value") 40 45
                [.identifier (some "left") 40 41, .identifier (some "right") 42 45]]],
           .identifier (some "value") 47 50]],
       .node "expression_statement" none 51 56
        [.node "call_expression" none 51 55
          [.identifier (some "function") 51 52,
           .node "arguments" (some "arguments") 52 55 [.node "number" none 53 54 []]]],
       .node "expression_statement" none 56 68
        [.node "call_expression" none 56 68
          [.node "member_expression" (some "function") 56 65
            [.identifier (some "object") 56 59,
             .node "property_identifier" (some "property") 60 65 []],
           .node "arguments" (some "arguments") 65 68 [.node "number" none 66 67 []]]]]

/-- The identifier of the call, and the name of the function. -/
def tag (s : Site) : Nat × String := (s.node.id, s.method)

/-- The call `f(0)` is a call of `ref` for the imports and of `computed` for the global objects.  In
both modes it is found as the former only. -/
theorem ofFactories_reachedTwice : ∃ p s t u, reachedTwice = .ok p ∧
    (ofFactories p { traceMode := "esm" }).toExcept = .ok [s] ∧ s.tag = (16, "ref") ∧
    (ofFactories p { traceMode := "global" }).toExcept = .ok [t, u] ∧ t.tag = (16, "computed") ∧
    u.tag = (20, "toRef") ∧
    (ofFactories p { traceMode := "all" }).toExcept = .ok [s, u] ∧
    s ∈ (ofFactories p { traceMode := "esm" }).toList ∧ p.Has s.node ∧
    s.node.kind = .callExpression ∧ s.method ∈ factories := by
  have hall : reachedTwice.toOption.any fun p =>
      (ofFactories p { traceMode := "esm" }).toExcept.toOption.any fun ss =>
        (ofFactories p { traceMode := "global" }).toExcept.toOption.any fun ts =>
          ss.map tag == [(16, "ref")] && ts.map tag == [(16, "computed"), (20, "toRef")] := by
    decide +kernel
  obtain ⟨p, hp, hall⟩ := exists_ok_of_any hall
  obtain ⟨ss, hss, hall⟩ := exists_ok_of_any hall
  obtain ⟨ts, hts, hall⟩ := exists_ok_of_any hall
  simp only [Bool.and_eq_true, beq_iff_eq] at hall
  obtain ⟨hone, htwo⟩ := hall
  obtain ⟨s, rfl, hs⟩ := List.map_eq_singleton_iff.1 hone
  obtain ⟨t, us, rfl, ht, hus⟩ := List.map_eq_cons_iff.1 htwo
  obtain ⟨u, rfl, hu⟩ := List.map_eq_singleton_iff.1 hus
  obtain ⟨-, hsites, -⟩ := ofFactories_composed p { traceMode := "esm" }
  obtain ⟨-, -, hcomposed⟩ := ofFactories_composed p { traceMode := "all" }
  have hmem : s ∈ (ofFactories p { traceMode := "esm" }).toList := by
    rw [(toExcept_ok_iff.1 hss).2]
    exact List.mem_singleton_self s
  have hids : s.node.id = 16 ∧ t.node.id = 16 ∧ u.node.id = 20 :=
    ⟨(Prod.mk.inj hs).1, (Prod.mk.inj ht).1, (Prod.mk.inj hu).1⟩
  have hfilter : ([t, u].filter fun v => v.node.id ∉ [s].map (·.node.id)) = [u] := by
    simp [hids]
  have hboth : (ofFactories p { traceMode := "all" }).toExcept = .ok [s, u] := by
    refine hcomposed.trans ?_
    rw [hss, hts]
    exact congrArg (fun us => Except.ok ([s] ++ us)) hfilter
  exact ⟨p, s, t, u, hp, hss, hs, hts, ht, hu, hboth, hmem, hsites s hmem⟩

/-! ## Modules of the library -/

/-- **Global objects and modules.**  What is found in global objects is the same for all modules of
the library, if there are any.  If there are none, nothing is found. -/
theorem ofFactories_libraryModules (p : Program) (o : Options) (hmode : o.traceMode = "global") :
    (∀ modules modules', modules ≠ [] → modules' ≠ [] →
      ofFactories p { o with libraryModules := modules } =
        ofFactories p { o with libraryModules := modules' }) ∧
    (ofFactories p { o with libraryModules := [] }).toList = [] := by
  obtain ⟨sourceType, known, traceMode, libraryModules, globalObjects⟩ := o
  subst hmode
  refine ⟨fun modules modules' hmodules hmodules' => ?_, ?_⟩
  · have hmap : globalMap ⟨sourceType, known, "global", modules, globalObjects⟩ =
        globalMap ⟨sourceType, known, "global", modules', globalObjects⟩ := by
      rw [globalMap_eq, globalMap_eq, if_neg hmodules, if_neg hmodules']
    refine (ofFactories_global p ⟨sourceType, known, "global", modules, globalObjects⟩).trans ?_
    rw [hmap]
    rfl
  · refine List.eq_nil_iff_forall_not_mem.2 fun s hs => ?_
    obtain ⟨t, -, ⟨himports, -⟩ | ⟨-, ht⟩⟩ := exists_of_mem_ofFactories hs
    · cases himports
    · exact (factory_of_mem_globals ht).1 rfl

/-- The script `Vue.ref(0)`. -/
def globalCall : Except Fault Program :=
  Program.analyze ⟨"Vue.ref(0)".toUTF8.toList⟩ { sourceType := "script" } <|
    .node "program" none 0 10
      [.node "expression_statement" none 0 10
        [.node "call_expression" none 0 10
          [.node "member_expression" (some "function") 0 7
            [.identifier (some "object") 0 3,
             .node "property_identifier" (some "property") 4 7 []],
           .node "arguments" (some "arguments") 7 10 [.node "number" none 8 9 []]]]]

/-- The call is found for another module as well. -/
theorem ofFactories_globalCall : ∃ p s, globalCall = .ok p ∧
    (["vue"] : List String) ≠ [] ∧ (["lib", "vue"] : List String) ≠ [] ∧
    (ofFactories p { traceMode := "global", libraryModules := ["vue"] }).toList = [s] ∧
    ofFactories p { traceMode := "global", libraryModules := ["vue"] } =
      ofFactories p { traceMode := "global", libraryModules := ["lib", "vue"] } := by
  have hall : globalCall.toOption.any fun p =>
      (ofFactories p { traceMode := "global", libraryModules := ["vue"] }).toList.length == 1 := by
    decide +kernel
  obtain ⟨p, hp, hall⟩ := exists_ok_of_any hall
  obtain ⟨s, hs⟩ := List.length_eq_one_iff.1 (eq_of_beq hall)
  obtain ⟨hsame, -⟩ := ofFactories_libraryModules p { traceMode := "global" } rfl
  have hmodules : (["vue"] : List String) ≠ [] := List.cons_ne_nil _ _
  have hmodules' : (["lib", "vue"] : List String) ≠ [] := List.cons_ne_nil _ _
  exact ⟨p, s, hp, hmodules, hmodules', hs, hsame _ _ hmodules hmodules'⟩

/-- Without modules of the library the call `Vue.ref(0)` is not found. -/
theorem ofFactories_without_modules : ∃ p s, globalCall = .ok p ∧
    (ofFactories p { traceMode := "global", libraryModules := ["vue"] }).toExcept = .ok [s] ∧
    s.method = "ref" ∧
    (ofFactories p { traceMode := "global", libraryModules := [] }).toExcept = .ok [] := by
  have hall : globalCall.toOption.any fun p =>
      ((ofFactories p { traceMode := "global", libraryModules := [] }).toExcept.toOption.any
        (·.length == 0)) &&
      (ofFactories p { traceMode := "global", libraryModules := ["vue"] }).toExcept.toOption.any
        fun ss => ss.map (·.method) == ["ref"] := by decide +kernel
  obtain ⟨p, hp, hall⟩ := exists_ok_of_any hall
  obtain ⟨hnone, hone⟩ := Bool.and_eq_true_iff.1 hall
  obtain ⟨ts, hts, hlength⟩ := exists_ok_of_any hnone
  obtain ⟨ss, hss, hmethods⟩ := exists_ok_of_any hone
  obtain rfl := List.eq_nil_of_length_eq_zero (eq_of_beq hlength)
  obtain ⟨s, rfl, hmethod⟩ := List.map_eq_singleton_iff.1 (eq_of_beq hmethods)
  exact ⟨p, s, hp, hss, hmethod, hts⟩

end Site

end RefFlow
