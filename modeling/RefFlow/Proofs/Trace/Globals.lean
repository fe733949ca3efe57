import RefFlow.Proofs.Trace.Aliases

/-!
# Globals that the program itself changes

A library may be there as a global object, under a name that no import binds.  A name which the
program declares or assigns to does not mean the library any more, and is not to be followed.

Whether this is so is asked of the variable of the global scope only.  Hence it depends on whether
the global scope has such a variable, because the name is configured or declared:

* if it has, then every definition and every assignment is seen, wherever it stands, and nothing is
  reported under the name;
* if it has not, then all occurrences of the name are unresolved, and assignments among them are not
  seen.  What the other occurrences lead to is reported as if the program did not assign to the
  name.

A report is found under the name that its path starts with.  This is the simplest case of what
`Marked` says in general: path and map of a value are led on together, so that whatever a member of
the map hands on to the next path holds at the reports.
-/

namespace RefFlow

open Fallible Search

namespace Trace

variable {p : Program} {path : List String} {map : TraceMap}

/-! ## Paths and maps -/

/-- What holds of a path and a map is handed on to their members. -/
def Inherited (I : List String → TraceMap → Prop) : Prop :=
  ∀ ⦃path : List String⦄ ⦃map next : TraceMap⦄ ⦃key : String⦄,
    map.get? key = some next → I path map → I (path ++ [key]) next

/-- The map that asks for a use satisfies the condition together with the path of the use. -/
def Tracked.Marked (I : List String → TraceMap → Prop) (t : Tracked) : Prop :=
  ∃ map, I t.path map ∧ map.mark t.use = some t.info

/-- The condition holds of what is reported, or of what is to be followed further. -/
def Outcome.Marked (I : List String → TraceMap → Prop) : Outcome → Prop
  | .report t => t.Marked I
  | .reach _ path map => I path map

section

variable {I : List String → TraceMap → Prop}

lemma marked_reportUse {n : Node} {use : Use} (h : I path map) :
    All (Tracked.Marked I) (reportUse n path use map) := by
  unfold reportUse
  split
  · rename_i info hinfo
    exact all_pure ⟨map, h, hinfo⟩
  · exact all_done

lemma marked_report {n : Node} {use : Use} (h : I path map) :
    All (Outcome.Marked I) (.report <$> reportUse n path use map) :=
  (marked_reportUse h).map fun _ ht => ht

lemma marked_memberArrivals (hI : Inherited I) {m : Node}
    (ih : ∀ u, m.Contains u → ∀ {path : List String} {map : TraceMap}, I path map →
      All (Outcome.Marked I) (arrivals p (some u) path map)) (h : I path map) :
    All (Outcome.Marked I) (memberArrivals p path map (some m)) := by
  rw [memberArrivals]
  split
  · refine all_liftM_bind fun key _ => ?_
    cases key with
    | none => exact all_done
    | some key =>
      dsimp only
      split
      · exact all_done
      · rename_i next hnext
        refine (marked_report (hI hnext h)).append (all_liftM_bind fun o ho => ?_)
        cases o with
        | none => exact all_done
        | some u => exact ih u (Tree.contains_of_child ho) (hI hnext h)
  · exact all_done

lemma marked_arrivals (hI : Inherited I) (o : Option Node) (h : I path map) :
    All (Outcome.Marked I) (arrivals p o path map) := by
  cases o with
  | none => exact all_done
  | some t =>
    induction t using Tree.strongInduction generalizing path map with
    | step t ih =>
      rw [arrivals_some]
      split
      · refine all_liftM_bind fun v _ => ?_
        cases v with
        | none => exact all_done
        | some v => exact all_pure h
      · refine all_liftM_bind fun ts hts => ?_
        refine (all_ofList (P := (· ∈ ts)) fun o ho => ho).bind fun o ho => ?_
        cases o with
        | none => exact all_broken
        | some m =>
          refine marked_memberArrivals hI (fun u hu _ _ h => ?_) h
          exact ih m (Shape.mem_children_of_items hts ho) u hu h
      · refine all_liftM_bind fun o ho => ?_
        cases o with
        | none => exact all_done
        | some l => exact ih l (Shape.mem_children_of_child ho) l (.refl l) h
      · exact all_done

lemma marked_consequences (hI : Inherited I) (n : Node) (above : List Node) (h : I path map) :
    All (Outcome.Marked I) (consequences p path map n above) := by
  induction above generalizing n path map with
  | nil => exact all_done
  | cons q rest ih =>
    rw [consequences]
    split
    · exact ih q h
    · split
      -- The member of the value goes on.
      · refine all_liftM_bind fun o _ => ?_
        split
        · refine all_liftM_bind fun key _ => ?_
          cases key with
          | none => exact all_done
          | some key =>
            dsimp only
            split
            · exact all_done
            · rename_i next hnext
              exact (marked_report (hI hnext h)).append (ih q (hI hnext h))
        · exact all_done
      -- The value is called.
      · refine all_liftM_bind fun o _ => ?_
        split
        · exact marked_report h
        · exact all_done
      · refine all_liftM_bind fun o _ => ?_
        split
        · exact marked_report h
        · exact all_done
      -- The value arrives at a pattern.
      · refine all_liftM_bind fun o _ => ?_
        split
        · exact all_liftM_bind fun t _ => (marked_arrivals hI t h).append (ih q h)
        · exact all_done
      · refine all_liftM_bind fun o _ => ?_
        split
        · exact all_liftM_bind fun t _ => marked_arrivals hI t h
        · exact all_done
      · refine all_liftM_bind fun o _ => ?_
        split
        · exact all_liftM_bind fun t _ => marked_arrivals hI t h
        · exact all_done
      · exact all_done

lemma marked_occurrence (hI : Inherited I) (n : Node) (h : I path map) :
    All (Outcome.Marked I) (occurrence p n path map) :=
  marked_consequences hI n _ h

lemma marked_variableOutcomes (hI : Inherited I) (v : VariableId) (reportReads : Bool)
    (h : I path map) : All (Outcome.Marked I) (variableOutcomes p v path map reportReads) := by
  refine All.bind (P := fun _ => True) (fun _ _ => trivial) fun r _ => ?_
  refine All.append ?_ (marked_occurrence hI r.identifier h)
  split
  · exact marked_report h
  · exact all_done

lemma marked_followVariable (hI : Inherited I) (budget : Nat) (stack : List VariableId)
    (v : VariableId) (reportReads : Bool) (h : I path map) :
    All (Tracked.Marked I) (followVariable p budget stack v path map reportReads) := by
  induction budget generalizing stack v path map reportReads with
  | zero => exact all_done
  | succ n ih =>
    rw [followVariable]
    split
    · exact all_done
    · refine (marked_variableOutcomes hI v reportReads h).bind fun o ho => ?_
      cases o with
      | report t => exact all_pure ho
      | reach w path map => exact ih _ w false ho

lemma marked_followOutcome (hI : Inherited I) {o : Outcome} (h : o.Marked I) :
    All (Tracked.Marked I) (followOutcome p o) := by
  cases o with
  | report t => exact all_pure h
  | reach v path map => exact marked_followVariable hI _ [] v false h

/-- What is reported for a global object satisfies what the object itself satisfies. -/
lemma marked_followGlobal (hI : Inherited I) (s : Scope) {name : String} (h : I [name] map) :
    All (Tracked.Marked I) (followGlobal p s name map) := by
  dsimp only [followGlobal]
  split
  · exact all_done
  · refine All.append ?_ ?_
    · split
      · exact marked_followVariable hI _ [] _ true h
      · exact all_done
    · refine All.bind (P := fun _ => True) (fun _ _ => trivial) fun r _ => ?_
      refine (marked_reportUse h).append ?_
      exact (marked_occurrence hI _ h).bind fun o ho => marked_followOutcome hI ho

end

/-- What is reported for a global object has a path that starts with its name. -/
lemma head?_path_of_mem_followGlobal {s : Scope} {name : String} {t : Tracked}
    (h : t ∈ (followGlobal p s name map).toList) : t.path.head? = some name := by
  have hI : Inherited fun path _ => path.head? = some name := by
    intro path map next key _ hpath
    rw [List.head?_append, hpath]
    rfl
  obtain ⟨-, hpath, -⟩ := marked_followGlobal (p := p) hI s rfl t h
  exact hpath

lemma mem_globals {s : Scope} (hs : p.globalScope = .ok s) {t : Tracked}
    (h : t ∈ (globals p map).toList) :
    ∃ name next, (name, next) ∈ map.members ∧ t ∈ (followGlobal p s name next).toList := by
  rw [globals, liftM_ok_bind hs] at h
  obtain ⟨⟨name, next⟩, hmember, ht⟩ := exists_of_mem_toList_bind h
  rw [toList_ofList] at hmember
  exact ⟨name, next, hmember, ht⟩

/-- What is reported under a name is what is reported for the global objects of this name. -/
lemma mem_followGlobal_of_mem_globals {s : Scope} (hs : p.globalScope = .ok s) {t : Tracked}
    (h : t ∈ (globals p map).toList) {name : String} (hname : t.path.head? = some name) :
    ∃ next, (name, next) ∈ map.members ∧ t ∈ (followGlobal p s name next).toList := by
  obtain ⟨name', next, hmember, ht⟩ := mem_globals hs h
  obtain rfl : name' = name :=
    Option.some.inj ((head?_path_of_mem_followGlobal ht).symm.trans hname)
  exact ⟨next, hmember, ht⟩

lemma mem_globals_of_finishes {s : Scope} (hs : p.globalScope = .ok s)
    (hfinishes : (globals p map).Finishes) {name : String} {next : TraceMap}
    (hmember : (name, next) ∈ map.members) {t : Tracked}
    (ht : t ∈ (followGlobal p s name next).toList) : t ∈ (globals p map).toList := by
  rw [globals, liftM_ok_bind hs] at hfinishes ⊢
  refine mem_toList_bind hfinishes (a := (name, next)) ?_ ht
  rwa [toList_ofList]

end Trace

/-! ## Changes of a global name -/

namespace Program

variable {p : Program} {s : Scope} {name : String}

/-- The program declares a global name. -/
def Redeclares (s : Scope) (name : String) : Prop :=
  ∃ v, s.find? name = some v ∧ v.definitions ≠ []

/-- The program assigns to a global name: to the variable of the global scope, or where the name is
not resolved. -/
def Assigns (p : Program) (s : Scope) (name : String) : Prop :=
  ∃ r ∈ p.graph.references, r.name = name ∧ r.access.writes = true ∧
    (r.resolved = some ⟨p.global, name⟩ ∨
      r.resolved = none ∧ r ∈ p.graph.referencesOf s.through)

lemma scopes_global (hs : p.globalScope = .ok s) : p.graph.scopes[p.global]? = some s := by
  unfold globalScope Graph.scope at hs
  split at hs
  · rename_i s' hs'
    cases hs
    exact hs'
  · cases hs

lemma declares_global (hs : p.globalScope = .ok s) :
    p.graph.declares p.global name = s.declares name := by
  rw [Graph.declares, scopes_global hs]

/-- An occurrence below the global scope is resolved if the global scope declares its name. -/
lemma resolved_of_mem_through (hs : p.globalScope = .ok s) {r : Reference}
    (hr : r ∈ p.graph.referencesOf s.through) (hdeclares : s.declares r.name = true) :
    r.resolved ≠ none := by
  obtain ⟨hrooted, hlookup⟩ := Node.resolved_eq_lookup p.graph_eq
  have hthrough := (Graph.entered_scopeGraph p.graph_eq).through (scopes_global hs)
  obtain ⟨hmem, hchain, -⟩ := hthrough.mem_referencesOf_iff.1 hr
  intro hnone
  rw [hlookup r hmem, Graph.lookup_eq_none_iff hrooted] at hnone
  have hnot := hnone p.global ((Graph.outward_iff_mem_chain hrooted).2 hchain)
  rw [declares_global hs, hdeclares] at hnot
  cases hnot

/-- All changes of a global name are seen if the global scope has a variable of this name. -/
lemma isModified_iff (hs : p.globalScope = .ok s) {v : Variable} (hv : s.find? name = some v) :
    p.isModified v = true ↔ Redeclares s name ∨ p.Assigns s name := by
  have hdeclares : s.declares name = true := by rw [Scope.declares, hv]; rfl
  have hget : p.graph.get? ⟨p.global, name⟩ = some v := by
    rw [Graph.get?, scopes_global hs]
    exact hv
  have hrefs : p.referencesTo ⟨p.global, name⟩ = p.graph.referencesOf v.references := by
    rw [referencesTo, hget]
  have hdefinitions : (!v.definitions.isEmpty) = true ↔ Redeclares s name := by
    simp [Redeclares, hv]
  have hwrites : (p.graph.referencesOf v.references).any (·.access.writes) = true ↔
      p.Assigns s name := by
    rw [← hrefs, List.any_eq_true]
    constructor
    · rintro ⟨r, hr, hwrites⟩
      obtain ⟨hmem, hresolved⟩ := mem_referencesTo_iff.1 hr
      exact ⟨r, hmem, (name_of_resolved hmem hresolved).symm, hwrites, .inl hresolved⟩
    · rintro ⟨r, hmem, rfl, hwrites, hresolved | ⟨hnone, hthrough⟩⟩
      · exact ⟨r, mem_referencesTo_iff.2 ⟨hmem, hresolved⟩, hwrites⟩
      · exact absurd hnone (resolved_of_mem_through hs hthrough hdeclares)
  rw [isModified, Bool.or_eq_true, hdefinitions, hwrites]

/-- A program can change a name that the global scope does not have only where the name is not
resolved. -/
lemma unresolved_of_not_declares (hs : p.globalScope = .ok s) (hdeclares : s.declares name = false)
    (h : Redeclares s name ∨ p.Assigns s name) :
    ∃ r ∈ p.graph.referencesOf s.through, r.name = name ∧ r.access.writes = true ∧
      r.resolved = none := by
  rcases h with ⟨v, hv, -⟩ | ⟨r, hr, hname, hwrites, hresolved | ⟨hnone, hthrough⟩⟩
  · rw [Scope.declares, hv] at hdeclares
    cases hdeclares
  · have hsome := ((Graph.entered_scopeGraph p.graph_eq).resolved r hr _ hresolved).2.2
    rw [declares_global hs, hdeclares] at hsome
    cases hsome
  · exact ⟨r, hthrough, hname, hwrites, hnone⟩

end Program

namespace Trace

open Program

/-- The use is one that an unresolved read of a global name leads to. -/
def Loose (p : Program) (s : Scope) (name : String) (map : TraceMap) (t : Tracked) : Prop :=
  ∃ r ∈ p.graph.referencesOf s.through, r.name = name ∧ r.access.reads = true ∧
    t ∈ (reportUse r.identifier [name] .read map ++
      (occurrence p r.identifier [name] map >>= followOutcome p)).toList

variable {p : Program} {s : Scope} {name : String} {map : TraceMap}

/-- A name that the program changes is not followed if the global scope has it. -/
lemma followGlobal_of_declares (hs : p.globalScope = .ok s)
    (h : Redeclares s name ∨ p.Assigns s name) (hdeclares : s.declares name = true) :
    followGlobal p s name map = .done := by
  obtain ⟨v, hv⟩ := Option.isSome_iff_exists.1 hdeclares
  dsimp only [followGlobal]
  rw [hv, Option.any_some, if_pos ((isModified_iff hs hv).2 h)]

/-- A name that the global scope does not have is followed from where it is read, no matter where it
is written. -/
lemma followGlobal_of_not_declares (hdeclares : s.declares name = false) :
    followGlobal p s name map =
      ofList ((p.graph.referencesOf s.through).filter fun r => r.name == name && r.access.reads) >>=
        fun r => reportUse r.identifier [name] .read map ++
          (occurrence p r.identifier [name] map >>= followOutcome p) := by
  have hv : s.find? name = none :=
    Option.isNone_iff_eq_none.1 (Option.isSome_eq_false_iff.1 hdeclares)
  dsimp only [followGlobal]
  rw [hv]
  rfl

lemma loose_of_mem_followGlobal (hdeclares : s.declares name = false) {t : Tracked}
    (ht : t ∈ (followGlobal p s name map).toList) : Loose p s name map t := by
  rw [followGlobal_of_not_declares hdeclares] at ht
  obtain ⟨r, hr, ht⟩ := exists_of_mem_toList_bind ht
  rw [toList_ofList, List.mem_filter, Bool.and_eq_true, beq_iff_eq] at hr
  exact ⟨r, hr.1, hr.2.1, hr.2.2, ht⟩

lemma Loose.mem_followGlobal {t : Tracked} (h : Loose p s name map t)
    (hdeclares : s.declares name = false) (hfinishes : (followGlobal p s name map).Finishes) :
    t ∈ (followGlobal p s name map).toList := by
  obtain ⟨r, hr, hname, hreads, ht⟩ := h
  rw [followGlobal_of_not_declares hdeclares] at hfinishes ⊢
  refine mem_toList_bind hfinishes (a := r) ?_ ht
  rw [toList_ofList, List.mem_filter, Bool.and_eq_true, beq_iff_eq]
  exact ⟨hr, hname, hreads⟩

lemma finishes_followGlobal (hs : p.globalScope = .ok s) (hfinishes : (globals p map).Finishes)
    {next : TraceMap} (hmember : (name, next) ∈ map.members) :
    (followGlobal p s name next).Finishes := by
  rw [globals, liftM_ok_bind hs] at hfinishes
  exact (finishes_bind.1 hfinishes).2 (name, next) (by rwa [toList_ofList])

/-- **Changed globals.**  Let the program declare or assign to a global name, at whatever place.  If
the global scope has a variable of the name, then nothing is reported under the name.  If it has
none, then the program assigns to the name where it is not resolved, and what is reported under the
name is exactly what the unresolved reads of the name lead to, as without the assignment. -/
theorem globals_of_changed (p : Program) (map : TraceMap) (name : String) {s : Scope}
    (hs : p.globalScope = .ok s) (h : Redeclares s name ∨ p.Assigns s name) :
    (s.declares name = true → ∀ t ∈ (globals p map).toList, t.path.head? ≠ some name) ∧
    (s.declares name = false →
      (∃ r ∈ p.graph.referencesOf s.through, r.name = name ∧ r.access.writes = true ∧
        r.resolved = none) ∧
      (∀ t ∈ (globals p map).toList, t.path.head? = some name →
        ∃ next, (name, next) ∈ map.members ∧ Loose p s name next t) ∧
      ((globals p map).Finishes → ∀ next, (name, next) ∈ map.members →
        ∀ t, Loose p s name next t → t ∈ (globals p map).toList ∧ t.path.head? = some name)) := by
  refine ⟨fun hdeclares t ht hname => ?_, fun hdeclares => ⟨?_, ?_, ?_⟩⟩
  · obtain ⟨next, -, ht⟩ := mem_followGlobal_of_mem_globals hs ht hname
    rw [followGlobal_of_declares hs h hdeclares] at ht
    cases ht
  · exact unresolved_of_not_declares hs hdeclares h
  · intro t ht hname
    obtain ⟨next, hmember, ht⟩ := mem_followGlobal_of_mem_globals hs ht hname
    exact ⟨next, hmember, loose_of_mem_followGlobal hdeclares ht⟩
  · intro hfinishes next hmember t hloose
    have ht := hloose.mem_followGlobal hdeclares (finishes_followGlobal hs hfinishes hmember)
    exact ⟨mem_globals_of_finishes hs hfinishes hmember ht, head?_path_of_mem_followGlobal ht⟩

/-! ### A library object that is replaced -/

/-- The program `Vue={};Vue.ref(0)`, with the given names as global variables. -/
def replaced (globals : List String) : Except Fault Program :=
  Program.analyze ⟨"Vue={};Vue.ref(0)".toUTF8.toList⟩
      { sourceType := "script", globals := globals } <|
    .node "program" none 0 17
      [.node "expression_statement" none 0 7
        [.node "assignment_expression" none 0 6
          [.identifier (some "left") 0 3, .node "object" (some "right") 4 6 []]],
       .node "expression_statement" none 7 17
        [.node "call_expression" none 7 17
          [.node "member_expression" (some "function") 7 14
            [.identifier (some "object") 7 10,
             .node "property_identifier" (some "property") 11 14 []],
           .node "arguments" (some "arguments") 14 17 [.node "number" none 15 16 []]]]]

/-- The map of a library object `Vue` whose member `ref` is a function. -/
def libraryMap : TraceMap := .mk {} [("Vue", .mk {} [("ref", functionMap)])]

/-- If `Vue` is not configured, then the call `Vue.ref(0)` is reported although `Vue` has been
replaced. -/
theorem globals_replaced : ∃ p s t, replaced [] = .ok p ∧ p.globalScope = .ok s ∧
    p.Assigns s "Vue" ∧ t ∈ (globals p libraryMap).toList ∧ t.path = ["Vue", "ref"] ∧
    t.use = .call := by
  have hall : (replaced []).toOption.any fun p => p.globalScope.toOption.any fun s =>
      ((p.graph.referencesOf s.through).any fun r =>
        r.name == "Vue" && r.access.writes && r.resolved == none) &&
      (globals p libraryMap).toList.any fun t =>
        t.path == ["Vue", "ref"] && t.use == .call := by decide +kernel
  obtain ⟨p, hp, hall⟩ := exists_ok_of_any hall
  obtain ⟨s, hs, hall⟩ := exists_ok_of_any hall
  obtain ⟨hassigns, hreported⟩ := Bool.and_eq_true_iff.1 hall
  obtain ⟨r, hr, hwrites⟩ := List.any_eq_true.1 hassigns
  obtain ⟨t, ht, htracked⟩ := List.any_eq_true.1 hreported
  simp only [Bool.and_eq_true, beq_iff_eq] at hwrites htracked
  have hmem := mem_references_of_mem_referencesOf hr
  exact ⟨p, s, t, hp, hs, ⟨r, hmem, hwrites.1.1, hwrites.1.2, .inr ⟨hwrites.2, hr⟩⟩, ht, htracked⟩

/-- If `Vue` is configured, then nothing is reported under its name once it has been replaced. -/
theorem globals_replaced_configured : ∃ p s, replaced ["Vue"] = .ok p ∧ p.globalScope = .ok s ∧
    p.Assigns s "Vue" ∧ ∀ t ∈ (globals p libraryMap).toList, t.path.head? ≠ some "Vue" := by
  have hall : (replaced ["Vue"]).toOption.any fun p => p.globalScope.toOption.any fun s =>
      s.declares "Vue" && p.graph.references.any fun r =>
        r.name == "Vue" && r.access.writes && r.resolved == some ⟨p.global, "Vue"⟩ := by
    decide +kernel
  obtain ⟨p, hp, hall⟩ := exists_ok_of_any hall
  obtain ⟨s, hs, hall⟩ := exists_ok_of_any hall
  obtain ⟨hdeclares, hassigns⟩ := Bool.and_eq_true_iff.1 hall
  obtain ⟨r, hr, hwrites⟩ := List.any_eq_true.1 hassigns
  simp only [Bool.and_eq_true, beq_iff_eq] at hwrites
  have hassigns : p.Assigns s "Vue" := ⟨r, hr, hwrites.1.1, hwrites.1.2, .inl hwrites.2⟩
  obtain ⟨hnone, -⟩ := globals_of_changed p libraryMap "Vue" hs (.inr hassigns)
  exact ⟨p, s, hp, hs, hassigns, hnone hdeclares⟩

end Trace

end RefFlow
