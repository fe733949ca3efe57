import RefFlow.Proofs.Fault.Blame
import RefFlow.Proofs.Scope.Blocks
import RefFlow.Proofs.Trace.Outcomes

/-!
# What following a value can blame

Following library values through a program asks for parts of the nodes that it meets: those above an
occurrence of a value, the patterns that a value arrives at, and the imports at the top.  This
module goes through these steps and shows that whatever breaks the search off can be blamed on a
node of the program (`Trace.breaksBy_imports`, `Trace.breaksBy_globals`), and so for the calls of
factories and macros that are found in this way (`Site.breaksBy_ofFactories`,
`Site.failsBy_ambientCalls`).

All of this needs a global scope to look names up from, which a program has if there is a program at
the root of its tree (`Program.exists_global`).
-/

namespace RefFlow

open Fallible Search

/-! ## The global scope -/

namespace Program

variable {p : Program} {s : Scope} {n : Node}

/-- The scope is the one that is taken for the global scope of the program, and belongs to a program
in its tree. -/
structure Global (p : Program) (s : Scope) : Prop where
  scope : p.globalScope = .ok s
  has : p.Has s.block
  isProgram : s.block.kind = .program

lemma exists_global (h : p.root.kind = .program) : ∃ s, p.Global s := by
  obtain ⟨s, hs, -, hin, hkind⟩ := Node.global_program h p.graph_eq
  refine ⟨s, ?_, hin, hkind⟩
  rw [globalScope, Graph.scope, global, hs]

lemma Global.failsBy_globalScope (hs : p.Global s) {B : Fault → Prop} :
    FailsBy B p.globalScope := by
  rw [hs.scope]
  exact failsBy_ok

/-- Looking up what an identifier means can be blamed on the identifier. -/
lemma Global.failsBy_find (hs : p.Global s) (h : p.Has n) (hk : n.kind = .identifier) :
    FailsBy p.Blames (p.find n) := by
  refine hs.failsBy_globalScope.bind fun _ _ =>
    (h.failsBy_text? hk (by decide)).bind fun name _ => ?_
  cases name with
  | none => exact failsBy_pure
  | some name => exact failsBy_pure

end Program

namespace Trace

variable {p : Program} {s : Scope} (hs : p.Global s) {path : List String} {map : TraceMap}

lemma breaksBy_reportUse {B : Fault → Prop} {n : Node} {use : Use} :
    BreaksBy B (reportUse n path use map) := by
  unfold reportUse
  split
  · exact breaksBy_pure
  · exact breaksBy_done

/-! ## Arrivals -/

/-- What goes wrong at a member of a pattern can be blamed on a node of the program if what goes
wrong at the pattern in it can. -/
lemma breaksBy_memberArrivals {m : Node} (hm : p.Has m)
    (h : ∀ u, m.child .value = .ok (some u) →
      ∀ path map, BreaksBy p.Blames (arrivals p (some u) path map)) :
    BreaksBy p.Blames (memberArrivals p path map (some m)) := by
  rw [memberArrivals]
  split
  · rename_i hkind
    have hkind : m.kind = .property := by simpa using hkind
    refine breaksBy_liftM_bind (hm.failsBy_staticName (.inr hkind)) fun key _ => ?_
    cases key with
    | none => exact breaksBy_done
    | some key =>
      dsimp only
      split
      · exact breaksBy_done
      · refine breaksBy_reportUse.map.append ?_
        refine breaksBy_liftM_bind (hm.failsBy_child hkind (by decide)) fun o ho => ?_
        cases o with
        | none => exact breaksBy_done
        | some u => exact h u ho _ _
  · exact breaksBy_done

include hs

lemma breaksBy_arrivals_of_contained {t : Node} (ht : p.Has t)
    (h : ∀ c ∈ t.children, ∀ u, c.Contains u →
      ∀ path map, p.Has u → BreaksBy p.Blames (arrivals p (some u) path map))
    (path : List String) (map : TraceMap) :
    BreaksBy p.Blames (arrivals p (some t) path map) := by
  rw [arrivals_some]
  split
  · rename_i hkind
    refine breaksBy_liftM_bind (hs.failsBy_find ht hkind) fun v _ => ?_
    cases v with
    | none => exact breaksBy_done
    | some v => exact breaksBy_pure
  · rename_i hkind
    have hitems := ht.failsBy_items hkind (f := .properties) (by decide) (.inl (by decide))
    refine breaksBy_liftM_bind hitems fun ts hts => ?_
    refine (breaksBy_ofList ts).bind fun o ho => ?_
    rw [toList_ofList] at ho
    obtain ⟨m, rfl, hm⟩ := ht.exists_of_mem_items hkind (by decide) (by decide) hts ho
    refine breaksBy_memberArrivals hm fun u hu path map => ?_
    exact h m (Shape.mem_children_of_items hts ho) u (Tree.contains_of_child hu) path map
      (hm.child hu)
  · rename_i hkind
    refine breaksBy_liftM_bind (ht.failsBy_child hkind (by decide)) fun o ho => ?_
    cases o with
    | none => exact breaksBy_done
    | some l => exact h l (Shape.mem_children_of_child ho) l (.refl l) path map (ht.child ho)
  · exact breaksBy_done

lemma breaksBy_arrivals {o : Option Node} (ho : ∀ t ∈ o, p.Has t) (path : List String)
    (map : TraceMap) : BreaksBy p.Blames (arrivals p o path map) := by
  cases o with
  | none => exact breaksBy_done
  | some t =>
    have ht := ho t rfl
    clear ho
    induction t using Tree.strongInduction generalizing path map with
    | step t ih => exact breaksBy_arrivals_of_contained hs ht ih path map

/-! ## Occurrences -/

/-- A value that arrives at a part of a node. -/
lemma breaksBy_arrivals_child {q : Node} {k : Kind} {f : Field} (hq : p.Has q) (hk : q.kind = k)
    (hf : f ∈ k.asked) (rest : Search Outcome) (hrest : BreaksBy p.Blames rest) :
    BreaksBy p.Blames (do arrivals p (← q.child f) path map ++ rest) :=
  breaksBy_liftM_bind (hq.failsBy_child hk hf) fun _ ht =>
    (breaksBy_arrivals hs (fun _ hu => hq.child (hu ▸ ht)) path map).append hrest

lemma breaksBy_consequences {above : List Node} (h : ∀ q ∈ above, p.Has q) (n : Node)
    (path : List String) (map : TraceMap) :
    BreaksBy p.Blames (consequences p path map n above) := by
  induction above generalizing n path map with
  | nil => exact breaksBy_done
  | cons q rest ih =>
    obtain ⟨hq, hrest⟩ := List.forall_mem_cons.1 h
    rw [consequences]
    split
    · exact ih hrest q path map
    · split
      · rename_i hkind
        refine breaksBy_liftM_bind (hq.failsBy_child hkind (by decide)) fun o _ => ?_
        split
        · refine breaksBy_liftM_bind (hq.failsBy_staticName (.inl hkind)) fun key _ => ?_
          cases key with
          | none => exact breaksBy_done
          | some key =>
            dsimp only
            split
            · exact breaksBy_done
            · exact breaksBy_reportUse.map.append (ih hrest q _ _)
        · exact breaksBy_done
      · rename_i hkind
        refine breaksBy_liftM_bind (hq.failsBy_child hkind (by decide)) fun o _ => ?_
        split
        · exact breaksBy_reportUse.map
        · exact breaksBy_done
      · rename_i hkind
        refine breaksBy_liftM_bind (hq.failsBy_child hkind (by decide)) fun o _ => ?_
        split
        · exact breaksBy_reportUse.map
        · exact breaksBy_done
      · rename_i hkind
        refine breaksBy_liftM_bind (hq.failsBy_child hkind (by decide)) fun o _ => ?_
        split
        · exact breaksBy_arrivals_child hs hq hkind (by decide) _ (ih hrest q path map)
        · exact breaksBy_done
      · rename_i hkind
        refine breaksBy_liftM_bind (hq.failsBy_child hkind (by decide)) fun o _ => ?_
        split
        · exact breaksBy_liftM_bind (hq.failsBy_child hkind (by decide)) fun _ ht =>
            breaksBy_arrivals hs (fun _ hu => hq.child (hu ▸ ht)) path map
        · exact breaksBy_done
      · rename_i hkind
        refine breaksBy_liftM_bind (hq.failsBy_child hkind (by decide)) fun o _ => ?_
        split
        · exact breaksBy_liftM_bind (hq.failsBy_child hkind (by decide)) fun _ ht =>
            breaksBy_arrivals hs (fun _ hu => hq.child (hu ▸ ht)) path map
        · exact breaksBy_done
      · exact breaksBy_done

lemma breaksBy_occurrence {n : Node} (h : p.Has n) (path : List String) (map : TraceMap) :
    BreaksBy p.Blames (occurrence p n path map) :=
  breaksBy_consequences hs (fun _ hq => h.mem_above hq) n path map

lemma breaksBy_variableOutcomes (v : VariableId) (path : List String) (map : TraceMap)
    (reportReads : Bool) : BreaksBy p.Blames (variableOutcomes p v path map reportReads) := by
  refine (breaksBy_ofList _).bind fun r hr => ?_
  rw [toList_ofList] at hr
  obtain ⟨hhas, -⟩ := Program.has_of_mem_referencesTo (List.mem_filter.1 hr).1
  refine BreaksBy.append ?_ (breaksBy_occurrence hs hhas path map)
  split
  · exact breaksBy_reportUse.map
  · exact breaksBy_done

lemma breaksBy_followVariable (budget : Nat) (stack : List VariableId) (v : VariableId)
    (path : List String) (map : TraceMap) (reportReads : Bool) :
    BreaksBy p.Blames (followVariable p budget stack v path map reportReads) := by
  induction budget generalizing stack v path map reportReads with
  | zero => exact breaksBy_done
  | succ n ih =>
    rw [followVariable]
    split
    · exact breaksBy_done
    · refine (breaksBy_variableOutcomes hs v path map reportReads).bind fun o _ => ?_
      cases o with
      | report t => exact breaksBy_pure
      | reach w path map => exact ih _ w path map false

lemma breaksBy_follow (v : VariableId) (path : List String) (map : TraceMap) (reportReads : Bool) :
    BreaksBy p.Blames (follow p v path map reportReads) :=
  breaksBy_followVariable hs _ [] v path map reportReads

lemma breaksBy_followOutcome (o : Outcome) : BreaksBy p.Blames (followOutcome p o) := by
  cases o with
  | report t => exact breaksBy_pure
  | reach v path map => exact breaksBy_follow hs v path map false

/-! ## Imports and globals -/

/-- The name that an import binds is an identifier. -/
lemma breaksBy_followBinding {specifier : Node} {k : Kind} (h : p.Has specifier)
    (hk : specifier.kind = k) (hf : .localName ∈ k.asked)
    (ha : (.localName, .exactly [.identifier]) ∈ k.parts) (path : List String) (map : TraceMap) :
    BreaksBy p.Blames (followBinding p specifier path map) := by
  refine breaksBy_liftM_bind (h.failsBy_child hk hf) fun o ho => ?_
  obtain ⟨name, rfl, hname, hkind⟩ := h.exists_of_child hk hf ha ho
  have hkind : name.kind = .identifier := List.mem_singleton.1 hkind
  refine breaksBy_liftM_bind (hs.failsBy_find hname hkind) fun v _ => ?_
  cases v with
  | none => exact breaksBy_done
  | some v => exact breaksBy_follow hs v path map false

lemma breaksBy_followExport {specifier : Node} {k : Kind} (h : p.Has specifier)
    (hk : specifier.kind = k) (hf : .localName ∈ k.asked)
    (ha : (.localName, .exactly [.identifier]) ∈ k.parts) (name : Option String)
    (path : List String) (map : TraceMap) :
    BreaksBy p.Blames (followExport p specifier name path map) := by
  unfold followExport
  split
  · exact breaksBy_done
  · split
    · exact breaksBy_done
    · exact breaksBy_reportUse.append (breaksBy_followBinding hs h hk hf ha _ _)

omit hs in
/-- What an import takes from a module is named by an identifier or a string. -/
lemma failsBy_importedName {specifier : Node} (h : p.Has specifier)
    (hk : specifier.kind = .importSpecifier) : FailsBy p.Blames (importedName specifier) := by
  refine (h.failsBy_child hk (by decide)).bind fun o ho => ?_
  have ha : (.imported, .exactly [.identifier, .literal]) ∈ Kind.importSpecifier.parts := by decide
  obtain ⟨name, rfl, hname, hkind⟩ := h.exists_of_child hk (by decide) ha ho
  have hkind : name.kind = .identifier ∨ name.kind = .literal := by simpa using hkind
  rcases hkind with hkind | hkind
  · simp only [hkind, beq_self_eq_true, if_true]
    exact hname.failsBy_text? hkind (by decide)
  · simp only [hkind]
    exact hname.failsBy_text? hkind (by decide)

lemma breaksBy_followSpecifier {specifier : Node} (h : p.Has specifier) (path : List String)
    (map : TraceMap) : BreaksBy p.Blames (followSpecifier p specifier path map) := by
  unfold followSpecifier
  split
  · rename_i hkind
    exact breaksBy_liftM_bind (failsBy_importedName h hkind) fun name _ =>
      breaksBy_followExport hs h hkind (by decide) (by decide) name path map
  · rename_i hkind
    exact breaksBy_followExport hs h hkind (by decide) (by decide) _ path map
  · rename_i hkind
    exact breaksBy_followBinding hs h hkind (by decide) (by decide) path map
  · exact breaksBy_done

omit hs in
/-- A list in which no place may be left empty is gone through member by member. -/
lemma breaksBy_members {α : Type} {n : Node} {k : Kind} {f : Field} (h : p.Has n)
    (hk : n.kind = k) (hf : f ∈ k.asked) (ha : (f, .many) ∈ k.parts) {next : Node → Search α}
    (hnext : ∀ m, p.Has m → BreaksBy p.Blames (next m)) :
    BreaksBy p.Blames (members (n.items f) >>= next) := by
  have hbreaks : BreaksBy p.Blames (members (n.items f)) := by
    refine breaksBy_liftM_bind (h.failsBy_items hk hf (.inl ha)) fun ts hts => ?_
    refine (breaksBy_ofList ts).bind fun o ho => ?_
    rw [toList_ofList] at ho
    obtain ⟨c, rfl, -⟩ := h.exists_of_mem_items hk hf ha hts ho
    exact breaksBy_pure
  have hhas : ∀ m ∈ (members (n.items f)).toList, p.Has m := by
    intro m hm
    obtain ⟨ts, hts, hm⟩ := exists_of_mem_liftM_bind hm
    obtain ⟨o, ho, hm⟩ := exists_of_mem_toList_bind hm
    rw [toList_ofList] at ho
    obtain ⟨c, rfl, hc⟩ := h.exists_of_mem_items hk hf ha hts ho
    obtain rfl : m = c := List.mem_singleton.1 hm
    exact hc
  exact hbreaks.bind fun m hm => hnext m (hhas m hm)

lemma breaksBy_followImport {n : Node} (h : p.Has n) :
    BreaksBy p.Blames (followImport p map n) := by
  unfold followImport
  split
  · rename_i hkind
    have hkind : n.kind = .importDeclaration := by simpa using hkind
    refine breaksBy_liftM_bind (h.failsBy_child hkind (by decide)) fun o ho => ?_
    cases o with
    | none => exact breaksBy_done
    | some source =>
      have ha : (.source, .atMost [.literal]) ∈ Kind.importDeclaration.parts := by decide
      have hsource : source.kind ∈ [Kind.literal] := h.kind_of_child hkind (by decide) ha ho
      have hliteral : source.kind = .literal := List.mem_singleton.1 hsource
      refine breaksBy_liftM_bind ((h.child ho).failsBy_text? hliteral (by decide)) fun name _ => ?_
      cases name with
      | none => exact breaksBy_done
      | some name =>
        dsimp only
        split
        · exact breaksBy_done
        · refine breaksBy_reportUse.append ?_
          exact breaksBy_members h hkind (by decide) (by decide) fun m hm =>
            breaksBy_followSpecifier hs hm _ _
  · exact breaksBy_done

lemma breaksBy_imports (map : TraceMap) : BreaksBy p.Blames (imports p map) := by
  refine breaksBy_liftM_bind hs.failsBy_globalScope fun s' hs' => ?_
  obtain rfl : s = s' := Except.ok.inj (hs.scope.symm.trans hs')
  exact breaksBy_members hs.has hs.isProgram (by decide) (by decide) fun m hm =>
    breaksBy_followImport hs hm

lemma breaksBy_globals (map : TraceMap) : BreaksBy p.Blames (globals p map) := by
  refine breaksBy_liftM_bind hs.failsBy_globalScope fun _ _ =>
    (breaksBy_ofList _).bind fun e _ => ?_
  dsimp only [followGlobal]
  split
  · exact breaksBy_done
  · refine BreaksBy.append ?_ ?_
    · split
      · exact breaksBy_follow hs _ _ _ true
      · exact breaksBy_done
    · refine (breaksBy_ofList _).bind fun r hr => ?_
      rw [toList_ofList] at hr
      have hmem := Program.mem_references_of_mem_referencesOf (List.mem_filter.1 hr).1
      obtain ⟨hhas, -⟩ := Program.has_of_mem_references hmem
      refine breaksBy_reportUse.append ?_
      exact (breaksBy_occurrence hs hhas _ _).bind fun o _ => breaksBy_followOutcome hs o

end Trace

/-! ## Calls -/

namespace Site

open Trace

variable {p : Program} {s : Scope} (hs : p.Global s)

lemma breaksBy_distinct {B : Fault → Prop} {sites : Search Site} (h : BreaksBy B sites)
    (seen : List Nat) : BreaksBy B (distinct seen sites) := by
  induction sites generalizing seen with
  | done => trivial
  | broken f => exact h
  | found site rest ih =>
    rw [distinct]
    split
    · exact ih h seen
    · exact ih h _

include hs

/-- The search for the calls of factories breaks off only where a node is to blame. -/
lemma breaksBy_ofFactories (o : Options) : BreaksBy p.Blames (ofFactories p o) := by
  refine breaksBy_liftM_bind hs.failsBy_globalScope fun _ _ => ?_
  refine breaksBy_distinct (BreaksBy.filterMap (BreaksBy.append ?_ ?_)) []
  · split
    · exact breaksBy_imports hs _
    · exact breaksBy_done
  · split
    · exact breaksBy_globals hs _
    · exact breaksBy_done

omit hs in
lemma failsBy_callOf {r : Reference} (h : p.Has r.identifier) : FailsBy p.Blames (callOf p r) := by
  unfold callOf
  split
  · exact failsBy_ok
  · rename_i parent hparent
    obtain ⟨hq, -⟩ := h.parent hparent
    split
    · rename_i hkind
      have hkind : parent.kind = .callExpression := by simpa using hkind
      refine (hq.failsBy_child hkind (by decide)).bind fun o _ => ?_
      split <;> exact failsBy_pure
    · exact failsBy_ok

omit hs in
/-- Occurrences of names without a declaration are references of the program. -/
lemma gives_ambientReferences (names : List String) :
    Gives (ambientReferences p names) fun rs => ∀ r ∈ rs, r ∈ p.graph.references := by
  refine gives_true.bind fun s _ => gives_pure fun r hr => ?_
  rcases List.mem_append.1 hr with hr | hr
  · obtain ⟨name, -, hr⟩ := List.mem_flatMap.1 hr
    split at hr
    · exact Program.mem_references_of_mem_referencesOf hr
    · cases hr
  · exact Program.mem_references_of_mem_referencesOf (List.mem_filter.1 hr).1

/-- The search for the calls of macros fails only where a node is to blame. -/
lemma failsBy_ambientCalls (names : List String) : FailsBy p.Blames (ambientCalls p names) := by
  have hrefs : FailsBy p.Blames (ambientReferences p names) :=
    hs.failsBy_globalScope.bind fun _ _ => failsBy_pure
  refine hrefs.bind fun rs hrs => ?_
  refine (failsBy_mapM fun r hr => failsBy_callOf ?_).bind fun _ _ => failsBy_pure
  exact (Program.has_of_mem_references (gives_ambientReferences names rs hrs r hr)).1

omit hs in
/-- The call of which an occurrence is the callee. -/
lemma callOf_eq_some_iff {r : Reference} (hr : r ∈ p.graph.references) {site : Site} :
    callOf p r = .ok (some site) ↔ p.Has site.node ∧ site.node.kind = .callExpression ∧
      site.node.child .callee = .ok (some r.identifier) ∧ site.method = r.name := by
  obtain ⟨hhas, -⟩ := Program.has_of_mem_references hr
  constructor
  · intro h
    unfold callOf at h
    split at h
    · cases h
    · rename_i q hq
      obtain ⟨hq, -⟩ := hhas.parent hq
      split at h
      · rename_i hkind
        obtain ⟨o, ho, h⟩ := bind_ok_iff.1 h
        split at h
        · rename_i hcallee
          cases h
          rw [(hhas.isNode_iff hq ho).1 hcallee] at ho
          exact ⟨hq, by simpa using hkind, ho, rfl⟩
        · cases h
      · cases h
  · rintro ⟨hcall, hkind, hcallee, hmethod⟩
    have hparent := hcall.parent?_of_mem_children (Shape.mem_children_of_child hcallee)
    have hnode := (hhas.isNode_iff hcall hcallee).2 rfl
    rw [callOf, hparent]
    dsimp only
    rw [if_pos (by simpa using hkind), hcallee, ok_bind, if_pos hnode, ← hmethod]
    rfl

omit hs in
/-- The calls of functions without a declaration are calls of the program. -/
lemma gives_ambientCalls (names : List String) :
    Gives (ambientCalls p names) fun sites => ∀ site ∈ sites, p.Has site.node := by
  refine (gives_ambientReferences names).bind fun rs hrs => ?_
  refine (gives_mapM (P := fun o : Option Site => ∀ site ∈ o, p.Has site.node) fun r hr => ?_).bind
    fun sites hsites => gives_pure fun site hsite => ?_
  · rintro o ho site rfl
    exact ((callOf_eq_some_iff (hrs r hr)).1 ho).1
  · obtain ⟨o, ho, hsome⟩ := List.mem_filterMap.1 hsite
    exact hsites o ho site hsome

end Site

end RefFlow
