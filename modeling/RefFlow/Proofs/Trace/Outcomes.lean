import RefFlow.Proofs.Program
import RefFlow.Proofs.Search
import RefFlow.Site

/-!
# The calls that are reported belong to the program

Following a library value reports the nodes that use it.  Those that are calls stand above an
occurrence of the value, hence in the program: `all_follow` shows it for a value that has come to a
variable, and `has_of_mem_ofFactories` for the calls of factories, which are found by following the
library's imports and global objects.

A value that arrives at a pattern is handed on to the nodes in it by a rule that is computed over
the whole pattern.  `arrivals_some` is the equation of this rule at one node, on which this and all
later arguments about arrivals rest.
-/

namespace RefFlow

open Fallible Search

namespace Trace

variable {p : Program} {path : List String} {map : TraceMap}

/-! ## Arrivals -/

/-- The outcomes of a value that arrives at a member of an object pattern. -/
def memberArrivals (p : Program) (path : List String) (map : TraceMap) :
    Option Node → Search Outcome
  | none => .broken (.missingNode "item")
  | some m =>
    if m.kind == .property then do
      match ← m.staticName with
      | none => .done
      | some key =>
        match map.get? key with
        | none => .done
        | some next =>
          .report <$> reportUse m (path ++ [key]) .read next ++
            do arrivals p (← m.child .value) (path ++ [key]) next
    else .done

lemma arriveAt_annotate (o : Option Node) (path : List String) (map : TraceMap) :
    arriveAt (o.map (Tree.annotate (arrivalRule p))) path map = arrivals p o path map := by
  cases o <;> rfl

lemma label_annotate_arrivalRule (n : Node) : (n.annotate (arrivalRule p)).label.1 = n := by
  rw [Tree.label_annotate, arrivalRule]

lemma arriveAtMember_annotate (o : Option Node) (path : List String) (map : TraceMap) :
    arriveAtMember (o.map (Tree.annotate (arrivalRule p))) path map =
      memberArrivals p path map o := by
  cases o with
  | none => rfl
  | some m =>
    have hkind : (m.annotate (arrivalRule p)).kind = m.kind := by
      rw [Tree.kind, Tree.shape_annotate, Shape.kind_map]
      rfl
    have hchild : (m.annotate (arrivalRule p)).child .value =
        Option.map (Tree.annotate (arrivalRule p)) <$> m.child .value := by
      rw [Tree.child, Tree.shape_annotate, Shape.child_map]
      rfl
    unfold memberArrivals
    simp only [Option.map_some, arriveAtMember, hkind, label_annotate_arrivalRule, hchild]
    by_cases hproperty : (m.kind == .property) = true
    · rw [if_pos hproperty, if_pos hproperty]
      refine congrArg (liftM m.staticName >>= ·) (funext fun name => ?_)
      cases name with
      | none => rfl
      | some key =>
        dsimp only
        cases map.get? key with
        | none => rfl
        | some next =>
          cases m.child .value with
          | error f => rfl
          | ok o => simp only [Except.map_ok, liftM_ok, found_bind, done_bind, arriveAt_annotate]
    · rw [if_neg hproperty, if_neg hproperty]

/-- The outcomes at a pattern, by what its kind makes of the value. -/
lemma arrivals_some (t : Node) (path : List String) (map : TraceMap) :
    arrivals p (some t) path map =
      match t.kind with
      | .identifier => do
        match ← p.find t with
        | some v => pure (.reach v path map)
        | none => .done
      | .objectPattern => do memberArrivals p path map (← .ofList (← t.items .properties))
      | .assignmentPattern => do arrivals p (← t.child .left) path map
      | _ => .done := by
  have hitems : ∀ ts : List (Option Node),
      (ofList (ts.map (Option.map (Tree.annotate (arrivalRule p)))) >>=
        fun m => arriveAtMember m path map) =
      (ofList ts >>= memberArrivals p path map) := by
    intro ts
    induction ts with
    | nil => rfl
    | cons o ts ih =>
      rw [List.map_cons, ofList, ofList, found_bind, found_bind, arriveAtMember_annotate, ih]
  rw [arrivals, Tree.measure, Tree.label_annotate, arrivalRule, Shape.kind_map, Shape.items_map,
    Shape.child_map, Tree.kind, Tree.items, Tree.child]
  dsimp only
  generalize t.shape.kind = k
  -- Both sides distinguish the same kinds.
  congr 1
  · funext
    cases t.shape.items .properties with
    | error f => rfl
    | ok ts =>
      simp only [Except.map_ok, liftM_ok, found_bind, done_bind, append_done]
      exact hitems ts
  · funext
    cases t.shape.child .left with
    | error f => rfl
    | ok o =>
      simp only [Except.map_ok, liftM_ok, found_bind, done_bind, append_done, arriveAt_annotate]

/-! ## Reported calls -/

/-- The use is no call, or one of the program. -/
def Tracked.In (p : Program) (t : Tracked) : Prop := t.node.kind = .callExpression → p.Has t.node

/-- If the outcome reports a call, it is one of the program. -/
def Outcome.In (p : Program) : Outcome → Prop
  | .report t => t.In p
  | .reach .. => True

lemma all_reportUse {n : Node} {use : Use} (h : n.kind = .callExpression → p.Has n) :
    All (Tracked.In p) (reportUse n path use map) := by
  unfold reportUse
  split
  · exact all_pure h
  · exact all_done

lemma all_report {n : Node} {use : Use} (h : n.kind = .callExpression → p.Has n) :
    All (Outcome.In p) (.report <$> reportUse n path use map) :=
  (all_reportUse h).map fun _ ht => ht

/-- A pattern has only outcomes of this kind if the patterns further inside do. -/
lemma all_arrivals_of_contained {t : Node}
    (h : ∀ c ∈ t.children, ∀ u, c.Contains u →
      ∀ path map, All (Outcome.In p) (arrivals p (some u) path map))
    (path : List String) (map : TraceMap) : All (Outcome.In p) (arrivals p (some t) path map) := by
  rw [arrivals_some]
  split
  · refine all_liftM_bind fun v _ => ?_
    cases v with
    | none => exact all_done
    | some v => exact all_pure trivial
  · refine all_liftM_bind fun ts hts => ?_
    refine (all_ofList (P := (· ∈ ts)) fun o ho => ho).bind fun o ho => ?_
    cases o with
    | none => exact all_broken
    | some m =>
      rw [memberArrivals]
      split
      · rename_i hkind
        refine all_liftM_bind fun key _ => ?_
        cases key with
        | none => exact all_done
        | some key =>
          dsimp only
          split
          · exact all_done
          · refine (all_report ?_).append (all_liftM_bind fun o' ho' => ?_)
            · intro hcall
              simp [hcall] at hkind
            · cases o' with
              | none => exact all_done
              | some u =>
                exact h m (Shape.mem_children_of_items hts ho) u (Tree.contains_of_child ho') _ _
      · exact all_done
  · refine all_liftM_bind fun o ho => ?_
    cases o with
    | none => exact all_done
    | some l => exact h l (Shape.mem_children_of_child ho) l (.refl l) path map
  · exact all_done

lemma all_arrivals (o : Option Node) (path : List String) (map : TraceMap) :
    All (Outcome.In p) (arrivals p o path map) := by
  cases o with
  | none => exact all_done
  | some t =>
    induction t using Tree.strongInduction generalizing path map with
    | step t ih => exact all_arrivals_of_contained ih path map

lemma all_consequences {above : List Node} (h : ∀ q ∈ above, p.Has q) (n : Node)
    (path : List String) (map : TraceMap) :
    All (Outcome.In p) (consequences p path map n above) := by
  induction above generalizing n path map with
  | nil => exact all_done
  | cons q rest ih =>
    obtain ⟨hq, hrest⟩ := List.forall_mem_cons.1 h
    rw [consequences]
    split
    · exact ih hrest q path map
    · split
      · refine all_liftM_bind fun o _ => ?_
        split
        · refine all_liftM_bind fun key _ => ?_
          cases key with
          | none => exact all_done
          | some key =>
            dsimp only
            split
            · exact all_done
            · exact (all_report fun _ => hq).append (ih hrest q _ _)
        · exact all_done
      · refine all_liftM_bind fun o _ => ?_
        split
        · exact all_report fun _ => hq
        · exact all_done
      · refine all_liftM_bind fun o _ => ?_
        split
        · exact all_report fun _ => hq
        · exact all_done
      · refine all_liftM_bind fun o _ => ?_
        split
        · exact all_liftM_bind fun t _ => (all_arrivals t path map).append (ih hrest q path map)
        · exact all_done
      · refine all_liftM_bind fun o _ => ?_
        split
        · exact all_liftM_bind fun t _ => all_arrivals t path map
        · exact all_done
      · refine all_liftM_bind fun o _ => ?_
        split
        · exact all_liftM_bind fun t _ => all_arrivals t path map
        · exact all_done
      · exact all_done

lemma all_occurrence {n : Node} (h : p.Has n) (path : List String) (map : TraceMap) :
    All (Outcome.In p) (occurrence p n path map) :=
  all_consequences (fun _ hq => h.mem_above hq) n path map

lemma all_variableOutcomes (v : VariableId) (path : List String) (map : TraceMap)
    (reportReads : Bool) : All (Outcome.In p) (variableOutcomes p v path map reportReads) := by
  refine (all_ofList (P := (· ∈ p.referencesTo v)) fun r hr => (List.mem_filter.1 hr).1).bind ?_
  intro r hr
  obtain ⟨hhas, -⟩ := Program.has_of_mem_referencesTo hr
  refine All.append ?_ (all_occurrence hhas path map)
  split
  · exact all_report fun _ => hhas
  · exact all_done

lemma all_followVariable (budget : Nat) (stack : List VariableId) (v : VariableId)
    (path : List String) (map : TraceMap) (reportReads : Bool) :
    All (Tracked.In p) (followVariable p budget stack v path map reportReads) := by
  induction budget generalizing stack v path map reportReads with
  | zero => exact all_done
  | succ n ih =>
    rw [followVariable]
    split
    · exact all_done
    · refine (all_variableOutcomes v path map reportReads).bind fun o ho => ?_
      cases o with
      | report t => exact all_pure ho
      | reach w path map => exact ih _ w path map false

/-- The calls that are reported for a value that has come to a variable belong to the program. -/
lemma all_follow (v : VariableId) (path : List String) (map : TraceMap) (reportReads : Bool) :
    All (Tracked.In p) (follow p v path map reportReads) :=
  all_followVariable _ [] v path map reportReads

lemma all_followOutcome {o : Outcome} (h : o.In p) : All (Tracked.In p) (followOutcome p o) := by
  cases o with
  | report t => exact all_pure h
  | reach v path map => exact all_follow v path map false

/-! ## Imports and globals -/

lemma all_followBinding (specifier : Node) (path : List String) (map : TraceMap) :
    All (Tracked.In p) (followBinding p specifier path map) := by
  refine all_liftM_bind fun name _ => ?_
  cases name with
  | none => exact all_broken
  | some name =>
    refine all_liftM_bind fun v _ => ?_
    cases v with
    | none => exact all_done
    | some v => exact all_follow v path map false

lemma all_followExport {specifier : Node} (h : specifier.kind ≠ .callExpression)
    (name : Option String) (path : List String) (map : TraceMap) :
    All (Tracked.In p) (followExport p specifier name path map) := by
  unfold followExport
  split
  · exact all_done
  · split
    · exact all_done
    · exact (all_reportUse fun hcall => absurd hcall h).append (all_followBinding _ _ _)

lemma all_followSpecifier (specifier : Node) (path : List String) (map : TraceMap) :
    All (Tracked.In p) (followSpecifier p specifier path map) := by
  unfold followSpecifier
  split
  · rename_i hkind
    exact all_liftM_bind fun name _ => all_followExport (by simp [hkind]) name path map
  · rename_i hkind
    exact all_followExport (by simp [hkind]) _ path map
  · exact all_followBinding specifier path map
  · exact all_done

lemma all_imports (map : TraceMap) : All (Tracked.In p) (imports p map) := by
  refine all_liftM_bind fun s _ => ?_
  refine All.bind (P := fun _ => True) (fun _ _ => trivial) fun n _ => ?_
  unfold followImport
  split
  · rename_i hkind
    refine all_liftM_bind fun source _ => ?_
    cases source with
    | none => exact all_done
    | some source =>
      refine all_liftM_bind fun name _ => ?_
      cases name with
      | none => exact all_done
      | some name =>
        dsimp only
        split
        · exact all_done
        · refine (all_reportUse fun hcall => ?_).append ?_
          · simp [hcall] at hkind
          · refine All.bind (P := fun _ => True) (fun _ _ => trivial) fun m _ => ?_
            exact all_followSpecifier m _ _
  · exact all_done

lemma all_globals (map : TraceMap) : All (Tracked.In p) (globals p map) := by
  refine all_liftM_bind fun s _ => ?_
  refine All.bind (P := fun _ => True) (fun _ _ => trivial) fun e _ => ?_
  dsimp only [followGlobal]
  split
  · exact all_done
  · refine All.append ?_ ?_
    · split
      · exact all_follow _ _ _ true
      · exact all_done
    · refine (all_ofList (P := (· ∈ p.graph.references)) fun r hr => ?_).bind fun r hr => ?_
      · exact Program.mem_references_of_mem_referencesOf (List.mem_filter.1 hr).1
      · obtain ⟨hhas, -⟩ := Program.has_of_mem_references hr
        refine (all_reportUse fun _ => hhas).append ?_
        exact (all_occurrence hhas _ _).bind fun o ho => all_followOutcome ho

end Trace

namespace Site

open Trace

variable {p : Program}

lemma mem_of_mem_distinct {s : Site} {seen : List Nat} {sites : Search Site}
    (h : s ∈ (distinct seen sites).toList) : s ∈ sites.toList := by
  induction sites generalizing seen with
  | done | broken => cases h
  | found t rest ih =>
    rw [distinct] at h
    split at h
    · exact List.mem_cons_of_mem t (ih h)
    · rcases List.mem_cons.1 h with rfl | h
      · exact List.mem_cons_self
      · exact List.mem_cons_of_mem t (ih h)

/-- The calls of factories are calls of the program. -/
lemma has_of_mem_ofFactories {o : Options} {s : Site} (h : s ∈ (ofFactories p o).toList) :
    p.Has s.node ∧ s.node.kind = .callExpression := by
  obtain ⟨-, -, h⟩ := exists_of_mem_liftM_bind h
  obtain ⟨t, ht, hs⟩ := mem_toList_filterMap (mem_of_mem_distinct h)
  have hin : t.In p := by
    rcases mem_toList_append ht with ht | ht
    · split at ht
      · exact all_imports _ t ht
      · cases ht
    · split at ht
      · exact all_globals _ t ht
      · cases ht
  unfold ofTracked? at hs
  split at hs
  · rename_i hkind
    obtain ⟨m, -, rfl⟩ := Option.map_eq_some_iff.1 hs
    have hkind' : t.node.kind = .callExpression := by simpa using hkind
    exact ⟨hin hkind', hkind'⟩
  · cases hs

end Site

end RefFlow
