import Mathlib.Data.Set.Insert
import RefFlow.Proofs.Trace.Outcomes

/-!
# How a function gets around

The rules by which the value of a variable gets to expressions, targets and other variables, stated
on the program alone, for the value of one function: something that can be called and has no members
that would have to be told apart.

* `Passes p c d`: the value goes from `c` to `d` in one step.
* `Carries p v c`: the value of the variable `v` gets to `c` in any number of steps.
* `Faulty p c`: at `c` the tracing asks a node for a part that it does not have, or for the name of
  a member that cannot be written.

A local search starts at an occurrence of the value and ends at reports and at variables.
`Explores` says what it means that such a search does all that the rules ask for, from given
starting points: it finishes exactly if it meets nothing faulty, and then its outcomes are exactly
the calls and the variables that the rules lead to.  The search over the nodes above an occurrence
and the search over a pattern are both shown to do this, by induction on the list of nodes above and
on the pattern, and `explores_variableOutcomes` puts them together for all occurrences of a
variable.
-/

namespace RefFlow

open Fallible Search

namespace Trace

/-! ## The rules -/

/-- Where a value can be. -/
inductive Carrier where
  /-- An expression that has the value. -/
  | expression (e : Node)
  /-- A target that the value arrives at. -/
  | target (t : Node)
  /-- A variable that has the value. -/
  | holder (v : VariableId)

/-- The part of a node that is bound, and the part that it is bound to. -/
def bindingParts : Kind → Option (Field × Field)
  | .assignmentExpression | .assignmentPattern => some (.right, .left)
  | .variableDeclarator => some (.init, .id)
  | _ => none

/-- The value goes from the one place to the other in one step. -/
inductive Passes (p : Program) : Carrier → Carrier → Prop
  /-- A variable that has the value hands it to its occurrences that are read. -/
  | read {v : VariableId} {r : Reference} (reference : r ∈ p.referencesTo v)
      (reads : r.access.reads = true) : Passes p (.holder v) (.expression r.identifier)
  /-- An expression hands it to the type operator or chain around it. -/
  | wrapped {e q : Node} (parent : p.parent? e = some q) (isWrapper : isTransparent q.kind = true) :
      Passes p (.expression e) (.expression q)
  /-- The right side of an assignment is the value of the assignment. -/
  | assignment {e q : Node} (parent : p.parent? e = some q)
      (isAssignment : q.kind = .assignmentExpression) (right : q.child .right = .ok (some e)) :
      Passes p (.expression e) (.expression q)
  /-- The right side of an assignment or a default, or an initial value, goes to the target. -/
  | bound {e q t : Node} {f g : Field} (parent : p.parent? e = some q)
      (binds : bindingParts q.kind = some (f, g)) (value : q.child f = .ok (some e))
      (target : q.child g = .ok (some t)) : Passes p (.expression e) (.target t)
  /-- A target with a default hands it to its left side. -/
  | default {t l : Node} (isDefault : t.kind = .assignmentPattern)
      (left : t.child .left = .ok (some l)) : Passes p (.target t) (.target l)
  /-- A name hands it to the variable that it means. -/
  | name {t : Node} {v : VariableId} (isIdentifier : t.kind = .identifier)
      (means : p.find t = .ok (some v)) : Passes p (.target t) (.holder v)

/-- The value of the variable gets there. -/
def Carries (p : Program) (v : VariableId) : Carrier → Prop :=
  Relation.ReflTransGen (Passes p) (.holder v)

/-- The callee of the call has the value of the variable. -/
def CarriedCall (p : Program) (v : VariableId) (q : Node) : Prop :=
  p.Has q ∧ q.kind = .callExpression ∧
    ∃ e, q.child .callee = .ok (some e) ∧ Carries p v (.expression e)

/-! ### Faults -/

/-- The computation has no result. -/
def Fails {α : Type} (x : Except Fault α) : Prop := ∀ a, x ≠ .ok a

/-- An expression with this parent cannot be dealt with. -/
def FaultyParent (e q : Node) : Prop :=
  match q.kind with
  | .memberExpression =>
    Fails (q.child .object) ∨ q.child .object = .ok (some e) ∧ Fails q.staticName
  | .callExpression | .newExpression => Fails (q.child .callee)
  | .assignmentExpression | .assignmentPattern =>
    Fails (q.child .right) ∨ q.child .right = .ok (some e) ∧ Fails (q.child .left)
  | .variableDeclarator =>
    Fails (q.child .init) ∨ q.child .init = .ok (some e) ∧ Fails (q.child .id)
  | _ => False

/-- A value that arrives at this target cannot be dealt with. -/
def FaultyTarget (p : Program) (t : Node) : Prop :=
  match t.kind with
  | .identifier => Fails (p.find t)
  | .objectPattern => Fails (t.items .properties) ∨ ∃ ts, t.items .properties = .ok ts ∧
      (none ∈ ts ∨ ∃ m : Node, some m ∈ ts ∧ m.kind = .property ∧ Fails m.staticName)
  | .assignmentPattern => Fails (t.child .left)
  | _ => False

/-- A value that gets there makes the tracing break off. -/
def Faulty (p : Program) : Carrier → Prop
  | .expression e => ∃ q, p.parent? e = some q ∧ FaultyParent e q
  | .target t => FaultyTarget p t
  | .holder _ => False

lemma fails_error {α : Type} (f : Fault) : Fails (.error f : Except Fault α) := nofun

lemma not_fails_ok {α : Type} (a : α) : ¬Fails (.ok a : Except Fault α) := fun h => h a rfl

/-! ## Local searches -/

section Explores

variable (p : Program) (path : List String) (map : TraceMap)

/-- The value goes from the one place to the other in one step that does not start at a variable. -/
def Inside (c d : Carrier) : Prop := Passes p c d ∧ ∀ v, c ≠ .holder v

/-- The value gets from the one place to the other without passing through a variable. -/
def Within : Carrier → Carrier → Prop := Relation.ReflTransGen (Inside p)

/-- What a value at this place comes to: a variable is reached, and a call of the value reported. -/
inductive Signals : Carrier → Outcome → Prop
  | reach (v : VariableId) : Signals (.holder v) (.reach v path map)
  | call {e q : Node} {info : Info} (parent : p.parent? e = some q)
      (isCall : q.kind = .callExpression) (callee : q.child .callee = .ok (some e))
      (mark : map.mark .call = some info) :
      Signals (.expression e) (.report ⟨q, path, .call, info⟩)

/-- The outcome reports a call, or reaches a variable. -/
def Outcome.IsSignal : Outcome → Prop
  | .report t => t.node.kind = .callExpression
  | .reach .. => True

/-- The search does all that the rules ask for from the given places on. -/
structure Explores (s : Search Outcome) (start : Set Carrier) : Prop where
  finishes : s.Finishes ↔ ∀ c ∈ start, ∀ d, Within p c d → ¬Faulty p d
  sound : ∀ o ∈ s.toList, o.IsSignal → ∃ c ∈ start, ∃ d, Within p c d ∧ Signals p path map d o
  complete : s.Finishes → ∀ c ∈ start, ∀ d o, Within p c d → Signals p path map d o → o ∈ s.toList

end Explores

section Composition

variable {p : Program} {path : List String} {map : TraceMap} {s t : Search Outcome}
  {c d : Carrier} {start other : Set Carrier}

lemma within_iff : Within p c d ↔ c = d ∨ ∃ next, Inside p c next ∧ Within p next d :=
  Relation.ReflTransGen.cases_head_iff

/-- From no place on, there is nothing to do. -/
lemma explores_done : Explores p path map .done ∅ :=
  ⟨by simp [Finishes], nofun, nofun⟩

lemma Explores.append (hs : Explores p path map s start) (ht : Explores p path map t other) :
    Explores p path map (s ++ t) (start ∪ other) where
  finishes := by
    rw [finishes_append, hs.finishes, ht.finishes]
    simp only [Set.mem_union, or_imp, forall_and]
  sound o ho hsignal := by
    rcases mem_toList_append ho with ho | ho
    · obtain ⟨c, hc, hd⟩ := hs.sound o ho hsignal
      exact ⟨c, .inl hc, hd⟩
    · obtain ⟨c, hc, hd⟩ := ht.sound o ho hsignal
      exact ⟨c, .inr hc, hd⟩
  complete hfinishes c hc d o hd ho := by
    obtain ⟨hfs, hft⟩ := finishes_append.1 hfinishes
    rcases hc with hc | hc
    · exact mem_toList_append_left (hs.complete hfs c hc d o hd ho)
    · exact mem_toList_append_right hfs (ht.complete hft c hc d o hd ho)

/-- Reports of other uses do not matter. -/
lemma Explores.of_append (hs : s.Finishes) (hsilent : ∀ o ∈ s.toList, ¬o.IsSignal)
    (ht : Explores p path map t start) : Explores p path map (s ++ t) start where
  finishes := by rw [finishes_append, ← ht.finishes, and_iff_right hs]
  sound o ho hsignal := by
    rcases mem_toList_append ho with ho | ho
    · exact absurd hsignal (hsilent o ho)
    · exact ht.sound o ho hsignal
  complete hfinishes c hc d o hd ho :=
    mem_toList_append_right hs (ht.complete (finishes_append.1 hfinishes).2 c hc d o hd ho)

/-- A search that breaks off at once at a place with a fault does what is asked for. -/
lemma explores_of_faulty (hc : Faulty p c) (hs : ¬s.Finishes) (hnone : s.toList = []) :
    Explores p path map s {c} where
  finishes := by
    refine iff_of_false hs fun h => ?_
    exact h c rfl c .refl hc
  sound o ho := by
    rw [hnone] at ho
    cases ho
  complete hfinishes := absurd hfinishes hs

/-- At a place from which the value goes nowhere, only its own signals count. -/
lemma explores_of_end (hfault : ¬Faulty p c) (hend : ∀ d, ¬Inside p c d) (hs : s.Finishes)
    (hsignals : ∀ o, o ∈ s.toList ∧ o.IsSignal ↔ Signals p path map c o) :
    Explores p path map s {c} := by
  have hwithin : ∀ d, Within p c d ↔ d = c := by
    intro d
    rw [within_iff]
    constructor
    · rintro (rfl | ⟨next, hnext, -⟩)
      · rfl
      · exact absurd hnext (hend next)
    · rintro rfl
      exact .inl rfl
  refine ⟨?_, fun o ho hsignal => ⟨c, rfl, c, .refl, (hsignals o).1 ⟨ho, hsignal⟩⟩, ?_⟩
  · refine iff_of_true hs ?_
    rintro _ rfl d hd
    rw [(hwithin d).1 hd]
    exact hfault
  · rintro - _ rfl d o hd ho
    rw [(hwithin d).1 hd] at ho
    exact ((hsignals o).2 ho).1

/-- At a place without signals of its own, the search goes on from the next places. -/
lemma explores_of_next (hfault : ¬Faulty p c) (hsilent : ∀ o, ¬Signals p path map c o)
    (hs : Explores p path map s {d | Inside p c d}) : Explores p path map s {c} where
  finishes := by
    rw [hs.finishes]
    constructor
    · rintro h _ rfl d hd
      rcases within_iff.1 hd with rfl | ⟨next, hnext, hd⟩
      · exact hfault
      · exact h next hnext d hd
    · intro h next hnext d hd
      exact h c rfl d (within_iff.2 (.inr ⟨next, hnext, hd⟩))
  sound o ho hsignal := by
    obtain ⟨next, hnext, d, hd, hdo⟩ := hs.sound o ho hsignal
    exact ⟨c, rfl, d, within_iff.2 (.inr ⟨next, hnext, hd⟩), hdo⟩
  complete hfinishes := by
    rintro _ rfl d o hd ho
    rcases within_iff.1 hd with rfl | ⟨next, hnext, hd⟩
    · exact absurd ho (hsilent o)
    · exact hs.complete hfinishes next hnext d o hd ho

/-- A place without signals of its own from which the value goes to one other place only. -/
lemma explores_of_only_next (hfault : ¬Faulty p c) (hsilent : ∀ o, ¬Signals p path map c o)
    (hnext : ∀ e, Inside p c e ↔ e = d) (hs : Explores p path map s {d}) :
    Explores p path map s {c} := by
  have hset : {e | Inside p c e} = {d} := Set.ext hnext
  exact explores_of_next hfault hsilent (hset ▸ hs)

end Composition

/-! ### The rules at one place -/

section Places

variable {p : Program} {path : List String} {map : TraceMap} {e q t : Node} {d : Carrier}
  {o : Outcome}

lemma inside_target_iff : Inside p (.target t) d ↔
    (t.kind = .assignmentPattern ∧ ∃ l, t.child .left = .ok (some l) ∧ d = .target l) ∨
      (t.kind = .identifier ∧ ∃ v, p.find t = .ok (some v) ∧ d = .holder v) := by
  constructor
  · rintro ⟨h, -⟩
    cases h with
    | default isDefault left => exact .inl ⟨isDefault, _, left, rfl⟩
    | name isIdentifier means => exact .inr ⟨isIdentifier, _, means, rfl⟩
  · rintro (⟨isDefault, l, left, rfl⟩ | ⟨isIdentifier, v, means, rfl⟩)
    · exact ⟨.default isDefault left, nofun⟩
    · exact ⟨.name isIdentifier means, nofun⟩

lemma inside_expression_iff (hq : p.parent? e = some q) : Inside p (.expression e) d ↔
    (isTransparent q.kind = true ∧ d = .expression q) ∨
      (q.kind = .assignmentExpression ∧ q.child .right = .ok (some e) ∧ d = .expression q) ∨
      ∃ f g t, bindingParts q.kind = some (f, g) ∧ q.child f = .ok (some e) ∧
        q.child g = .ok (some t) ∧ d = .target t := by
  constructor
  · rintro ⟨h, -⟩
    cases h with
    | wrapped parent isWrapper =>
      cases hq.symm.trans parent
      exact .inl ⟨isWrapper, rfl⟩
    | assignment parent isAssignment right =>
      cases hq.symm.trans parent
      exact .inr (.inl ⟨isAssignment, right, rfl⟩)
    | bound parent binds value target =>
      cases hq.symm.trans parent
      exact .inr (.inr ⟨_, _, _, binds, value, target, rfl⟩)
  · rintro (⟨isWrapper, rfl⟩ | ⟨isAssignment, right, rfl⟩ | ⟨f, g, t, binds, value, target, rfl⟩)
    · exact ⟨.wrapped hq isWrapper, nofun⟩
    · exact ⟨.assignment hq isAssignment right, nofun⟩
    · exact ⟨.bound hq binds value target, nofun⟩

lemma not_inside_holder {v : VariableId} : ¬Inside p (.holder v) d := fun h => h.2 v rfl

lemma not_signals_target : ¬Signals p path map (.target t) o := nofun

lemma signals_expression_iff (hq : p.parent? e = some q) :
    Signals p path map (.expression e) o ↔ q.kind = .callExpression ∧
      q.child .callee = .ok (some e) ∧
      ∃ info, map.mark .call = some info ∧ o = .report ⟨q, path, .call, info⟩ := by
  constructor
  · intro h
    cases h with
    | call parent isCall callee mark =>
      cases hq.symm.trans parent
      exact ⟨isCall, callee, _, mark, rfl⟩
  · rintro ⟨isCall, callee, info, mark, rfl⟩
    exact .call hq isCall callee mark

lemma faulty_expression_iff (hq : p.parent? e = some q) :
    Faulty p (.expression e) ↔ FaultyParent e q := by
  constructor
  · rintro ⟨q', hq', h⟩
    cases hq.symm.trans hq'
    exact h
  · exact fun h => ⟨q, hq, h⟩

/-- At a place from which the value goes nowhere, and which has no signals, nothing is to be found.
-/
lemma explores_silent {c : Carrier} (hfault : ¬Faulty p c) (hend : ∀ d, ¬Inside p c d)
    (hsilent : ∀ o, ¬Signals p path map c o) : Explores p path map .done {c} :=
  explores_of_end hfault hend trivial fun o => iff_of_false nofun (hsilent o)

/-- A place at which a node is asked for an optional part, and the value goes to that part. -/
lemma explores_of_option {c : Carrier} {β : Type} {x : Except Fault (Option β)}
    {k : Option β → Search Outcome} (place : β → Carrier) (hfaulty : Faulty p c ↔ Fails x)
    (hsilent : ∀ o, ¬Signals p path map c o)
    (hinside : ∀ d, Inside p c d ↔ ∃ b, x = .ok (some b) ∧ d = place b) (hnone : k none = .done)
    (hsome : ∀ b, x = .ok (some b) → Explores p path map (k (some b)) {place b}) :
    Explores p path map (liftM x >>= k) {c} := by
  cases x with
  | error f => exact explores_of_faulty (hfaulty.2 (fails_error f)) id rfl
  | ok o =>
    have hfault : ¬Faulty p c := fun h => not_fails_ok o (hfaulty.1 h)
    rw [liftM_ok_bind rfl]
    cases o with
    | none =>
      rw [hnone]
      exact explores_silent hfault (fun d hd => by simp [hinside] at hd) hsilent
    | some b =>
      exact explores_of_only_next hfault hsilent (fun d => by simp [hinside]) (hsome b rfl)

lemma finishes_report {n : Node} {use : Use} :
    (Outcome.report <$> reportUse n path use map).Finishes := by
  unfold reportUse
  split <;> trivial

lemma mem_report_iff {n : Node} {use : Use} :
    o ∈ (Outcome.report <$> reportUse n path use map).toList ↔
      ∃ info, map.mark use = some info ∧ o = .report ⟨n, path, use, info⟩ := by
  unfold reportUse
  split
  · rename_i info hmark
    rw [hmark]
    constructor
    · exact fun ho => ⟨info, rfl, List.mem_singleton.1 ho⟩
    · rintro ⟨_, ⟨⟩, rfl⟩
      exact List.mem_singleton_self _
  · rename_i hmark
    rw [hmark]
    exact iff_of_false nofun nofun

/-- A variable that is reached is the only outcome there. -/
lemma explores_reach (v : VariableId) :
    Explores p path map (pure (.reach v path map)) {.holder v} := by
  refine explores_of_end (fun h => h) (fun _ => not_inside_holder) trivial fun o => ?_
  constructor
  · rintro ⟨ho, -⟩
    rw [List.mem_singleton.1 ho]
    exact .reach v
  · rintro ⟨⟩
    exact ⟨List.mem_singleton_self _, trivial⟩

end Places

/-! ## Targets -/

section NoMembers

variable {p : Program} {path : List String} {map : TraceMap} (hmap : map.members = [])

include hmap

lemma get?_of_members_nil (key : String) : map.get? key = none := by
  rw [TraceMap.get?, hmap]
  rfl

/-- The members of a pattern get nothing of a value without members. -/
lemma toList_memberArrivals (o : Option Node) : (memberArrivals p path map o).toList = [] := by
  cases o with
  | none => rfl
  | some m =>
    rw [memberArrivals]
    split
    · cases m.staticName with
      | error f => rfl
      | ok key =>
        cases key with
        | none => rfl
        | some key => simp [get?_of_members_nil hmap key, toList]
    · rfl

lemma finishes_memberArrivals (o : Option Node) : (memberArrivals p path map o).Finishes ↔
    ∃ m : Node, o = some m ∧ (m.kind = .property → ¬Fails m.staticName) := by
  cases o with
  | none => simp [memberArrivals, Finishes]
  | some m =>
    rw [memberArrivals]
    split
    · rename_i hkind
      have hkind : m.kind = .property := by simpa using hkind
      cases hname : m.staticName with
      | error f => simp [Finishes, hkind, hname, fails_error]
      | ok key =>
        cases key with
        | none => simp [Finishes, hname, not_fails_ok]
        | some key => simp [Finishes, hname, not_fails_ok, get?_of_members_nil hmap key]
    · rename_i hkind
      have hkind : m.kind ≠ .property := by simpa using hkind
      simp [Finishes, hkind]

lemma explores_objectPattern {t : Node} (hkind : t.kind = .objectPattern) :
    Explores p path map (arrivals p (some t) path map) {.target t} := by
  have hend : ∀ d, ¬Inside p (.target t) d := by
    intro d h
    simp [inside_target_iff, hkind] at h
  rw [arrivals_some, hkind]
  dsimp only
  cases hitems : t.items .properties with
  | error f =>
    refine explores_of_faulty ?_ id rfl
    simp [Faulty, FaultyTarget, hkind, hitems, fails_error]
  | ok ts =>
    have hnone : (ofList ts >>= memberArrivals p path map).toList = [] := by
      refine List.eq_nil_iff_forall_not_mem.2 fun o ho => ?_
      obtain ⟨m, -, ho⟩ := exists_of_mem_toList_bind ho
      rw [toList_memberArrivals hmap m] at ho
      cases ho
    have hfaulty : ¬(ofList ts >>= memberArrivals p path map).Finishes ↔ Faulty p (.target t) := by
      simp only [finishes_bind, finishes_ofList, toList_ofList, finishes_memberArrivals hmap,
        Faulty, FaultyTarget, hkind, hitems, not_fails_ok, true_and, false_or, not_forall]
      constructor
      · rintro ⟨o, ho, h⟩
        refine ⟨ts, rfl, ?_⟩
        cases o with
        | none => exact .inl ho
        | some m => exact .inr ⟨m, ho, by simpa using h⟩
      · rintro ⟨_, ⟨⟩, hnone | ⟨m, hm, hproperty, hname⟩⟩
        · refine ⟨none, hnone, ?_⟩
          rintro ⟨m, hm, -⟩
          cases hm
        · refine ⟨some m, hm, ?_⟩
          rintro ⟨_, ⟨⟩, h⟩
          exact h hproperty hname
    rw [liftM_ok_bind rfl]
    by_cases hfin : (ofList ts >>= memberArrivals p path map).Finishes
    · refine explores_of_end (fun h => hfaulty.2 h hfin) hend hfin fun o => ?_
      rw [hnone]
      exact iff_of_false (fun ho => List.not_mem_nil ho.1) not_signals_target
    · exact explores_of_faulty (hfaulty.1 hfin) hfin hnone

/-- A value that arrives at a target is handed on as the rules say. -/
lemma explores_arrivals (t : Node) :
    Explores p path map (arrivals p (some t) path map) {.target t} := by
  induction t using Tree.induction with
  | step t ih =>
    by_cases hobject : t.kind = .objectPattern
    · exact explores_objectPattern hmap hobject
    · rw [arrivals_some]
      split
      · rename_i hkind
        refine explores_of_option .holder ?_ (fun o => not_signals_target) (fun d => ?_) rfl
          fun v _ => explores_reach v
        · simp [Faulty, FaultyTarget, hkind]
        · simp [inside_target_iff, hkind]
      · rename_i hkind
        exact absurd hkind hobject
      · rename_i hkind
        refine explores_of_option .target ?_ (fun o => not_signals_target) (fun d => ?_) rfl
          fun l hleft => ih l (Shape.mem_children_of_child hleft)
        · simp [Faulty, FaultyTarget, hkind]
        · simp [inside_target_iff, hkind]
      · rename_i hname hpattern hdefault
        refine explores_silent ?_ (fun d hd => ?_) fun o => not_signals_target
        · simp [Faulty, FaultyTarget]
        · rcases inside_target_iff.1 hd with ⟨hkind, -⟩ | ⟨hkind, -⟩
          · exact hdefault hkind
          · exact hname hkind

lemma explores_arrivals_of_option (o : Option Node) :
    Explores p path map (arrivals p o path map) {d | ∃ t ∈ o, d = .target t} := by
  cases o with
  | none =>
    have hset : {d | ∃ t ∈ (none : Option Node), d = Carrier.target t} = ∅ := by
      ext d
      simp
    rw [hset]
    exact explores_done
  | some t =>
    have hset : {d | ∃ u ∈ some t, d = Carrier.target u} = {.target t} := by
      ext d
      simp
    rw [hset]
    exact explores_arrivals hmap t

/-! ## Expressions -/

omit hmap in
/-- An expression that the value does not leave, under a parent that asks for nothing missing. -/
lemma explores_unused {e q : Node} (hq : p.parent? e = some q) (hfault : ¬FaultyParent e q)
    (htransparent : isTransparent q.kind ≠ true)
    (hunbound : ∀ f g, bindingParts q.kind = some (f, g) → q.child f ≠ .ok (some e))
    (huncalled : q.kind = .callExpression → q.child .callee ≠ .ok (some e)) :
    Explores p path map .done {.expression e} := by
  refine explores_silent (by rwa [faulty_expression_iff hq]) (fun d hd => ?_) fun o ho => ?_
  · rcases (inside_expression_iff hq).1 hd with ⟨h, -⟩ | ⟨h, hright, -⟩ | ⟨f, g, t, h, hvalue, -⟩
    · exact htransparent h
    · exact hunbound .right .left (by rw [h]; rfl) hright
    · exact hunbound f g h hvalue
  · obtain ⟨h, hcallee, -⟩ := (signals_expression_iff hq).1 ho
    exact huncalled h hcallee

omit hmap in
/-- An expression in a type operator or a chain. -/
lemma explores_wrapped {e q : Node} (hq : p.parent? e = some q)
    (htransparent : isTransparent q.kind = true) {s : Search Outcome}
    (hs : Explores p path map s {.expression q}) : Explores p path map s {.expression e} := by
  have hkind : q.kind = .tsAsExpression ∨ q.kind = .tsNonNullExpression ∨
      q.kind = .chainExpression := by
    unfold isTransparent at htransparent
    split at htransparent <;> simp_all
  refine explores_of_only_next ?_ (fun o ho => ?_) (fun d => ?_) hs
  · rw [faulty_expression_iff hq]
    rcases hkind with hkind | hkind | hkind <;> simp [FaultyParent, hkind]
  · obtain ⟨hcall, -⟩ := (signals_expression_iff hq).1 ho
    simp [hcall] at hkind
  · rw [inside_expression_iff hq]
    rcases hkind with hkind | hkind | hkind <;> simp [isTransparent, bindingParts, hkind]

/-- An expression that is bound: it goes to the target, and to whatever more there is. -/
lemma explores_bound {e q : Node} (he : p.Has e) (hq : p.parent? e = some q)
    (htransparent : isTransparent q.kind ≠ true) (hcall : q.kind ≠ .callExpression)
    {f g : Field} (hparts : bindingParts q.kind = some (f, g))
    (hfaulty : FaultyParent e q ↔
      Fails (q.child f) ∨ q.child f = .ok (some e) ∧ Fails (q.child g))
    (more : Search Outcome)
    (hmore : q.child f = .ok (some e) → Explores p path map more
      {d | q.kind = .assignmentExpression ∧ q.child .right = .ok (some e) ∧ d = .expression q}) :
    Explores p path map (do
      if e.isNode (← q.child f) then arrivals p (← q.child g) path map ++ more else .done)
      {.expression e} := by
  have hsilent : ∀ o, ¬Signals p path map (.expression e) o := by
    intro o ho
    exact hcall ((signals_expression_iff hq).1 ho).1
  cases hvalue : q.child f with
  | error fault =>
    refine explores_of_faulty ?_ id rfl
    rw [faulty_expression_iff hq, hfaulty, hvalue]
    exact .inl (fails_error fault)
  | ok o =>
    rw [liftM_ok_bind rfl]
    split
    · rename_i hnode
      obtain rfl := (he.isNode_iff (he.parent hq).1 hvalue).1 hnode
      cases htarget : q.child g with
      | error fault =>
        refine explores_of_faulty ?_ id rfl
        rw [faulty_expression_iff hq, hfaulty, htarget]
        exact .inr ⟨hvalue, fails_error fault⟩
      | ok o =>
        rw [liftM_ok_bind rfl]
        have hfault : ¬Faulty p (.expression e) := by
          rw [faulty_expression_iff hq, hfaulty, hvalue, htarget]
          simp [not_fails_ok]
        refine explores_of_next hfault hsilent ?_
        have hset : {d | Inside p (.expression e) d} = {d | ∃ t ∈ o, d = .target t} ∪
            {d | q.kind = .assignmentExpression ∧ q.child .right = .ok (some e) ∧
              d = .expression q} := by
          ext d
          constructor
          · intro hd
            rcases (inside_expression_iff hq).1 hd with
              ⟨h, -⟩ | h | ⟨f', g', t, hparts', -, ht, rfl⟩
            · exact absurd h htransparent
            · exact .inr h
            · cases hparts.symm.trans hparts'
              exact .inl ⟨t, Except.ok.inj (htarget.symm.trans ht), rfl⟩
          · rintro (⟨t, rfl, rfl⟩ | h)
            · exact (inside_expression_iff hq).2
                (.inr (.inr ⟨f, g, t, hparts, hvalue, htarget, rfl⟩))
            · exact (inside_expression_iff hq).2 (.inr (.inl h))
        rw [hset]
        exact (explores_arrivals_of_option hmap o).append (hmore hvalue)
    · rename_i hnode
      have hother : q.child f ≠ .ok (some e) := by
        rw [hvalue]
        exact fun h => hnode ((he.isNode_iff (he.parent hq).1 hvalue).2 (Except.ok.inj h))
      refine explores_unused hq ?_ htransparent ?_ fun h => absurd h hcall
      · rw [hfaulty, hvalue]
        rintro (h | ⟨h, -⟩)
        · exact not_fails_ok o h
        · exact hother (hvalue.trans h)
      · intro f' g' h
        cases hparts.symm.trans h
        exact hother

/-- A default or an initial value goes to the target only. -/
lemma explores_bound_only {e q : Node} (he : p.Has e) (hq : p.parent? e = some q)
    (htransparent : isTransparent q.kind ≠ true) (hcall : q.kind ≠ .callExpression)
    (hassignment : q.kind ≠ .assignmentExpression) {f g : Field}
    (hparts : bindingParts q.kind = some (f, g))
    (hfaulty : FaultyParent e q ↔
      Fails (q.child f) ∨ q.child f = .ok (some e) ∧ Fails (q.child g)) :
    Explores p path map (do
      if e.isNode (← q.child f) then arrivals p (← q.child g) path map else .done)
      {.expression e} := by
  have hset : {d | q.kind = .assignmentExpression ∧ q.child .right = .ok (some e) ∧
      d = Carrier.expression q} = ∅ := by
    ext d
    simp [hassignment]
  have hdone : Explores p path map .done {d | q.kind = .assignmentExpression ∧
      q.child .right = .ok (some e) ∧ d = Carrier.expression q} := by
    rw [hset]
    exact explores_done
  simpa only [append_done] using
    explores_bound hmap he hq htransparent hcall hparts hfaulty .done fun _ => hdone

/-- The object of a member expression: the member gets nothing of a value without members. -/
lemma explores_object {e q : Node} (he : p.Has e) (hq : p.parent? e = some q)
    (hkind : q.kind = .memberExpression) (k : String → TraceMap → Search Outcome) :
    Explores p path map (do
      if e.isNode (← q.child .object) then
        match ← q.staticName with
        | none => .done
        | some key =>
          match map.get? key with
          | none => .done
          | some next => k key next
      else .done) {.expression e} := by
  have hsilent : ¬FaultyParent e q → Explores p path map .done {.expression e} := by
    intro hfault
    refine explores_unused hq hfault ?_ ?_ ?_ <;> simp [hkind, isTransparent, bindingParts]
  cases hobject : q.child .object with
  | error f =>
    refine explores_of_faulty ((faulty_expression_iff hq).2 ?_) id rfl
    simp [FaultyParent, hkind, hobject, fails_error]
  | ok o =>
    rw [liftM_ok_bind rfl]
    split
    · rename_i hnode
      obtain rfl := (he.isNode_iff (he.parent hq).1 hobject).1 hnode
      cases hname : q.staticName with
      | error f =>
        refine explores_of_faulty ((faulty_expression_iff hq).2 ?_) id rfl
        simp [FaultyParent, hkind, hobject, hname, fails_error]
      | ok key =>
        rw [liftM_ok_bind rfl]
        have hfault : ¬FaultyParent e q := by
          simp [FaultyParent, hkind, hobject, hname, not_fails_ok]
        cases key with
        | none => exact hsilent hfault
        | some key =>
          dsimp only
          rw [get?_of_members_nil hmap key]
          exact hsilent hfault
    · rename_i hnode
      refine hsilent ?_
      have hother : o ≠ some e := fun h => hnode ((he.isNode_iff (he.parent hq).1 hobject).2 h)
      simp [FaultyParent, hkind, hobject, hother, not_fails_ok]

omit hmap in
/-- The callee of a call, which is reported, or of a construction, which is no signal. -/
lemma explores_callee {e q : Node} (he : p.Has e) (hq : p.parent? e = some q) {use : Use}
    (hkind : q.kind = .callExpression ∧ use = .call ∨
      q.kind = .newExpression ∧ use = .construct) :
    Explores p path map (do
      if e.isNode (← q.child .callee) then .report <$> reportUse q path use map else .done)
      {.expression e} := by
  have hend : ∀ d, ¬Inside p (.expression e) d := by
    intro d hd
    rcases hkind with ⟨hkind, -⟩ | ⟨hkind, -⟩ <;>
      simp [inside_expression_iff hq, hkind, isTransparent, bindingParts] at hd
  have hfaulty : Faulty p (.expression e) ↔ Fails (q.child .callee) := by
    rcases hkind with ⟨hkind, -⟩ | ⟨hkind, -⟩ <;>
      simp [faulty_expression_iff hq, FaultyParent, hkind]
  cases hcallee : q.child .callee with
  | error f =>
    refine explores_of_faulty (hfaulty.2 ?_) id rfl
    rw [hcallee]
    exact fails_error f
  | ok o =>
    rw [liftM_ok_bind rfl]
    have hfault : ¬Faulty p (.expression e) := by
      rw [hfaulty, hcallee]
      exact not_fails_ok o
    split
    · rename_i hnode
      obtain rfl := (he.isNode_iff (he.parent hq).1 hcallee).1 hnode
      refine explores_of_end hfault hend finishes_report fun o => ?_
      rw [mem_report_iff, signals_expression_iff hq]
      rcases hkind with ⟨hkind, rfl⟩ | ⟨hkind, rfl⟩
      · constructor
        · rintro ⟨hreport, -⟩
          exact ⟨hkind, hcallee, hreport⟩
        · rintro ⟨-, -, info, hmark, rfl⟩
          exact ⟨⟨info, hmark, rfl⟩, hkind⟩
      · refine iff_of_false ?_ (by simp [hkind])
        rintro ⟨⟨info, -, rfl⟩, hsignal⟩
        cases hkind.symm.trans hsignal
    · rename_i hnode
      refine explores_silent hfault hend fun o' ho => ?_
      obtain ⟨-, h, -⟩ := (signals_expression_iff hq).1 ho
      cases hcallee.symm.trans h
      exact hnode ((he.isNode_iff (he.parent hq).1 hcallee).2 rfl)

/-- What the nodes above an expression do with the value is as the rules say. -/
lemma explores_consequences {e : Node} (he : p.Has e) {above : List Node}
    (habove : p.above e = above) :
    Explores p path map (consequences p path map e above) {.expression e} := by
  induction above generalizing e with
  | nil =>
    have hroot : ∀ q, p.parent? e ≠ some q := by
      intro q hq
      rw [Program.parent?, habove] at hq
      cases hq
    refine explores_silent ?_ (fun d hd => ?_) fun o ho => ?_
    · rintro ⟨q, hq, -⟩
      exact hroot q hq
    · obtain ⟨h, -⟩ := hd
      cases h with
      | wrapped parent _ => exact hroot _ parent
      | assignment parent _ _ => exact hroot _ parent
      | bound parent _ _ _ => exact hroot _ parent
    · cases ho with
      | call parent _ _ _ => exact hroot _ parent
  | cons q rest ih =>
    obtain ⟨hq, hrest, -⟩ := he.above_eq_cons habove
    have hparent : p.parent? e = some q := by rw [Program.parent?, habove]; rfl
    rw [consequences]
    split
    · rename_i htransparent
      exact explores_wrapped hparent htransparent (ih hq hrest)
    · rename_i htransparent
      split
      · rename_i hkind
        exact explores_object hmap he hparent hkind _
      · rename_i hkind
        exact explores_callee he hparent (.inl ⟨hkind, rfl⟩)
      · rename_i hkind
        exact explores_callee he hparent (.inr ⟨hkind, rfl⟩)
      · rename_i hkind
        refine explores_bound hmap he hparent htransparent (by simp [hkind]) (by rw [hkind]; rfl)
          (by simp [FaultyParent, hkind]) _ fun hright => ?_
        have hset : {d | q.kind = .assignmentExpression ∧ q.child .right = .ok (some e) ∧
            d = Carrier.expression q} = {.expression q} := by
          ext d
          simp [hkind, hright]
        rw [hset]
        exact ih hq hrest
      · rename_i hkind
        exact explores_bound_only hmap he hparent htransparent (by simp [hkind]) (by simp [hkind])
          (by rw [hkind]; rfl) (by simp [FaultyParent, hkind])
      · rename_i hkind
        exact explores_bound_only hmap he hparent htransparent (by simp [hkind]) (by simp [hkind])
          (by rw [hkind]; rfl) (by simp [FaultyParent, hkind])
      · rename_i hmember hcall hnew hassignment hpattern hdeclarator
        refine explores_unused hparent ?_ htransparent ?_ fun h => absurd h hcall
        · simp [FaultyParent]
        · simp [bindingParts]

/-! ## Occurrences -/

/-- The search at one occurrence; that it is read is reported if it is asked for. -/
lemma explores_occurrence {e : Node} (he : p.Has e) (hkind : e.kind = .identifier)
    (reportReads : Bool) :
    Explores p path map
      ((if reportReads then .report <$> reportUse e path .read map else .done) ++
        occurrence p e path map) {.expression e} := by
  refine .of_append ?_ (fun o ho hsignal => ?_) (explores_consequences hmap he rfl)
  · split
    · exact finishes_report
    · trivial
  · split at ho
    · obtain ⟨info, -, rfl⟩ := mem_report_iff.1 ho
      cases hkind.symm.trans hsignal
    · cases ho

/-- The search at occurrences one after the other. -/
lemma explores_occurrences (reportReads : Bool) {rs : List Reference}
    (hrs : ∀ r ∈ rs, p.Has r.identifier ∧ r.identifier.kind = .identifier) :
    Explores p path map (do
      let r ← ofList rs
      (if reportReads then .report <$> reportUse r.identifier path .read map else .done) ++
        occurrence p r.identifier path map) {d | ∃ r ∈ rs, d = .expression r.identifier} := by
  induction rs with
  | nil =>
    have hset : {d | ∃ r ∈ ([] : List Reference), d = Carrier.expression r.identifier} = ∅ := by
      ext d
      simp
    rw [hset]
    exact explores_done
  | cons r rs ih =>
    obtain ⟨⟨hr, hkind⟩, hrs⟩ := List.forall_mem_cons.1 hrs
    have hset : {d | ∃ r' ∈ r :: rs, d = Carrier.expression r'.identifier} =
        {.expression r.identifier} ∪ {d | ∃ r' ∈ rs, d = .expression r'.identifier} := by
      ext d
      simp
    rw [hset]
    exact (explores_occurrence hmap hr hkind reportReads).append (ih hrs)

/-- The search at all places where a variable is read does what the rules ask for. -/
lemma explores_variableOutcomes (v : VariableId) (reportReads : Bool) :
    Explores p path map (variableOutcomes p v path map reportReads)
      {d | Passes p (.holder v) d} := by
  have hset : {d | Passes p (.holder v) d} =
      {d | ∃ r ∈ (p.referencesTo v).filter (·.access.reads), d = .expression r.identifier} := by
    ext d
    constructor
    · rintro ⟨reference, reads⟩
      exact ⟨_, List.mem_filter.2 ⟨reference, reads⟩, rfl⟩
    · rintro ⟨r, hr, rfl⟩
      obtain ⟨reference, reads⟩ := List.mem_filter.1 hr
      exact .read reference reads
  rw [hset]
  exact explores_occurrences hmap reportReads fun r hr =>
    Program.has_of_mem_referencesTo (List.mem_filter.1 hr).1

end NoMembers

end Trace

end RefFlow
