import Mathlib.Data.List.Perm.Subperm
import RefFlow.Proofs.Trace.Carries

/-!
# Following a function through its aliases

Variables may be assigned to each other in circles.  A variable that is being followed already is
not entered again, and one could fear that this cuts off calls: the variable is left out while it is
on the stack, not only once its occurrences have been looked at.  It cuts off nothing.  Whatever a
value gets to, it gets to by a way that enters no variable twice, and each such way is gone
(`reaches_avoiding_iff`, `follows_followVariable`).

`calls_follow_iff` states the result for the value of one function.  Following it breaks off exactly
if the value gets to a place at which a node lacks a part that it is asked for, or has a name that
cannot be written; and if it does not break off, the calls that are reported are exactly those whose
callee carries the value.  That it can break off is shown by `follow_using_breaks`: a declaration
with `using` is no construct that the conversion knows, so its declarator has no initial value to be
asked for.
-/

namespace RefFlow

open Fallible Search

/-! ## Variables of a graph -/

namespace Graph

variable {g : Graph} {v : VariableId}

lemma mem_variableIds_of_get? {x : Variable} (h : g.get? v = some x) : v ∈ g.variableIds := by
  obtain ⟨s, hs, hx⟩ := Option.bind_eq_some_iff.1 h
  obtain ⟨k, hk, -⟩ := Option.bind_eq_some_iff.1 hx
  have hkey : v.name ∈ s.table.keys := Table.has_iff_mem_keys.1 (by rw [Table.has, hk]; rfl)
  refine List.mem_flatMap.2 ⟨(s, v.scope), List.mem_zipIdx_iff_getElem?.2 hs, ?_⟩
  exact List.mem_map.2 ⟨v.name, hkey, rfl⟩

end Graph

namespace Trace

variable {p : Program} {v w u : VariableId} {c d : Carrier}

/-! ## From variable to variable -/

/-- The value of the variable gets there without passing through another variable. -/
def Near (p : Program) (v : VariableId) (c : Carrier) : Prop :=
  ∃ d, Passes p (.holder v) d ∧ Within p d c

/-- The value goes from the one variable to the other without passing through a third one. -/
def Hop (p : Program) (v w : VariableId) : Prop := Near p v (.holder w)

lemma Within.reflTransGen (h : Within p c d) : Relation.ReflTransGen (Passes p) c d :=
  Relation.ReflTransGen.mono (fun _ _ hstep => hstep.1) _ _ h

lemma Near.carries (h : Near p v c) : Carries p v c := by
  obtain ⟨d, hd, hc⟩ := h
  exact .head hd hc.reflTransGen

lemma carries_of_reaches (h : Relation.ReflTransGen (Hop p) v w) : Carries p v (.holder w) := by
  induction h with
  | refl => exact .refl
  | tail _ hop ih => exact ih.trans hop.carries

/-- Where a value gets to, cut at the last variable on its way. -/
lemma carries_iff : Carries p v c ↔
    ∃ u, Relation.ReflTransGen (Hop p) v u ∧ (c = .holder u ∨ Near p u c) := by
  constructor
  · intro h
    induction h with
    | refl => exact ⟨v, .refl, .inl rfl⟩
    | @tail b c _ hstep ih =>
      obtain ⟨u, hu, rfl | hnear⟩ := ih
      · exact ⟨u, hu, .inr ⟨c, hstep, .refl⟩⟩
      · by_cases hb : ∃ w, b = .holder w
        · obtain ⟨w, rfl⟩ := hb
          exact ⟨w, hu.tail hnear, .inr ⟨c, hstep, .refl⟩⟩
        · obtain ⟨d, hd, hwithin⟩ := hnear
          have hinside : Inside p b c := ⟨hstep, fun w hw => hb ⟨w, hw⟩⟩
          exact ⟨u, hu, .inr ⟨d, hd, hwithin.tail hinside⟩⟩
  · rintro ⟨u, hu, rfl | hnear⟩
    · exact carries_of_reaches hu
    · exact (carries_of_reaches hu).trans hnear.carries

/-- A variable that the graph does not have is not read anywhere. -/
lemma not_near_of_notMem (hv : v ∉ p.graph.variableIds) : ¬Near p v c := by
  rintro ⟨d, ⟨reference, reads⟩, -⟩
  unfold Program.referencesTo at reference
  split at reference
  · rename_i x hx
    exact hv (Graph.mem_variableIds_of_get? hx)
  · cases reference

/-! ## Ways that enter no variable twice -/

/-- One hop to a variable that is not on the stack. -/
def Avoiding (p : Program) (stack : List VariableId) (v w : VariableId) : Prop :=
  Hop p v w ∧ w ∉ stack

/-- What can be reached from a variable can be reached without coming back to it. -/
lemma reaches_avoiding_iff {stack : List VariableId} :
    Relation.ReflTransGen (Avoiding p stack) v u ↔
      u = v ∨ ∃ w, Hop p v w ∧ w ∉ v :: stack ∧
        Relation.ReflTransGen (Avoiding p (v :: stack)) w u := by
  constructor
  · intro h
    -- The way is cut at its last visit to the variable: a hop back to it starts over.
    induction h with
    | refl => exact .inl rfl
    | @tail b c _ hstep ih =>
      obtain ⟨hop, hc⟩ := hstep
      by_cases hcv : c = v
      · exact .inl hcv
      have hnew : c ∉ v :: stack := by simp [hcv, hc]
      rcases ih with rfl | ⟨w, hw, hnot, hway⟩
      · exact .inr ⟨c, hop, hnew, .refl⟩
      · exact .inr ⟨w, hw, hnot, hway.tail ⟨hop, hnew⟩⟩
  · rintro (rfl | ⟨w, hw, hnot, hway⟩)
    · exact .refl
    · have hmono : Avoiding p (v :: stack) ≤ Avoiding p stack :=
        fun _ _ hstep => ⟨hstep.1, fun hmem => hstep.2 (List.mem_cons_of_mem v hmem)⟩
      have hfirst : Avoiding p stack v w := ⟨hw, fun hmem => hnot (List.mem_cons_of_mem v hmem)⟩
      exact .head hfirst (Relation.ReflTransGen.mono hmono _ _ hway)

/-- The stack holds different variables of the program, and the budget suffices for the others. -/
structure Room (p : Program) (budget : Nat) (stack : List VariableId) : Prop where
  nodup : stack.Nodup
  known : stack ⊆ p.graph.variableIds
  enough : p.graph.variableIds.length ≤ stack.length + budget

lemma Room.nil : Room p p.graph.variableIds.length [] :=
  ⟨List.nodup_nil, List.nil_subset _, by simp⟩

/-- There is room for one more variable, and after it for the rest. -/
lemma Room.push {budget : Nat} {stack : List VariableId} (h : Room p budget stack)
    (hv : v ∈ p.graph.variableIds) (hnew : v ∉ stack) :
    ∃ n, budget = n + 1 ∧ Room p n (v :: stack) := by
  have hnodup : (v :: stack).Nodup := List.nodup_cons.2 ⟨hnew, h.nodup⟩
  have hknown : v :: stack ⊆ p.graph.variableIds := List.cons_subset.2 ⟨hv, h.known⟩
  have hlength : (v :: stack).length ≤ p.graph.variableIds.length :=
    (List.subperm_of_subset hnodup hknown).length_le
  have henough := h.enough
  rw [List.length_cons] at hlength
  refine ⟨budget - 1, by omega, hnodup, hknown, ?_⟩
  rw [List.length_cons]
  omega

/-! ## Following variables -/

/-- The search does all that the rules ask for around the given variables. -/
structure Follows (p : Program) (path : List String) (map : TraceMap) (s : Search Tracked)
    (reached : VariableId → Prop) : Prop where
  finishes : s.Finishes ↔ ∀ u, reached u → ∀ c, Near p u c → ¬Faulty p c
  sound : ∀ t ∈ s.toList, t.node.kind = .callExpression →
    ∃ u, reached u ∧ ∃ c, Near p u c ∧ Signals p path map c (.report t)
  complete : s.Finishes → ∀ u, reached u → ∀ c t, Near p u c →
    Signals p path map c (.report t) → t ∈ s.toList

section Following

variable {path : List String} {map : TraceMap}

lemma followVariable_of_mem {n : Nat} {stack : List VariableId} (h : v ∈ stack)
    (reportReads : Bool) : followVariable p n stack v path map reportReads = .done := by
  cases n with
  | zero => rfl
  | succ n => rw [followVariable, if_pos (List.contains_iff_mem.2 h)]

/-- From a variable that the graph does not have, there is nothing to do. -/
lemma follows_done_of_notMem {stack : List VariableId} (hv : v ∉ p.graph.variableIds) :
    Follows p path map .done (Relation.ReflTransGen (Avoiding p stack) v) := by
  have hfar : ∀ u, Relation.ReflTransGen (Avoiding p stack) v u → ∀ c, ¬Near p u c := by
    intro u hu c
    rcases hu.cases_head with rfl | ⟨w, hop, -⟩
    · exact not_near_of_notMem hv
    · exact absurd hop.1 (not_near_of_notMem hv)
  refine ⟨?_, nofun, fun _ u hu c t hc => absurd hc (hfar u hu c)⟩
  exact iff_of_true trivial fun u hu c hc => absurd hc (hfar u hu c)

/-- What comes of an outcome, with the budget and the stack of the variables being followed. -/
def resume (p : Program) (n : Nat) (stack : List VariableId) : Outcome → Search Tracked
  | .report t => pure t
  | .reach w path map => followVariable p n stack w path map false

lemma followVariable_succ {n : Nat} {stack : List VariableId} (h : v ∉ stack)
    (reportReads : Bool) : followVariable p (n + 1) stack v path map reportReads =
      variableOutcomes p v path map reportReads >>= resume p n (v :: stack) := by
  have hcontains : ¬stack.contains v = true := fun hc => h (List.contains_iff_mem.1 hc)
  rw [followVariable, if_neg hcontains]
  congr 1

variable (hmap : map.members = []) {reportReads : Bool}
include hmap

/-! ### One variable -/

lemma finishes_variableOutcomes : (variableOutcomes p v path map reportReads).Finishes ↔
    ∀ c, Near p v c → ¬Faulty p c := by
  rw [(explores_variableOutcomes hmap v reportReads).finishes]
  constructor
  · rintro h c ⟨d, hd, hc⟩
    exact h d hd c hc
  · intro h d hd c hc
    exact h c ⟨d, hd, hc⟩

lemma exists_near_of_mem_variableOutcomes {o : Outcome}
    (ho : o ∈ (variableOutcomes p v path map reportReads).toList) (hsignal : o.IsSignal) :
    ∃ c, Near p v c ∧ Signals p path map c o := by
  obtain ⟨d, hd, c, hc, hco⟩ :=
    (explores_variableOutcomes hmap v reportReads).sound o ho hsignal
  exact ⟨c, ⟨d, hd, hc⟩, hco⟩

lemma mem_variableOutcomes {o : Outcome}
    (hfinishes : (variableOutcomes p v path map reportReads).Finishes) (hc : Near p v c)
    (ho : Signals p path map c o) :
    o ∈ (variableOutcomes p v path map reportReads).toList := by
  obtain ⟨d, hd, hc⟩ := hc
  exact (explores_variableOutcomes hmap v reportReads).complete hfinishes d hd c o hc ho

/-- The variables that are reached are those one hop away, and the value is the same there. -/
lemma hop_of_mem_variableOutcomes {path' : List String} {map' : TraceMap}
    (h : .reach w path' map' ∈ (variableOutcomes p v path map reportReads).toList) :
    Hop p v w ∧ path' = path ∧ map' = map := by
  obtain ⟨c, hc, hsignal⟩ := exists_near_of_mem_variableOutcomes hmap h trivial
  cases hsignal
  exact ⟨hc, rfl, rfl⟩

/-! ### One variable after the other -/

/-- If following a variable does what the rules ask for from each variable that is one hop away and
not on the stack, it does so from the variable itself. -/
lemma follows_step {n : Nat} {stack : List VariableId} (hnew : v ∉ stack)
    (ih : ∀ w, Hop p v w → w ∉ v :: stack →
      Follows p path map (followVariable p n (v :: stack) w path map false)
        (Relation.ReflTransGen (Avoiding p (v :: stack)) w)) :
    Follows p path map (followVariable p (n + 1) stack v path map reportReads)
      (Relation.ReflTransGen (Avoiding p stack) v) := by
  rw [followVariable_succ hnew]
  refine ⟨?_, ?_, ?_⟩
  · rw [finishes_bind]
    constructor
    · rintro ⟨hfirst, hrest⟩ u hu c hc
      rcases reaches_avoiding_iff.1 hu with rfl | ⟨w, hop, hnot, hu⟩
      · exact (finishes_variableOutcomes hmap).1 hfirst c hc
      · have hw := hrest _ (mem_variableOutcomes hmap hfirst hop (.reach w))
        exact (ih w hop hnot).finishes.1 hw u hu c hc
    · intro h
      refine ⟨(finishes_variableOutcomes hmap).2 (h v .refl), fun o ho => ?_⟩
      cases o with
      | report t => trivial
      | reach w path' map' =>
        obtain ⟨hop, rfl, rfl⟩ := hop_of_mem_variableOutcomes hmap ho
        by_cases hw : w ∈ v :: stack
        · rw [resume, followVariable_of_mem hw]
          trivial
        · refine (ih w hop hw).finishes.2 fun u hu => h u ?_
          exact reaches_avoiding_iff.2 (.inr ⟨w, hop, hw, hu⟩)
  · intro t ht hcall
    obtain ⟨o, ho, hto⟩ := exists_of_mem_toList_bind ht
    cases o with
    | report t' =>
      obtain rfl : t = t' := List.mem_singleton.1 hto
      obtain ⟨c, hc, hsignal⟩ := exists_near_of_mem_variableOutcomes hmap ho hcall
      exact ⟨v, .refl, c, hc, hsignal⟩
    | reach w path' map' =>
      obtain ⟨hop, rfl, rfl⟩ := hop_of_mem_variableOutcomes hmap ho
      by_cases hw : w ∈ v :: stack
      · rw [resume, followVariable_of_mem hw] at hto
        cases hto
      · obtain ⟨u, hu, hc⟩ := (ih w hop hw).sound t hto hcall
        exact ⟨u, reaches_avoiding_iff.2 (.inr ⟨w, hop, hw, hu⟩), hc⟩
  · intro hfinishes u hu c t hc ht
    obtain ⟨hfirst, hrest⟩ := finishes_bind.1 hfinishes
    rcases reaches_avoiding_iff.1 hu with rfl | ⟨w, hop, hnot, hu⟩
    · exact mem_toList_bind hfinishes (mem_variableOutcomes hmap hfirst hc ht)
        List.mem_cons_self
    · have hmem := mem_variableOutcomes hmap hfirst hop (.reach w)
      exact mem_toList_bind hfinishes hmem
        ((ih w hop hnot).complete (hrest _ hmem) u hu c t hc ht)

/-- Following a variable that is not on the stack does what the rules ask for around all variables
that can be reached from it without entering those on the stack. -/
lemma follows_followVariable {n : Nat} {stack : List VariableId} (hroom : Room p n stack)
    (hnew : v ∉ stack) : Follows p path map (followVariable p n stack v path map reportReads)
      (Relation.ReflTransGen (Avoiding p stack) v) := by
  induction n generalizing stack v reportReads with
  | zero =>
    have hv : v ∉ p.graph.variableIds := by
      intro hv
      obtain ⟨n, hn, -⟩ := hroom.push hv hnew
      cases hn
    exact follows_done_of_notMem hv
  | succ n ih =>
    by_cases hv : v ∈ p.graph.variableIds
    · obtain ⟨m, hm, hroom⟩ := hroom.push hv hnew
      obtain rfl : n = m := Nat.succ_injective hm
      exact follows_step hmap hnew fun w _ hw => ih hroom hw
    · exact follows_step hmap hnew fun w hop _ => absurd hop (not_near_of_notMem hv)

/-- Following a variable does what the rules ask for around all variables that its value gets to. -/
lemma follows_follow (v : VariableId) (reportReads : Bool) :
    Follows p path map (follow p v path map reportReads) (Relation.ReflTransGen (Hop p) v) := by
  have havoid : Avoiding p [] = Hop p := by
    ext a b
    simp [Avoiding]
  rw [← havoid]
  exact follows_followVariable hmap Room.nil List.not_mem_nil

end Following

/-! ## The calls of a function -/

/-- What has the value is a node of the program. -/
lemma has_of_carries {e : Node} (h : Carries p v (.expression e)) : p.Has e := by
  generalize hc : Carrier.expression e = c at h
  induction h generalizing e with
  | refl => cases hc
  | tail _ hstep ih =>
    cases hstep with
    | read reference =>
      cases hc
      exact (Program.has_of_mem_referencesTo reference).1
    | wrapped parent | assignment parent =>
      cases hc
      exact ((ih rfl).parent parent).1
    | bound | default | name => cases hc

/-- What is reported of a place is a call, with the path of the value and the mark of the map. -/
lemma Signals.report_eq {path : List String} {map : TraceMap} {info : Info} {t : Tracked}
    (h : Signals p path map c (.report t)) (hmark : map.mark .call = some info) :
    t = ⟨t.node, path, .call, info⟩ := by
  cases h with
  | call _ _ _ mark =>
    obtain rfl : _ = info := Option.some.inj (mark.symm.trans hmark)
    rfl

/-- Calls of the value are what is signalled around the variables that the value gets to. -/
lemma carriedCall_iff {path : List String} {map : TraceMap} {info : Info}
    (hmark : map.mark .call = some info) {q : Node} :
    CarriedCall p v q ↔ ∃ u, Relation.ReflTransGen (Hop p) v u ∧
      ∃ c, Near p u c ∧ Signals p path map c (.report ⟨q, path, .call, info⟩) := by
  constructor
  · rintro ⟨hq, hkind, e, he, hcarries⟩
    obtain ⟨u, hu, heq | hnear⟩ := carries_iff.1 hcarries
    · cases heq
    · have hparent := hq.parent?_of_mem_children (Shape.mem_children_of_child he)
      exact ⟨u, hu, _, hnear, .call hparent hkind he hmark⟩
  · rintro ⟨u, hu, c, hnear, hsignal⟩
    cases hsignal with
    | call parent isCall callee =>
      have hcarries := carries_iff.2 ⟨u, hu, .inr hnear⟩
      exact ⟨((has_of_carries hcarries).parent parent).1, isCall, _, callee, hcarries⟩

/-- There is a fault around the variables that the value gets to if there is one where the value
gets to. -/
lemma forall_not_faulty_iff : (∀ c, Carries p v c → ¬Faulty p c) ↔
    ∀ u, Relation.ReflTransGen (Hop p) v u → ∀ c, Near p u c → ¬Faulty p c := by
  constructor
  · intro h u hu c hc
    exact h c (carries_iff.2 ⟨u, hu, .inr hc⟩)
  · intro h c hc
    obtain ⟨u, hu, rfl | hnear⟩ := carries_iff.1 hc
    · exact id
    · exact h u hu c hnear

/-- **Calls of a function.**  Following the value of a variable with a map that asks for calls and
has no members breaks off exactly if the value gets to a place with a fault.  If it does not, the
calls that are reported are exactly those whose callee has the value.  If it does, all calls that
are reported before are such calls. -/
theorem calls_follow_iff (p : Program) (v : VariableId) (path : List String) {map : TraceMap}
    {info : Info} (hmap : map.members = []) (hmark : map.mark .call = some info)
    (reportReads : Bool) :
    ((∃ ts, (follow p v path map reportReads).toExcept = .ok ts) ↔
      ∀ c, Carries p v c → ¬Faulty p c) ∧
    (∀ ts, (follow p v path map reportReads).toExcept = .ok ts →
      ∀ t : Tracked, t ∈ ts ∧ t.node.kind = .callExpression ↔
        ∃ q, CarriedCall p v q ∧ t = ⟨q, path, .call, info⟩) ∧
    ∀ t ∈ (follow p v path map reportReads).toList, t.node.kind = .callExpression →
      CarriedCall p v t.node := by
  have h : Follows p path map (follow p v path map reportReads) _ :=
    follows_follow hmap v reportReads
  have hsound : ∀ t ∈ (follow p v path map reportReads).toList, t.node.kind = .callExpression →
      CarriedCall p v t.node ∧ t = ⟨t.node, path, .call, info⟩ := by
    intro t ht hcall
    obtain ⟨u, hu, c, hc, hsignal⟩ := h.sound t ht hcall
    have heq := hsignal.report_eq hmark
    rw [heq] at hsignal
    exact ⟨(carriedCall_iff hmark).2 ⟨u, hu, c, hc, hsignal⟩, heq⟩
  refine ⟨?_, ?_, fun t ht hcall => (hsound t ht hcall).1⟩
  · rw [forall_not_faulty_iff, ← h.finishes]
    constructor
    · rintro ⟨ts, hts⟩
      exact (toExcept_ok_iff.1 hts).1
    · intro hfinishes
      exact ⟨_, hfinishes.toExcept⟩
  · intro ts hts t
    obtain ⟨hfinishes, rfl⟩ := toExcept_ok_iff.1 hts
    constructor
    · rintro ⟨ht, hcall⟩
      exact ⟨t.node, hsound t ht hcall⟩
    · rintro ⟨q, hq, rfl⟩
      obtain ⟨u, hu, c, hc, hsignal⟩ := (carriedCall_iff hmark).1 hq
      exact ⟨h.complete hfinishes u hu c _ hc hsignal, hq.2.1⟩

/-! ### A circle of variables -/

/-- The map of a function whose calls are asked for. -/
def functionMap : TraceMap := .mk { call := some .flag } []

/-- The program `let a,b=a;a=b;b()`, in which two variables are assigned to each other. -/
def exchange : Except Fault Program :=
  Program.analyze ⟨"let a,b=a;a=b;b()".toUTF8.toList⟩ {} <|
    .node "program" none 0 17
      [.node "lexical_declaration" none 0 10
        [.token "let" (some "kind") 0 3,
         .node "variable_declarator" none 4 5 [.identifier (some "name") 4 5],
         .node "variable_declarator" none 6 9
          [.identifier (some "name") 6 7, .identifier (some "value") 8 9]],
       .node "expression_statement" none 10 14
        [.node "assignment_expression" none 10 13
          [.identifier (some "left") 10 11, .identifier (some "right") 12 13]],
       .node "expression_statement" none 14 17
        [.node "call_expression" none 14 17
          [.identifier (some "function") 14 15, .node "arguments" (some "arguments") 15 17 []]]]

/-- In the exchange the value of `a` is called under the name `b`, and this is reported. -/
theorem calls_follow_exchange : ∃ p ts q, exchange = .ok p ∧ functionMap.members = [] ∧
    functionMap.mark .call = some .flag ∧
    (follow p ⟨1, "a"⟩ [] functionMap false).toExcept = .ok ts ∧ q.id = 12 ∧
    (⟨q, [], .call, .flag⟩ : Tracked) ∈ ts ∧ CarriedCall p ⟨1, "a"⟩ q := by
  have hall : exchange.toOption.any fun p =>
      (follow p ⟨1, "a"⟩ [] functionMap false).toExcept.toOption.any fun ts =>
        ts.any fun t => t.node.id == 12 && t.node.kind == .callExpression := by decide +kernel
  obtain ⟨p, hp, hall⟩ := exists_ok_of_any hall
  obtain ⟨ts, hts, hall⟩ := exists_ok_of_any hall
  obtain ⟨t, ht, hall⟩ := List.any_eq_true.1 hall
  obtain ⟨hid, hkind⟩ := Bool.and_eq_true_iff.1 hall
  have hmembers : functionMap.members = [] := rfl
  have hmark : functionMap.mark .call = some .flag := rfl
  obtain ⟨-, hcalls, -⟩ := calls_follow_iff p ⟨1, "a"⟩ [] hmembers hmark false
  obtain ⟨q, hq, rfl⟩ := (hcalls ts hts t).1 ⟨ht, beq_iff_eq.1 hkind⟩
  exact ⟨p, ts, q, hp, hmembers, hmark, hts, beq_iff_eq.1 hid, ht, hq⟩

/-! ### A declaration that is not known -/

/-- The program `import {ref} from 'vue';using x=ref;ref(0)`.  Its second statement is converted
without the parts that a declaration has. -/
def usingProgram : Except Fault Program :=
  Program.analyze ⟨"import {ref} from 'vue';using x=ref;ref(0)".toUTF8.toList⟩ {} <|
    .node "program" none 0 42
      [.node "import_statement" none 0 24
        [.node "import_clause" none 7 12
          [.node "named_imports" none 7 12
            [.node "import_specifier" none 8 11 [.identifier (some "name") 8 11]]],
         .node "string" (some "source") 18 23 []],
       .node "using_declaration" none 24 36
        [.token "using" (some "kind") 24 29,
         .node "variable_declarator" none 30 35
          [.identifier (some "name") 30 31, .identifier (some "value") 32 35]],
       .node "expression_statement" none 36 42
        [.node "call_expression" none 36 42
          [.identifier (some "function") 36 39,
           .node "arguments" (some "arguments") 39 42 [.node "number" none 40 41 []]]]]

/-- The call `ref(0)` is a call of the imported function, and following the function breaks off
before it comes to it. -/
theorem follow_using_breaks : ∃ p q, usingProgram = .ok p ∧ CarriedCall p ⟨1, "ref"⟩ q ∧
    follow p ⟨1, "ref"⟩ [] functionMap false =
      .broken (.missingField .variableDeclarator .init) := by
  have hall : usingProgram.toOption.any fun p =>
      ((p.referencesTo ⟨1, "ref"⟩).any fun r => r.access.reads &&
        (p.parent? r.identifier).any fun q => q.kind == .callExpression &&
          (q.child .callee).toOption.any fun o => r.identifier.isNode o) &&
      match follow p ⟨1, "ref"⟩ [] functionMap false with
      | .broken f => f == .missingField .variableDeclarator .init
      | _ => false := by decide +kernel
  obtain ⟨p, hp, hall⟩ := exists_ok_of_any hall
  obtain ⟨hcall, hbreaks⟩ := Bool.and_eq_true_iff.1 hall
  obtain ⟨r, hr, hall⟩ := List.any_eq_true.1 hcall
  obtain ⟨hreads, hall⟩ := Bool.and_eq_true_iff.1 hall
  obtain ⟨q, hq, hall⟩ := (Option.any_eq_true _ _).1 hall
  obtain ⟨hkind, hall⟩ := Bool.and_eq_true_iff.1 hall
  obtain ⟨o, ho, hnode⟩ := exists_ok_of_any hall
  have hidentifier := (Program.has_of_mem_referencesTo hr).1
  have hhas := (hidentifier.parent hq).1
  rw [(hidentifier.isNode_iff hhas ho).1 hnode] at ho
  refine ⟨p, q, hp, ⟨hhas, beq_iff_eq.1 hkind, _, ho, .single (.read hr hreads)⟩, ?_⟩
  split at hbreaks
  · rename_i f hf
    rw [hf, beq_iff_eq.1 hbreaks]
  · cases hbreaks

end Trace

end RefFlow
