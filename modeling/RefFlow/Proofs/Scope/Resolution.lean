import Mathlib.Logic.Relation
import RefFlow.Proofs.Scope.Nested
import RefFlow.Proofs.Scope.Run

/-!
# What the names of a program mean

A name means the variable of the nearest scope around it that declares the name.  This module states
that rule on the finished scope graph, and shows that scope analysis follows it although it never
sees the finished graph: it settles references one scope at a time, while declarations are still
being made further out.

* `Graph.Nearest g name i v` is the rule: going outward from the scope `i` by way of `upper`, `v` is
  the variable of the first scope that declares `name`.  `lookup_eq_some_iff` and
  `lookup_eq_none_iff` relate it to the function that looks names up.
* `openScopes_run` shows that all scopes of a program are closed in the end, so that the invariant
  of the analysis has nothing pending left; hence every reference means what looking its name up in
  the finished graph gives (`resolved_eq_lookup`).
* `occurrences_run` shows that the references of the graph are the mentions of the events, in order,
  so that each stands on an identifier of the program with its name (`named_of_mem_references`).
-/

namespace RefFlow

open Fallible

/-! ## Looking a name up -/

namespace Graph

/-- The scope `j` is right around the scope `i`. -/
def IsUpper (g : Graph) (i j : Nat) : Prop := ∃ s, g.scopes[i]? = some s ∧ s.upper = some j

/-- The scope `j` is reached from the scope `i` by going outward any number of times. -/
def Outward (g : Graph) : Nat → Nat → Prop := Relation.ReflTransGen g.IsUpper

/-- Going outward from a scope, the variable belongs to the first scope that declares the name. -/
inductive Nearest (g : Graph) (name : String) : Nat → VariableId → Prop
  | here {i : Nat} (declares : g.declares i name = true) : Nearest g name i ⟨i, name⟩
  | outward {i j : Nat} {v : VariableId} (passes : g.declares i name = false)
      (upper : g.IsUpper i j) : Nearest g name j v → Nearest g name i v

variable {g : Graph} {i j : Nat} {name : String} {v : VariableId}

lemma Nearest.name_eq (h : g.Nearest name i v) : v.name = name := by
  induction h with
  | here => rfl
  | outward _ _ _ ih => exact ih

lemma isUpper_iff : g.IsUpper i j ↔ ∃ js, g.chain i = i :: j :: js := by
  unfold IsUpper chain
  rw [outline_getElem?]
  cases g.scopes[i]? with
  | none => simp
  | some s =>
    have hs : s.upper = some j ↔ ∃ js, s.outer = j :: js := by
      simp [Scope.upper, List.head?_eq_some_iff]
    simpa [Scope.outline] using hs

lemma IsUpper.lt (hg : Rooted g.outline) (h : g.IsUpper i j) : j < i := by
  obtain ⟨s, hs, hupper⟩ := h
  have ho : g.outline[i]? = some s.outline := by rw [outline_getElem?, hs]; rfl
  exact hg.lt ho j (List.mem_of_head? hupper)

lemma rightUnique_isUpper (g : Graph) : Relator.RightUnique g.IsUpper := by
  rintro i j j' ⟨s, hs, hj⟩ ⟨t, ht, hj'⟩
  obtain rfl : s = t := Option.some_inj.1 (hs.symm.trans ht)
  exact Option.some_inj.1 (hj.symm.trans hj')

lemma Outward.le (hg : Rooted g.outline) (h : g.Outward i j) : j ≤ i := by
  induction h with
  | refl => exact Nat.le_refl i
  | tail _ hupper ih => exact Nat.le_trans (Nat.le_of_lt (hupper.lt hg)) ih

lemma Outward.antisymm (hg : Rooted g.outline) (h : g.Outward i j) (h' : g.Outward j i) : i = j :=
  Nat.le_antisymm (h'.le hg) (h.le hg)

/-- Of two scopes around a third one, one is around the other. -/
lemma Outward.total {k : Nat} (h : g.Outward i j) (h' : g.Outward i k) :
    g.Outward j k ∨ g.Outward k j :=
  Relation.ReflTransGen.total_of_right_unique g.rightUnique_isUpper h h'

/-- The scopes around the upper scope are the other scopes around. -/
lemma chain_upper (hg : Rooted g.outline) {js : List Nat} (h : g.chain i = i :: j :: js) :
    g.chain j = j :: js := by
  unfold chain at h
  cases ho : g.outline[i]? with
  | none => simp [ho] at h
  | some o =>
    have houter : o.outer = j :: js := by simpa [ho] using h
    obtain ⟨x, hx⟩ := hg.upper ho houter
    rw [chain_of_outline hx]

lemma exists_chain_eq (g : Graph) (i : Nat) : ∃ outer, g.chain i = i :: outer := ⟨_, rfl⟩

/-- The scopes reached by going outward are those listed around a scope. -/
lemma outward_iff_mem_chain (hg : Rooted g.outline) : g.Outward i j ↔ j ∈ g.chain i := by
  obtain ⟨outer, ho⟩ := g.exists_chain_eq i
  induction outer generalizing i with
  | nil =>
    rw [ho, List.mem_singleton, Outward, Relation.ReflTransGen.cases_head_iff]
    constructor
    · rintro (rfl | ⟨k, hk, -⟩)
      · rfl
      · obtain ⟨ks, hks⟩ := isUpper_iff.1 hk
        simp [ho] at hks
    · exact fun h => .inl h.symm
  | cons k ks ih =>
    have hk := chain_upper hg ho
    rw [ho, List.mem_cons, ← hk, ← ih hk, Outward, Relation.ReflTransGen.cases_head_iff]
    refine or_congr eq_comm ⟨?_, fun h => ⟨k, isUpper_iff.2 ⟨ks, ho⟩, h⟩⟩
    rintro ⟨k', hk', h⟩
    obtain ⟨ks', hks'⟩ := isUpper_iff.1 hk'
    obtain rfl : k = k' := by
      rw [ho] at hks'
      simpa using (List.cons.inj (List.cons.inj hks').2).1
    exact h

/-- Looking a name up finds the variable of the nearest scope that declares it. -/
theorem lookup_eq_some_iff (hg : Rooted g.outline) :
    g.lookup i name = some v ↔ g.Nearest name i v := by
  rw [lookup_eq_findSome?]
  obtain ⟨outer, ho⟩ := g.exists_chain_eq i
  induction outer generalizing i with
  | nil =>
    rw [ho, List.findSome?_cons, List.findSome?_nil]
    cases hd : g.declares i name with
    | true =>
      constructor
      · intro h
        cases h
        exact .here hd
      · rintro (_ | ⟨hnot, -, -⟩)
        · rfl
        · simp [hd] at hnot
    | false =>
      constructor
      · intro h
        cases h
      · rintro (hd' | ⟨-, hup, -⟩)
        · simp [hd] at hd'
        · obtain ⟨js, hjs⟩ := isUpper_iff.1 hup
          simp [ho] at hjs
  | cons k ks ih =>
    have hk := chain_upper hg ho
    rw [ho, List.findSome?_cons]
    cases hd : g.declares i name with
    | true =>
      constructor
      · intro h
        cases h
        exact .here hd
      · rintro (_ | ⟨hnot, -, -⟩)
        · rfl
        · simp [hd] at hnot
    | false =>
      rw [← hk]
      refine (ih hk).trans ⟨.outward hd (isUpper_iff.2 ⟨ks, ho⟩), ?_⟩
      rintro (hd' | ⟨-, hup, hv⟩)
      · simp [hd] at hd'
      · obtain ⟨js, hjs⟩ := isUpper_iff.1 hup
        rw [ho] at hjs
        rw [(List.cons.inj (List.cons.inj hjs).2).1]
        exact hv

/-- Looking a name up finds nothing if no scope further out declares it. -/
theorem lookup_eq_none_iff (hg : Rooted g.outline) :
    g.lookup i name = none ↔ ∀ j, g.Outward i j → g.declares j name = false := by
  rw [lookup_eq_findSome?, List.findSome?_eq_none_iff]
  refine forall_congr' fun j => ?_
  rw [outward_iff_mem_chain hg]
  simp

end Graph

/-! ## The end of a run -/

namespace Analysis

variable {a b : Analysis} {n : Node} {es : List Event}

/-- A reference that is settled means what its name means in the scope where it stands. -/
lemma Settled.resolved_eq {r : Reference} (h : a.Settled r) :
    r.resolved = a.graph.lookup r.scope r.name := by
  obtain ⟨passed, rest, hchain, hpassed, hrest⟩ := h
  have hnone : (passed.findSome? fun j =>
      if a.graph.declares j r.name then some (⟨j, r.name⟩ : VariableId) else none) = none := by
    rw [List.findSome?_eq_none_iff]
    intro i hi
    rw [(hpassed i hi).2.2]
    rfl
  rw [Graph.lookup_eq_findSome?, hchain, List.findSome?_append, hnone, Option.none_or]
  rcases hrest with ⟨rfl, hr⟩ | ⟨j, js, rfl, -, -, hd, hr⟩
  · exact hr
  · rw [hr, List.findSome?_cons_of_isSome (by rw [hd]; rfl), if_pos hd]

lemma openScopes_inScope {hoisted : Bool} {f : Scope → Scope} (h : a.inScope hoisted f = .ok b) :
    b.openScopes = a.openScopes := by
  unfold inScope at h
  split at h
  · cases h
  · cases h
    rfl

lemma openScopes_mention {o : Occurrence} (h : a.mention o = .ok b) :
    b.openScopes = a.openScopes := by
  unfold mention at h
  split at h
  · cases h
  · rename_i hf
    cases h
    simp [openScopes, hf]

lemma openScopes_enter (a : Analysis) (kind : ScopeKind) (block : Node) :
    (a.enter kind block).openScopes = a.graph.scopes.length :: a.openScopes := by
  simp [openScopes, frames_enter]

lemma openScopes_leave (h : a.leave = .ok b) : b.openScopes = a.openScopes.tail := by
  obtain ⟨u, us, c⟩ := closing_of_leave h
  rw [c.openScopes, openScopes, c.before]
  rfl

/-- After the events of a construct the same scopes are open as before. -/
lemma openScopes_run (hn : Event.Nested n es) (h : es.foldlM step a = .ok b) :
    b.openScopes = a.openScopes := by
  induction hn generalizing a b with
  | nil =>
    cases h
    rfl
  | append _ _ ih ih' =>
    rw [List.foldlM_append] at h
    obtain ⟨c, hc, hb⟩ := bind_ok_iff.1 h
    rw [ih' hb, ih hc]
  | hoist => exact openScopes_inScope (by simpa [step] using h)
  | declare => exact openScopes_inScope (by simpa [step] using h)
  | define => exact openScopes_inScope (by simpa [step] using h)
  | mention => exact openScopes_mention (by simpa [step] using h)
  | @within n block kind es _ _ _ ih =>
    rw [Event.within, List.cons_append, List.foldlM_cons] at h
    obtain ⟨c, hc, h⟩ := bind_ok_iff.1 h
    cases hc
    rw [List.foldlM_append] at h
    obtain ⟨d, hd, h⟩ := bind_ok_iff.1 h
    rw [openScopes_leave (by simpa [step] using h), ih hd, openScopes_enter, List.tail_cons]

end Analysis

namespace Node

variable {sourceType : String} {globals : List String} {root : Node} {g : Graph}

/-- The graph of a program is the one that its events lead to. -/
lemma exists_run (h : root.scopeGraph sourceType globals = .ok g) : ∃ es b,
    root.events sourceType globals = .ok es ∧ es.foldlM Analysis.step {} = .ok b ∧ b.graph = g := by
  obtain ⟨es, hes, h⟩ := bind_ok_iff.1 h
  obtain ⟨b, hb, h⟩ := bind_ok_iff.1 h
  exact ⟨es, b, hes, hb, pure_ok_iff.1 h⟩

/-- The scopes of a program stand in each other, and each reference means what looking its name up
in the finished graph gives. -/
lemma resolved_eq_lookup (h : root.scopeGraph sourceType globals = .ok g) :
    Rooted g.outline ∧ ∀ r ∈ g.references, r.resolved = g.lookup r.scope r.name := by
  obtain ⟨es, b, hes, hb, rfl⟩ := exists_run h
  obtain ⟨-, hinv⟩ := Analysis.invariant_initial.run hb
  refine ⟨hinv.rooted, fun r hr => ?_⟩
  have hclosed : b.frames = [] := by
    have hopen := Analysis.openScopes_run (Event.nested_events hes) hb
    simpa [Analysis.openScopes] using hopen
  obtain ⟨k, hk⟩ := List.mem_iff_getElem?.1 hr
  rcases hinv.settled hk with ⟨f, hf, -⟩ | hs
  · simp [hclosed] at hf
  · exact hs.resolved_eq

end Node

/-! ## References and mentions -/

/-- The occurrences that an event mentions. -/
def Event.uses : Event → List Occurrence
  | .mention o => [o]
  | _ => []

lemma Event.Nested.named {n : Node} {es : List Event} (h : Nested n es) {o : Occurrence}
    (ho : o ∈ es.flatMap uses) : n.Contains o.identifier ∧
      o.identifier.kind = .identifier ∧ o.identifier.text? .name = .ok (some o.name) := by
  induction h with
  | nil => cases ho
  | append _ _ ih ih' =>
    rw [List.flatMap_append, List.mem_append] at ho
    exact ho.elim ih ih'
  | mention inside isIdentifier named =>
    obtain rfl : o = _ := by simpa [uses] using ho
    exact ⟨inside, isIdentifier, named⟩
  | within inside _ _ ih =>
    obtain ⟨h, hrest⟩ := ih (by simpa [Event.within, uses] using ho)
    exact ⟨inside.trans h, hrest⟩
  | _ => simp [uses] at ho

namespace Analysis

variable {a b : Analysis} {es : List Event}

/-- The occurrences of the references that are known. -/
def occurrences (a : Analysis) : List Occurrence := a.graph.references.map (·.toOccurrence)

lemma toOccurrence_resolveIn (g : Graph) (scope : Nat) (r : Reference) :
    (resolveIn g scope r).toOccurrence = r.toOccurrence := by
  unfold resolveIn
  split <;> rfl

lemma occurrences_inScope {hoisted : Bool} {f : Scope → Scope} (h : a.inScope hoisted f = .ok b) :
    b.occurrences = a.occurrences := by
  unfold inScope at h
  split at h
  · cases h
  · cases h
    rfl

lemma occurrences_leave (h : a.leave = .ok b) : b.occurrences = a.occurrences := by
  obtain ⟨u, us, c⟩ := closing_of_leave h
  apply List.ext_getElem?
  intro k
  simp only [occurrences, List.getElem?_map, c.references, Option.map_map]
  congr 1
  funext r
  simp only [Function.comp_apply]
  split
  · exact toOccurrence_resolveIn ..
  · rfl

lemma occurrences_step {e : Event} (h : a.step e = .ok b) :
    b.occurrences = a.occurrences ++ e.uses := by
  cases e with
  | enter kind block =>
    cases h
    rw [occurrences, references_enter]
    exact (List.append_nil _).symm
  | leave => simp [occurrences_leave h, Event.uses]
  | hoist => simp [occurrences_inScope h, Event.uses]
  | declare name => simp [occurrences_inScope h, Event.uses]
  | define hoisted d => simp [occurrences_inScope h, Event.uses]
  | mention o =>
    simp only [step, mention] at h
    split at h
    · cases h
    · cases h
      simp [occurrences, Event.uses, Graph.modifyScope]

/-- The references of a run are the mentions of its events, in order. -/
lemma occurrences_run (h : es.foldlM step a = .ok b) :
    b.occurrences = a.occurrences ++ es.flatMap Event.uses := by
  induction es generalizing a with
  | nil =>
    cases h
    exact (List.append_nil _).symm
  | cons e es ih =>
    rw [List.foldlM_cons] at h
    obtain ⟨c, hc, h⟩ := bind_ok_iff.1 h
    rw [ih h, occurrences_step hc, List.append_assoc, List.flatMap_cons]

end Analysis

namespace Node

variable {sourceType : String} {globals : List String} {root : Node} {g : Graph}

/-- Every reference stands on an identifier of the program, which bears its name. -/
lemma named_of_mem_references (h : root.scopeGraph sourceType globals = .ok g) {r : Reference}
    (hr : r ∈ g.references) : root.Contains r.identifier ∧ r.identifier.kind = .identifier ∧
      r.identifier.text? .name = .ok (some r.name) := by
  obtain ⟨es, b, hes, hb, rfl⟩ := exists_run h
  apply (Event.nested_events hes).named
  have hmem : r.toOccurrence ∈ b.occurrences := List.mem_map_of_mem hr
  rw [Analysis.occurrences_run hb] at hmem
  simpa [Analysis.occurrences] using hmem

end Node

/-! ## Resolution -/

/-- **References mean the nearest declaration.**  In a program that can be analysed, a reference is
resolved to the variable of the nearest scope, going outward from its own, that declares the name of
its identifier in the finished graph; and it is unresolved exactly if none of these scopes declares
the name. -/
theorem Graph.resolved_iff_nearest {sourceType : String} {globals : List String} {root : Node}
    {g : Graph} (h : root.scopeGraph sourceType globals = .ok g) {r : Reference}
    (hr : r ∈ g.references) :
    r.identifier.text? .name = .ok (some r.name) ∧
      (∀ v, r.resolved = some v ↔ g.Nearest r.name r.scope v) ∧
      (r.resolved = none ↔ ∀ i, g.Outward r.scope i → g.declares i r.name = false) := by
  obtain ⟨hrooted, hlookup⟩ := Node.resolved_eq_lookup h
  obtain ⟨-, -, hnamed⟩ := Node.named_of_mem_references h hr
  rw [hlookup r hr]
  exact ⟨hnamed, fun v => Graph.lookup_eq_some_iff hrooted, Graph.lookup_eq_none_iff hrooted⟩

/-- A node of a tree that comes from no text, and whose nodes are not told apart. -/
def Node.unplaced (k : Kind) (fs : List (Field × Slot Node)) : Node := .mk 0 ⟨k, ⟨0, 0⟩, fs⟩

/-- The program `() => { a; { var a } }`, in which a variable is declared further inside than it is
used, and later. -/
def Node.lateDeclaration : Node :=
  let a := unplaced .identifier [(.name, .text "a")]
  let use := unplaced .expressionStatement [(.expression, .node a)]
  let declarator := unplaced .variableDeclarator [(.id, .node a), (.init, .blank)]
  let declaration := unplaced .variableDeclaration
    [(.kind, .text "var"), (.declarations, .ofList [declarator])]
  let block := unplaced .blockStatement [(.body, .ofList [declaration])]
  let body := unplaced .blockStatement [(.body, .ofList [use, block])]
  let function := unplaced .arrowFunctionExpression [(.params, .ofList []), (.body, .node body)]
  let statement := unplaced .expressionStatement [(.expression, .node function)]
  unplaced .program [(.body, .ofList [statement])]

/-- The late declaration is met although there is a global variable of the same name. -/
theorem Graph.resolved_lateDeclaration :
    ∃ g, Node.lateDeclaration.scopeGraph "module" ["a"] = .ok g ∧ g.declares 0 "a" = true ∧
      ∃ r ∈ g.references, g.Nearest r.name r.scope ⟨2, "a"⟩ := by
  have hall : (Node.lateDeclaration.scopeGraph "module" ["a"]).toOption.any fun g =>
      g.declares 0 "a" && g.references.any fun r => r.resolved = some ⟨2, "a"⟩ := by decide +kernel
  obtain ⟨g, h, hall⟩ := exists_ok_of_any hall
  obtain ⟨hglobal, hany⟩ := Bool.and_eq_true_iff.1 hall
  obtain ⟨r, hr, hresolved⟩ := List.any_eq_true.1 hany
  have hnearest := ((resolved_iff_nearest h hr).2.1 _).1 (of_decide_eq_true hresolved)
  exact ⟨g, h, hglobal, r, hr, hnearest⟩

end RefFlow
