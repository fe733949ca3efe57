import RefFlow.Proofs.Property.Runs
import RefFlow.Proofs.Unbounded

/-!
# Extracting properties comes to an end

An extractor goes from a pattern to the variables in it, from a variable to its reads, and from an
expression to the pattern that it is bound to.  On the way it takes defaults off patterns and climbs
over type assertions, and variables may be bound to each other in circles; all that is known of it
is that a variable is marked as visited before its reads are gone through.

Here it is written down without a budget, together with an account of the variables whose reads have
been gone through.  `Question.ends_walkAll` shows for any number of questions to one extractor,
whatever it remembers at first: each of them comes to an end, with the answer that the extractor
with the budget gives, and the reads of no variable are gone through twice.
-/

namespace RefFlow

open Fallible

namespace Property

open Trace (Carrier)

/-! ## Walks -/

/-- What an extractor remembers, and an account of what it does. -/
structure Journal where
  memo : Memo := {}
  /-- The variables whose reads have been gone through, the last one first. -/
  entered : List VariableId := []

/-- The variables that are marked, and those that have been entered. -/
def Journal.ledger (j : Journal) : Ledger VariableId := ⟨j.memo.visited, j.entered⟩

/-- An attempt to follow a value to its properties. -/
abbrev Walk := Attempt Journal

namespace Walk

mutual

/-- The properties that are read from the value bound to a pattern, from memory if possible. -/
def ofPattern (p : Program) (target : Option Node) : Nat → Walk Found
  | 0 => .giveUp
  | depth + 1 =>
    match target with
    | none => return .never
    | some n => do
      match (← get).memo.patterns.get? n.id with
      | some f => return f
      | none =>
        let f ← throughPattern p n depth
        modify fun j => { j with memo.patterns := j.memo.patterns.set n.id f }
        return f

/-- Takes the defaults off a pattern, and looks at what is left. -/
def throughPattern (p : Program) (n : Node) : Nat → Walk Found
  | 0 => .giveUp
  | depth + 1 =>
    match n.kind with
    | .assignmentPattern => do
      match ← n.child .left with
      | some l => throughPattern p l depth
      | none => throw (.missingNode "left")
    | .objectPattern => do objectReads (← n.items .properties)
    | .identifier => do
      match ← p.find n with
      | some v => ofVariable p v depth
      | none => return .never
    | _ => return .any

/-- The properties that are read from the value of a variable, unless it has been visited. -/
def ofVariable (p : Program) (v : VariableId) : Nat → Walk Found
  | 0 => .giveUp
  | depth + 1 => do
    if (← get).memo.visited.contains v then return .never
    else
      modify fun j => { memo := j.memo.visit v, entered := v :: j.entered }
      return .merge (← ((p.referencesTo v).filter (·.access.reads)).mapM fun r =>
        ofExpression p r.identifier depth)

/-- The properties that are read from the value of an expression, from memory if possible. -/
def ofExpression (p : Program) (n : Node) : Nat → Walk Found
  | 0 => .giveUp
  | depth + 1 => do
    match (← get).memo.expressions.get? n.id with
    | some f => return f
    | none =>
      let f ← throughExpression p n depth
      modify fun j => { j with memo.expressions := j.memo.expressions.set n.id f }
      return f

/-- Looks at what the parent of an expression does with its value. -/
def throughExpression (p : Program) (n : Node) : Nat → Walk Found
  | 0 => .giveUp
  | depth + 1 =>
    match p.parent? n with
    | none => return .any
    | some parent =>
      match parent.kind with
      | .memberExpression => do
        if n.isNode (← parent.child .object) then
          match ← parent.staticName with
          | some name => return .member ⟨name, parent, .expression parent⟩
          | none => return .any
        else return .any
      | .assignmentExpression => do
        if (← parent.text? .operator) == some "=" then
          if n.isNode (← parent.child .right) then ofPattern p (← parent.child .left) depth
          else return .any
        else return .any
      | .variableDeclarator => do
        if n.isNode (← parent.child .init) then ofPattern p (← parent.child .id) depth
        else return .any
      | .tsAsExpression | .tsNonNullExpression => ofExpression p parent depth
      | _ => return .any

end

/-! ## What a walk does -/

/-- With this journal, the walk comes to an end.  It gives what the extractor gives and remembers
what the extractor remembers; and it enters no variable twice, nor one that was visited before. -/
def Does {α : Type} (w : Unbounded Journal α) (x : Extractor α) (j : Journal) : Prop :=
  ∃ after : Journal, w.Ends j (x.run.run j.memo).1 after ∧
    after.memo = (x.run.run j.memo).2 ∧ j.ledger.Extends after.ledger

section Rules

variable {α β : Type} {w : Unbounded Journal α} {x : Extractor α} {j : Journal}
  {k : Nat → α → Walk β} {l : α → Extractor β}

lemma Does.of_succ (h : Does (fun d => w (d + 1)) x j) : Does w x j := by
  obtain ⟨after, hends, hafter⟩ := h
  exact ⟨after, hends.of_succ, hafter⟩

lemma does_pure (a : α) : Does (fun _ => pure a) (pure a) j :=
  ⟨j, Unbounded.ends_of_forall fun _ => rfl, rfl, .refl _⟩

lemma does_throw (f : Fault) : Does (fun _ => throw f) (throw f : Extractor α) j :=
  ⟨j, Unbounded.ends_of_forall fun _ => rfl, rfl, .refl _⟩

/-- One walk after the other.  Variables that have been visited stay so. -/
lemma Does.bind (h : Does w x j)
    (hk : ∀ a j', j.memo.visited ⊆ j'.memo.visited → Does (fun d => k d a) (l a) j') :
    Does (fun d => w d >>= k d) (x >>= l) j := by
  obtain ⟨after, hends, hmemo, hext⟩ := h
  rw [Does, run_bind]
  rcases hx : x.run.run j.memo with ⟨f | a, m⟩
  · rw [hx] at hends hmemo
    exact ⟨after, hends.bind_error, hmemo, hext⟩
  · rw [hx] at hends hmemo
    obtain rfl : after.memo = m := hmemo
    obtain ⟨last, hends', hmemo', hext'⟩ := hk a after hext.marked_subset
    exact ⟨last, hends.bind_ok hends', hmemo', hext.trans hext'⟩

/-- A part that a node is asked for, and what is done with it. -/
lemma does_lift_bind {y : Except Fault α} (h : ∀ a, y = .ok a → Does (fun d => k d a) (l a) j) :
    Does (fun d => liftM y >>= k d) (liftM y >>= l) j := by
  cases y with
  | error f => exact does_throw f
  | ok a => exact h a rfl

/-- A walk for each member of a list. -/
lemma does_mapM {as : List α}
    (h : ∀ a ∈ as, ∀ j', j.memo.visited ⊆ j'.memo.visited → Does (fun d => k d a) (l a) j') :
    Does (fun d => as.mapM (k d)) (as.mapM l) j := by
  induction as generalizing j with
  | nil => exact does_pure []
  | cons a as ih =>
    obtain ⟨ha, has⟩ := List.forall_mem_cons.1 h
    simp only [List.mapM_cons]
    refine (ha j (List.Subset.refl _)).bind fun b j' hj' => ?_
    refine Does.bind (ih fun a ha j'' hj'' => has a ha j'' (List.Subset.trans hj' hj'')) ?_
    exact fun bs _ _ => does_pure (b :: bs)

end Rules

/-! ## One place after the other -/

/-- Answers from memory, or else goes the way and remembers. -/
def keeping (c : Carrier) (w : Walk Found) : Walk Found := do
  match (← get).memo.answer? c with
  | some f => return f
  | none =>
    let f ← w
    modify fun j => { j with memo := j.memo.remember f c }
    return f

lemma ofPattern_some (p : Program) (t : Node) (depth : Nat) :
    ofPattern p (some t) (depth + 1) = keeping (.target t) (throughPattern p t depth) := by
  rw [ofPattern]
  rfl

lemma ofExpression_succ (p : Program) (e : Node) (depth : Nat) :
    ofExpression p e (depth + 1) = keeping (.expression e) (throughExpression p e depth) := by
  rw [ofExpression]
  rfl

section Places

variable {p : Program} {c : Carrier} {j : Journal} {w : Unbounded Journal Found}
  {x : Extractor Found}

lemma does_keeping (hnode : c.IsNode) (h : Does w x j) :
    Does (fun d => keeping c (w d)) (Property.keeping c x) j := by
  rw [Does]
  cases hanswer : j.memo.answer? c with
  | some f =>
    rw [run_keeping_of_some hanswer]
    refine ⟨j, Unbounded.ends_of_forall fun d => ?_, rfl, .refl _⟩
    rw [keeping, Attempt.run_get_bind, hanswer]
    rfl
  | none =>
    obtain ⟨after, hends, hmemo, hext⟩ := h
    have hrun : ∀ d, (keeping c (w d)).run.run j = (do
        let f ← w d
        modify fun j => { j with memo := j.memo.remember f c }
        return f : Walk Found).run.run j := by
      intro d
      rw [keeping, Attempt.run_get_bind, hanswer]
    rcases hx : x.run.run j.memo with ⟨e | f, m⟩
    · rw [hx] at hends hmemo
      rw [run_keeping_error hanswer hx]
      exact ⟨after, hends.bind_error.congr hrun, hmemo, hext⟩
    · rw [hx] at hends hmemo
      rw [run_keeping_ok hnode hanswer hx]
      obtain rfl : after.memo = m := hmemo
      have hsame : { after with memo := after.memo.remember f c }.ledger = after.ledger := by
        rw [Journal.ledger, Memo.visited_remember, Journal.ledger]
      refine ⟨_, (hends.bind_ok ?_).congr hrun, rfl, hsame ▸ hext⟩
      exact Unbounded.ends_of_forall fun _ => rfl

variable {onVariable : VariableId → Extractor Found}
  (hvariable : ∀ v ∈ p.graph.variableIds, Does (ofVariable p v) (onVariable v) j)
include hvariable

/-- A walk through a pattern, down to what is left without defaults. -/
lemma does_throughPattern (t : Node) : Does (throughPattern p t)
    (liftM (ahead p (.target t)) >>= proceed p onVariable) j := by
  induction t using Tree.induction with
  | step t ih =>
    refine Does.of_succ ?_
    simp only [throughPattern]
    rw [ahead]
    by_cases hdefault : t.kind = .assignmentPattern
    · rw [hdefault, Node.withoutDefault_of_eq hdefault]
      dsimp only
      cases hl : t.child .left with
      | error f => exact does_throw f
      | ok l =>
        cases l with
        | none => exact does_throw _
        | some l => exact ih l (Shape.mem_children_of_child hl)
    · rw [Node.withoutDefault_of_ne hdefault, ok_bind]
      dsimp only
      rw [aheadOfCore]
      revert hdefault
      generalize t.kind = kind
      intro hdefault
      cases kind with
      | assignmentPattern => exact absurd rfl hdefault
      | objectPattern =>
        dsimp only
        cases t.items .properties with
        | error f => exact does_throw f
        | ok ts =>
          change Does (fun _ => liftM (objectReads ts))
            (liftM (objectReads ts >>= fun f => .ok (.found f)) >>= proceed p onVariable) j
          cases objectReads ts with
          | error f => exact does_throw f
          | ok f => exact does_pure f
      | identifier =>
        dsimp only
        cases hfind : p.find t with
        | error f => exact does_throw f
        | ok v =>
          cases v with
          | none => exact does_pure _
          | some v => exact hvariable v (mem_variableIds_of_find hfind)
      | _ => exact does_pure _

lemma does_ofPattern (o : Option Node) : Does (ofPattern p o) (pattern p onVariable o) j := by
  cases o with
  | none =>
    refine Does.of_succ ?_
    simp only [ofPattern]
    exact does_pure _
  | some t =>
    have hmodel : pattern p onVariable (some t) = _ := visit_target t
    rw [hmodel]
    refine Does.of_succ ?_
    simp only [ofPattern_some]
    exact does_keeping trivial (does_throughPattern hvariable t)

/-- A walk to the pattern that an expression is bound to, if it is. -/
lemma does_binding (e q : Node) (f g : Field) :
    Does (fun d => do if e.isNode (← q.child f) then ofPattern p (← q.child g) d else return .any)
      (liftM (aheadOfBinding e q f g) >>= proceed p onVariable) j := by
  rw [lift_aheadOfBinding]
  refine does_lift_bind fun o _ => ?_
  split
  · exact does_lift_bind fun t _ => does_ofPattern hvariable t
  · exact does_pure _

/-- A walk up from an expression, if that from its parent is known. -/
lemma does_ofExpression_of_parent (e : Node)
    (hup : ∀ q, p.parent? e = some q →
      Does (ofExpression p q) (expression p onVariable q (p.above q)) j) :
    Does (ofExpression p e) (expression p onVariable e (p.above e)) j := by
  have hmodel : expression p onVariable e (p.above e) = _ := visit_expression e
  rw [hmodel]
  refine Does.of_succ ?_
  simp only [ofExpression_succ]
  refine does_keeping trivial (Does.of_succ ?_)
  simp only [throughExpression]
  rw [ahead]
  cases hparent : p.parent? e with
  | none => exact does_pure _
  | some q =>
    have hup := hup q hparent
    dsimp only
    rw [aheadOfParent]
    generalize q.kind = kind
    cases kind with
    | memberExpression =>
      dsimp only
      cases q.child .object with
      | error f => exact does_throw f
      | ok o =>
        rw [ok_bind]
        change Does (fun _ => if e.isNode o then _ else _) _ j
        split
        · cases q.staticName with
          | error f => exact does_throw f
          | ok name => cases name <;> exact does_pure _
        · exact does_pure _
    | assignmentExpression =>
      dsimp only
      cases q.text? .operator with
      | error f => exact does_throw f
      | ok operator =>
        rw [ok_bind]
        change Does (fun d => if operator == some "=" then _ else _) _ j
        split
        · exact does_binding hvariable e q .right .left
        · exact does_pure _
    | variableDeclarator => exact does_binding hvariable e q .init .id
    | tsAsExpression | tsNonNullExpression => exact hup
    | _ => exact does_pure _

/-- A walk up from an expression. -/
lemma does_ofExpression (e : Node) :
    Does (ofExpression p e) (expression p onVariable e (p.above e)) j := by
  -- With each type assertion that is climbed over, fewer nodes are above.
  generalize habove : p.above e = above
  induction above generalizing e with
  | nil =>
    rw [← habove]
    refine does_ofExpression_of_parent hvariable e fun q hq => ?_
    rw [Program.parent?, habove] at hq
    cases hq
  | cons q rest ih =>
    obtain ⟨-, hrest⟩ := Program.of_above_eq_cons habove
    rw [← habove]
    refine does_ofExpression_of_parent hvariable e fun q' hq => ?_
    rw [Program.parent?, habove] at hq
    obtain rfl := Option.some.inj hq
    rw [hrest]
    exact ih q hrest

end Places

/-! ## One variable after the other -/

section Variables

variable {p : Program} {j : Journal} {v : VariableId} {n : Nat}

/-- A variable that has been visited adds nothing. -/
lemma does_ofVariable_of_mem (h : v ∈ j.memo.visited) :
    Does (ofVariable p v) (Property.ofVariable p n v) j := by
  rw [Does, run_ofVariable_of_mem h]
  refine ⟨j, Unbounded.Ends.of_succ (Unbounded.ends_of_forall fun d => ?_), rfl, .refl _⟩
  rw [ofVariable, Attempt.run_get_bind, if_pos (List.contains_iff_mem.2 h)]
  rfl

/-- As long as the budget suffices for the variables that have not been visited, walking without a
budget does the same as extracting with it. -/
lemma does_ofVariable (hv : v ∈ p.graph.variableIds)
    (henough : Unmarked p.graph.variableIds j.memo.visited n) :
    Does (ofVariable p v) (Property.ofVariable p n v) j := by
  induction n generalizing v j with
  | zero => exact does_ofVariable_of_mem (henough.mem hv)
  | succ n ih =>
    by_cases hvisited : v ∈ j.memo.visited
    · exact does_ofVariable_of_mem hvisited
    -- The reads are gone through with the variable marked, which takes up one of the budget.
    have henough' : Unmarked p.graph.variableIds (j.memo.visit v).visited n :=
      henough.cons hv hvisited
    have hreads : Does (fun d => ((p.referencesTo v).filter (·.access.reads)).mapM fun r =>
        ofExpression p r.identifier d) ((readsOf p v).mapM (visit p (Property.ofVariable p n)))
        ⟨j.memo.visit v, v :: j.entered⟩ := by
      rw [readsOf, List.mapM_map]
      refine does_mapM fun r _ j' hj' => does_ofExpression (fun w hw => ?_) r.identifier
      exact ih hw (henough'.mono hj')
    obtain ⟨after, hends, hmemo, hext⟩ :=
      hreads.bind fun fs _ _ => does_pure (Found.merge fs)
    rw [Does, run_ofVariable_of_not_mem hvisited]
    refine ⟨after, Unbounded.Ends.of_succ (hends.congr fun d => ?_), hmemo,
      (Ledger.extends_cons hvisited).trans hext⟩
    rw [ofVariable, Attempt.run_get_bind, if_neg fun hc => hvisited (List.contains_iff_mem.1 hc),
      Attempt.run_modify_bind]

end Variables

end Walk

/-! ## Questions -/

/-- A question to an extractor: about the value that is bound to a pattern, that an expression has,
or that a variable of the program holds. -/
inductive Question (p : Program) where
  | target (o : Option Node)
  | expression (e : Node)
  | holder (v : VariableId) (known : v ∈ p.graph.variableIds)

namespace Question

variable {p : Program}

/-- Asks the extractor with its budget. -/
def ask : Question p → Extractor Found
  | target o => ofPattern p o
  | expression e => ofExpression p e
  | holder v _ => ofVariable p (budget p) v

/-- Asks the one without. -/
def walk : Question p → Unbounded Journal Found
  | target o => Walk.ofPattern p o
  | expression e => Walk.ofExpression p e
  | holder v _ => Walk.ofVariable p v

/-- Every single question is answered, whatever is remembered. -/
lemma does_walk (q : Question p) (j : Journal) : Walk.Does q.walk q.ask j := by
  have hvariable : ∀ v ∈ p.graph.variableIds,
      Walk.Does (Walk.ofVariable p v) (ofVariable p (budget p) v) j :=
    fun v hv => Walk.does_ofVariable hv (unmarked_length _ _)
  cases q with
  | target o => exact Walk.does_ofPattern hvariable o
  | expression e => exact Walk.does_ofExpression hvariable e
  | holder v known => exact hvariable v known

/-- Asks one extractor one question after the other.  A fault ends the question, and what has been
remembered until then stays. -/
def askAll (qs : List (Question p)) : StateM Memo (List (Except Fault Found)) :=
  qs.mapM fun q => q.ask.run

/-- Asks one extractor without a budget one question after the other. -/
def walkAll (qs : List (Question p)) : Unbounded Journal (List (Except Fault Found)) :=
  fun depth => qs.mapM fun q => (q.walk depth).caught

lemma run_askAll_cons (q : Question p) (qs : List (Question p)) (m : Memo) :
    (askAll (q :: qs)).run m =
      ((q.ask.run.run m).1 :: ((askAll qs).run (q.ask.run.run m).2).1,
        ((askAll qs).run (q.ask.run.run m).2).2) := by
  rw [askAll, List.mapM_cons]
  rfl

lemma walkAll_cons (q : Question p) (qs : List (Question p)) :
    walkAll (q :: qs) = fun depth => do
      let answer ← (q.walk depth).caught
      return answer :: (← walkAll qs depth) := by
  funext depth
  rw [walkAll, List.mapM_cons]
  rfl

/-- All questions are answered, and no variable is entered for two of them. -/
lemma ends_walkAll (qs : List (Question p)) (j : Journal) :
    ∃ after : Journal, (walkAll qs).Ends j (.ok ((askAll qs).run j.memo).1) after ∧
      after.memo = ((askAll qs).run j.memo).2 ∧ j.ledger.Extends after.ledger := by
  induction qs generalizing j with
  | nil => exact ⟨j, Unbounded.ends_of_forall fun _ => rfl, rfl, .refl _⟩
  | cons q qs ih =>
    obtain ⟨after, hends, hmemo, hext⟩ := q.does_walk j
    obtain ⟨last, hends', hmemo', hext'⟩ := ih after
    rw [hmemo] at hends' hmemo'
    rw [run_askAll_cons]
    refine ⟨last, ?_, hmemo', hext.trans hext'⟩
    rw [walkAll_cons]
    exact hends.caught.bind_ok (hends'.bind_ok (Unbounded.ends_of_forall fun _ => rfl))

end Question

end Property

end RefFlow
