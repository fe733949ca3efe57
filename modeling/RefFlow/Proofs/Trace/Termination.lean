import RefFlow.Proofs.Trace.Aliases
import RefFlow.Proofs.Unbounded

/-!
# Following variables comes to an end

Values are followed by three functions that call each other: one goes through the reads of a
variable, one up from an expression that has the value, and one down into a pattern that receives
it, which leads on to other variables.  None of their arguments gets smaller, and all that stands
against going round in circles is the stack of the variables that are being followed, from which
each variable is taken off again when its reads have been gone through.  `follow` does with a budget
what they do without one.

Here they are written down as they stand, with the stack as a state that they change.  `walk_ends`
shows that they always come to an end: with what `follow` finds, in the same order, with the same
fault if there is one, and with a stack that is empty again.  Two things get smaller in turn.  While
a walk stays with one variable, it goes up to nodes with fewer nodes above them and then down to
smaller patterns; and when it comes to another variable, there are fewer variables left that are not
on the stack.
-/

namespace RefFlow

open Fallible Search

namespace Search

variable {α : Type} {s t : Search α}

/-- How a search ends. -/
def ending : Search α → Except Fault Unit
  | done => .ok ()
  | broken f => .error f
  | found _ rest => rest.ending

lemma append_of_error {f : Fault} (h : s.ending = .error f) : s ++ t = s := by
  induction s with
  | done => cases h
  | broken => rfl
  | found a rest ih => exact congrArg (found a) (ih h)

lemma ending_append_of_ok (h : s.ending = .ok ()) : (s ++ t).ending = t.ending := by
  induction s with
  | done => rfl
  | broken => cases h
  | found a rest ih => exact ih h

lemma toList_append_of_ok (h : s.ending = .ok ()) : (s ++ t).toList = s.toList ++ t.toList := by
  induction s with
  | done => rfl
  | broken => cases h
  | found a rest ih => exact congrArg (a :: ·) (ih h)

end Search

namespace Trace

/-! ## Walks -/

/-- How far a walk has come. -/
structure Progress where
  /-- The variables that are being followed. -/
  stack : List VariableId := []
  /-- What has been found, in order. -/
  found : List Tracked := []

/-- An attempt to follow values. -/
abbrev Walk := Attempt Progress

namespace Walk

/-- Reports a use, if the map asks for it. -/
def report (node : Node) (path : List String) (use : Use) (map : TraceMap) : Walk Unit :=
  match map.mark use with
  | some info => modify fun s => { s with found := s.found ++ [⟨node, path, use, info⟩] }
  | none => return

mutual

/-- Follows a value that has come to a variable.  The variable is on the stack as long as its reads
are gone through, and is taken off also if that breaks off. -/
def ofVariable (p : Program) (v : VariableId) (path : List String) (map : TraceMap)
    (reportReads : Bool) : Nat → Walk Unit
  | 0 => .giveUp
  | depth + 1 => do
    if (← get).stack.contains v then return
    else (do
      modify fun s => { s with stack := v :: s.stack }
      let ending ← (((p.referencesTo v).filter (·.access.reads)).forM fun r => do
        (if reportReads then report r.identifier path .read map else return)
        ofValue p r.identifier path map depth : Walk Unit).run
      modify fun s => { s with stack := s.stack.tail }
      return ending : StateT Progress Option (Except Fault Unit))

/-- Follows the value of an expression, by what its parent does with it. -/
def ofValue (p : Program) (n : Node) (path : List String) (map : TraceMap) : Nat → Walk Unit
  | 0 => .giveUp
  | depth + 1 =>
    match p.parent? n with
    | none => return
    | some parent =>
      if isTransparent parent.kind then ofValue p parent path map depth
      else match parent.kind with
        | .memberExpression => do
          if n.isNode (← parent.child .object) then
            match ← parent.staticName with
            | none => return
            | some key =>
              match map.get? key with
              | none => return
              | some next =>
                report parent (path ++ [key]) .read next
                ofValue p parent (path ++ [key]) next depth
          else return
        | .callExpression => do
          if n.isNode (← parent.child .callee) then report parent path .call map else return
        | .newExpression => do
          if n.isNode (← parent.child .callee) then report parent path .construct map else return
        | .assignmentExpression => do
          if n.isNode (← parent.child .right) then
            ofTarget p (← parent.child .left) path map depth
            ofValue p parent path map depth
          else return
        | .assignmentPattern => do
          if n.isNode (← parent.child .right) then
            ofTarget p (← parent.child .left) path map depth
          else return
        | .variableDeclarator => do
          if n.isNode (← parent.child .init) then ofTarget p (← parent.child .id) path map depth
          else return
        | _ => return

/-- Follows a value that arrives at a target. -/
def ofTarget (p : Program) (target : Option Node) (path : List String) (map : TraceMap) :
    Nat → Walk Unit
  | 0 => .giveUp
  | depth + 1 =>
    match target with
    | none => return
    | some n =>
      match n.kind with
      | .identifier => do
        match ← p.find n with
        | some v => ofVariable p v path map false depth
        | none => return
      | .objectPattern => do (← n.items .properties).forM fun m => ofMember p m path map depth
      | .assignmentPattern => do ofTarget p (← n.child .left) path map depth
      | _ => return

/-- Follows the members of a value that arrives at an object pattern. -/
def ofMember (p : Program) (member : Option Node) (path : List String) (map : TraceMap) :
    Nat → Walk Unit
  | 0 => .giveUp
  | depth + 1 =>
    match member with
    | none => throw (.missingNode "item")
    | some m => do
      if m.kind == .property then
        match ← m.staticName with
        | none => return
        | some key =>
          match map.get? key with
          | none => return
          | some next =>
            report m (path ++ [key]) .read next
            ofTarget p (← m.child .value) (path ++ [key]) next depth
      else return

end

/-! ## What a walk does -/

/-- With this stack, the walk comes to an end: it finds what the search finds, ends as the search
does, and leaves the stack as it was. -/
def Does (w : Unbounded Progress Unit) (stack : List VariableId) (s : Search Tracked) : Prop :=
  ∀ found, w.Ends ⟨stack, found⟩ s.ending ⟨stack, found ++ s.toList⟩

section Rules

variable {stack : List VariableId} {w w' : Unbounded Progress Unit} {s t : Search Tracked}
  {α : Type}

lemma Does.of_succ (h : Does (fun d => w (d + 1)) stack s) : Does w stack s :=
  fun found => (h found).of_succ

lemma does_pure : Does (fun _ => pure ()) stack .done := by
  intro found
  rw [toList, List.append_nil]
  exact Unbounded.ends_of_forall fun _ => rfl

lemma does_throw (f : Fault) : Does (fun _ => throw f) stack (.broken f) := by
  intro found
  rw [toList, List.append_nil]
  exact Unbounded.ends_of_forall fun _ => rfl

lemma does_report (n : Node) (path : List String) (use : Use) (map : TraceMap) :
    Does (fun _ => report n path use map) stack (reportUse n path use map) := by
  rw [report, reportUse]
  cases map.mark use with
  | some info => exact fun found => Unbounded.ends_of_forall fun _ => rfl
  | none => exact does_pure

/-- One walk after the other. -/
lemma Does.bind (hw : Does w stack s) (hw' : Does w' stack t) :
    Does (fun d => w d >>= fun _ => w' d) stack (s ++ t) := by
  intro found
  have hends := hw found
  cases h : s.ending with
  | error f =>
    rw [h] at hends
    rw [append_of_error h, h]
    exact hends.bind_error
  | ok _ =>
    rw [h] at hends
    rw [ending_append_of_ok h, toList_append_of_ok h, ← List.append_assoc]
    exact hends.bind_ok (hw' _)

/-- A part that a node is asked for, and what is done with it. -/
lemma does_lift_bind {x : Except Fault α} {k : Nat → α → Walk Unit} {g : α → Search Tracked}
    (h : ∀ a, x = .ok a → Does (fun d => k d a) stack (g a)) :
    Does (fun d => liftM x >>= k d) stack (liftM x >>= g) := by
  cases x with
  | error f => exact does_throw f
  | ok a =>
    rw [liftM_ok, found_bind, done_bind, append_done]
    exact h a rfl

/-- A walk for each member of a list. -/
lemma does_forM {k : Nat → α → Walk Unit} {g : α → Search Tracked} {as : List α}
    (h : ∀ a ∈ as, Does (fun d => k d a) stack (g a)) :
    Does (fun d => as.forM (k d)) stack (ofList as >>= g) := by
  induction as with
  | nil => exact does_pure
  | cons a as ih =>
    obtain ⟨ha, has⟩ := List.forall_mem_cons.1 h
    exact ha.bind (ih has)

end Rules

/-! ## One variable -/

section Variable

variable {p : Program} {stack : List VariableId} {k : Nat}

/-- The outcomes of one step are the same things to do as those of a walk. -/
lemma report_bind_resume (n : Node) (path : List String) (use : Use) (map : TraceMap) :
    (Outcome.report <$> reportUse n path use map) >>= resume p k stack =
      reportUse n path use map := by
  rw [reportUse]
  cases map.mark use <;> rfl

/-- A walk down from a member of an object pattern, if that from the pattern in it is known. -/
lemma does_ofMember (o : Option Node) (path : List String) (map : TraceMap)
    (hvalue : ∀ m ∈ o, ∀ t path map, m.child .value = .ok t →
      Does (ofTarget p t path map) stack (arrivals p t path map >>= resume p k stack)) :
    Does (ofMember p o path map) stack (memberArrivals p path map o >>= resume p k stack) := by
  refine Does.of_succ ?_
  simp only [ofMember]
  cases o with
  | none => exact does_throw _
  | some m =>
    rw [memberArrivals]
    dsimp only
    split
    · rw [Search.bind_assoc]
      refine does_lift_bind fun key hkey => ?_
      cases key with
      | none => exact does_pure
      | some key =>
        dsimp only
        cases map.get? key with
        | none => exact does_pure
        | some next =>
          dsimp only
          rw [append_bind, report_bind_resume, Search.bind_assoc]
          refine (does_report _ _ _ _).bind (does_lift_bind fun t ht => ?_)
          exact hvalue m rfl t _ next ht
    · exact does_pure

variable (hvariable : ∀ v path map, Does (ofVariable p v path map false) stack
  (followVariable p k stack v path map false))
include hvariable

/-- A walk down from a target does what the outcomes there ask for. -/
lemma does_ofTarget (o : Option Node) (path : List String) (map : TraceMap) :
    Does (ofTarget p o path map) stack (arrivals p o path map >>= resume p k stack) := by
  have hnone : ∀ path map, Does (ofTarget p none path map) stack
      (arrivals p none path map >>= resume p k stack) := by
    intro path map
    refine Does.of_succ ?_
    simp only [ofTarget]
    exact does_pure
  cases o with
  | none => exact hnone path map
  | some t =>
    -- Every target that is gone on to is further inside.
    induction t using Tree.strongInduction generalizing path map with
    | step t ih =>
      refine Does.of_succ ?_
      simp only [ofTarget]
      rw [arrivals_some]
      generalize t.kind = kind
      cases kind with
      | identifier =>
        dsimp only
        rw [Search.bind_assoc]
        refine does_lift_bind fun v _ => ?_
        cases v with
        | none => exact does_pure
        | some v =>
          dsimp only
          rw [pure_def, found_bind, done_bind, append_done]
          exact hvariable v path map
      | objectPattern =>
        dsimp only
        rw [Search.bind_assoc]
        refine does_lift_bind fun ts hts => ?_
        rw [Search.bind_assoc]
        refine does_forM fun o ho => does_ofMember o path map fun m hm u path map hu => ?_
        obtain rfl := hm
        cases u with
        | none => exact hnone path map
        | some u =>
          exact ih m (Shape.mem_children_of_items hts ho) u (Tree.contains_of_child hu) path map
      | assignmentPattern =>
        dsimp only
        rw [Search.bind_assoc]
        refine does_lift_bind fun l hl => ?_
        cases l with
        | none => exact hnone path map
        | some l => exact ih l (Shape.mem_children_of_child hl) l (.refl l) path map
      | _ => exact does_pure

/-- A walk up from an expression does what the outcomes there ask for. -/
lemma does_ofValue (n : Node) (path : List String) (map : TraceMap) :
    Does (ofValue p n path map) stack (occurrence p n path map >>= resume p k stack) := by
  rw [occurrence]
  -- Going up leaves fewer nodes above; going down again is dealt with in one piece.
  generalize habove : p.above n = above
  induction above generalizing n path map with
  | nil =>
    refine Does.of_succ ?_
    simp only [ofValue, Program.parent?, habove]
    exact does_pure
  | cons q rest ih =>
    have hup : ∀ path map, Does (ofValue p q path map) stack
        (consequences p path map q rest >>= resume p k stack) :=
      fun path map => ih q path map (Program.of_above_eq_cons habove).2
    have htarget := does_ofTarget hvariable
    refine Does.of_succ ?_
    simp only [ofValue, Program.parent?, habove, List.head?_cons]
    rw [consequences]
    generalize q.kind = kind
    split
    · exact hup path map
    cases kind with
    | memberExpression =>
      dsimp only
      rw [Search.bind_assoc]
      refine does_lift_bind fun o _ => ?_
      split
      · rw [Search.bind_assoc]
        refine does_lift_bind fun key _ => ?_
        cases key with
        | none => exact does_pure
        | some key =>
          dsimp only
          cases map.get? key with
          | none => exact does_pure
          | some next =>
            dsimp only
            rw [append_bind, report_bind_resume]
            exact (does_report _ _ _ _).bind (hup _ next)
      · exact does_pure
    | callExpression | newExpression =>
      dsimp only
      rw [Search.bind_assoc]
      refine does_lift_bind fun o _ => ?_
      split
      · rw [report_bind_resume]
        exact does_report _ _ _ _
      · exact does_pure
    | assignmentExpression =>
      dsimp only
      rw [Search.bind_assoc]
      refine does_lift_bind fun o _ => ?_
      split
      · rw [Search.bind_assoc]
        refine does_lift_bind fun t _ => ?_
        rw [append_bind]
        exact (htarget t path map).bind (hup path map)
      · exact does_pure
    | assignmentPattern | variableDeclarator =>
      dsimp only
      rw [Search.bind_assoc]
      refine does_lift_bind fun o _ => ?_
      split
      · rw [Search.bind_assoc]
        exact does_lift_bind fun t _ => htarget t path map
      · exact does_pure
    | _ => exact does_pure

end Variable

/-! ## One variable after the other -/

section Following

variable {p : Program} {stack : List VariableId} {v : VariableId} {path : List String}
  {map : TraceMap} {reportReads : Bool}

/-- A variable that is on the stack is not entered again. -/
lemma does_ofVariable_of_mem (h : v ∈ stack) :
    Does (ofVariable p v path map reportReads) stack .done := by
  refine Does.of_succ fun found => Unbounded.ends_of_forall fun d => ?_
  rw [ofVariable, Attempt.run_get_bind, if_pos (List.contains_iff_mem.2 h), toList, List.append_nil]
  rfl

/-- A variable that is not on the stack is put on it while its reads are gone through. -/
lemma does_ofVariable_of_not_mem (h : v ∉ stack) {s : Search Tracked}
    (hreads : Does (fun d => ((p.referencesTo v).filter (·.access.reads)).forM fun r => do
      (if reportReads then report r.identifier path .read map else return)
      ofValue p r.identifier path map d) (v :: stack) s) :
    Does (ofVariable p v path map reportReads) stack s := by
  intro found
  obtain ⟨depth, hends⟩ := hreads found
  refine Unbounded.Ends.of_succ ⟨depth, fun d hd => ?_⟩
  dsimp only
  rw [ofVariable, Attempt.run_get_bind, if_neg fun hc => h (List.contains_iff_mem.1 hc)]
  exact congrArg (Option.bind · fun y : Except Fault Unit × Progress =>
    some (y.1, { y.2 with stack := y.2.stack.tail })) (hends d hd)

lemma does_reads {k : Nat} (hvariable : ∀ w path map, Does (ofVariable p w path map false) stack
      (followVariable p k stack w path map false)) :
    Does (fun d => ((p.referencesTo v).filter (·.access.reads)).forM fun r => do
        (if reportReads then report r.identifier path .read map else return)
        ofValue p r.identifier path map d) stack
      (variableOutcomes p v path map reportReads >>= resume p k stack) := by
  rw [variableOutcomes, Search.bind_assoc]
  refine does_forM fun r _ => ?_
  dsimp only
  rw [append_bind]
  refine Does.bind ?_ (does_ofValue hvariable _ _ _)
  cases reportReads with
  | false => exact does_pure
  | true =>
    rw [if_pos rfl, if_pos rfl, report_bind_resume]
    exact does_report _ _ _ _

/-- A variable that the graph does not have is not read anywhere. -/
lemma referencesTo_of_not_mem (hv : v ∉ p.graph.variableIds) : p.referencesTo v = [] := by
  rw [Program.referencesTo]
  cases hget : p.graph.get? v with
  | none => rfl
  | some x => exact absurd (Graph.mem_variableIds_of_get? hget) hv

lemma does_ofVariable_of_unknown (hv : v ∉ p.graph.variableIds) :
    Does (ofVariable p v path map reportReads) stack .done := by
  by_cases hmem : v ∈ stack
  · exact does_ofVariable_of_mem hmem
  · refine does_ofVariable_of_not_mem hmem ?_
    rw [referencesTo_of_not_mem hv]
    exact does_pure

/-- As long as the budget suffices for the variables that are not on the stack, walking without a
budget does the same as following with it. -/
lemma does_ofVariable {k : Nat} (hroom : Room p k stack) (v : VariableId) (path : List String)
    (map : TraceMap) (reportReads : Bool) :
    Does (ofVariable p v path map reportReads) stack
      (followVariable p k stack v path map reportReads) := by
  induction k generalizing stack v path map reportReads with
  | zero =>
    by_cases hmem : v ∈ stack
    · exact does_ofVariable_of_mem hmem
    · have hv : v ∉ p.graph.variableIds := by
        intro hv
        obtain ⟨n, hn, -⟩ := hroom.push hv hmem
        cases hn
      exact does_ofVariable_of_unknown hv
  | succ k ih =>
    by_cases hmem : v ∈ stack
    · rw [followVariable_of_mem hmem]
      exact does_ofVariable_of_mem hmem
    rw [followVariable_succ hmem]
    by_cases hv : v ∈ p.graph.variableIds
    · obtain ⟨m, hm, hroom⟩ := hroom.push hv hmem
      obtain rfl : k = m := Nat.succ_injective hm
      exact does_ofVariable_of_not_mem hmem
        (does_reads fun w path map => ih hroom w path map false)
    · rw [variableOutcomes, referencesTo_of_not_mem hv]
      exact does_ofVariable_of_unknown hv

end Following

/-! ## Walks from an empty stack -/

/-- Started with nothing on the stack and nothing found, the walk comes to an end.  It finds what
the search finds, ends as the search does, and leaves nothing on the stack. -/
def Finds (w : Unbounded Progress Unit) (s : Search Tracked) : Prop :=
  w.Ends {} s.ending { stack := [], found := s.toList }

lemma Does.finds {w : Unbounded Progress Unit} {s : Search Tracked} (h : Does w [] s) :
    Finds w s := h []

end Walk

open Walk

/-- **Walks come to an end.**  Whatever the program, whichever variables are assigned to each other
in whatever circles, and whatever the map asks for: from an empty stack, the walks from a variable,
up from an expression and down from a target come to an end after finitely many finds, with an empty
stack.  What they find, and the fault that they break off with if there is one, is what following
with a budget gives. -/
theorem walk_ends (p : Program) (path : List String) (map : TraceMap) :
    (∀ v reportReads,
      Finds (ofVariable p v path map reportReads) (follow p v path map reportReads)) ∧
    (∀ n, Finds (ofValue p n path map) (occurrence p n path map >>= followOutcome p)) ∧
    ∀ t, Finds (ofTarget p t path map) (arrivals p t path map >>= followOutcome p) := by
  have hvariable := does_ofVariable (Room.nil (p := p))
  have hresume : resume p p.graph.variableIds.length [] = followOutcome p := by
    funext o
    cases o <;> rfl
  rw [← hresume]
  refine ⟨fun v reportReads => ?_, fun n => ?_, fun t => ?_⟩
  · exact (hvariable v path map reportReads).finds
  · exact (does_ofValue (fun v path map => hvariable v path map false) n path map).finds
  · exact (does_ofTarget (fun v path map => hvariable v path map false) t path map).finds

end Trace

end RefFlow
