import RefFlow.Proofs.Property.Nests
import RefFlow.Proofs.RefObject.Flow
import RefFlow.Proofs.Scope.Identifiers
import RefFlow.Proofs.Trace.Aliases

/-!
# Where the properties of a value are read

The rules by which a value gets from a pattern to the places where its properties are read, stated
on the program alone.

* `Leads p c d`: the value goes from `c` to `d` in one step.
* `Contributes p c r`: the property read `r` is made at `c`.
* `Untrackable p c`: at `c` something is done with the value after which its reads cannot be known.
* `Faulty p c`: at `c` a node is asked for a part that it does not have, or for a name that cannot
  be written.

At an expression or a target at most one of these holds, and what it is can be computed from the
node and its parent: `describes_ahead` shows that the function `ahead` does so.  The code is this
function, with the memory around it, repeated (`visit_eq`).
-/

namespace RefFlow

open Fallible

namespace Trace.Carrier

/-- The place belongs to the program. -/
def In (p : Program) : Carrier → Prop
  | .expression e => p.Has e
  | .target t => p.Has t
  | .holder v => v ∈ p.graph.variableIds

/-- The place is a node, not a variable. -/
def IsNode : Carrier → Prop
  | .expression _ | .target _ => True
  | .holder _ => False

end Trace.Carrier

namespace Property

open Trace (Carrier Fails fails_error not_fails_ok)
open RefObject (Rebinds)

variable {p : Program} {c d : Carrier} {e q t : Node}

/-! ## The rules -/

/-- A node that has the value of the expression in it. -/
def IsWrapper (q : Node) : Prop := q.kind = .tsAsExpression ∨ q.kind = .tsNonNullExpression

/-- The value goes from the one place to the other in one step. -/
inductive Leads (p : Program) : Carrier → Carrier → Prop
  /-- A variable that has the value hands it to its occurrences that are read. -/
  | read {v : VariableId} {r : Reference} (reference : r ∈ p.referencesTo v)
      (reads : r.access.reads = true) : Leads p (.holder v) (.expression r.identifier)
  /-- An initial value, or the right side of a plain assignment, goes to the target. -/
  | bound {e t : Node} (rebinds : Rebinds p e (some t)) : Leads p (.expression e) (.target t)
  /-- An expression hands it to the type operator around it. -/
  | wrapped {e q : Node} (parent : p.parent? e = some q) (isWrapper : IsWrapper q) :
      Leads p (.expression e) (.expression q)
  /-- A name, possibly with defaults, hands it to the variable that it means. -/
  | name {t c : Node} {v : VariableId} (core : t.Core c) (isIdentifier : c.kind = .identifier)
      (means : p.find c = .ok (some v)) : Leads p (.target t) (.holder v)

/-- The entry of an object pattern is a property whose name is known. -/
inductive Names : Option Node → PropertyRead → Prop
  | intro {m : Node} {name : String} {value : Option Node} (isProperty : m.kind = .property)
      (named : m.staticName = .ok (some name)) (hasValue : m.child .value = .ok value) :
      Names (some m) ⟨name, m, .pattern value⟩

/-- The entry of an object pattern is no property, or one whose name is not known. -/
def Nameless (o : Option Node) : Prop :=
  ∃ m : Node, o = some m ∧ (m.kind = .property → m.staticName = .ok none)

/-- The entry of an object pattern cannot be dealt with. -/
def FaultyEntry (o : Option Node) : Prop :=
  ∀ m : Node, o = some m → m.kind = .property ∧ (Fails m.staticName ∨
    ∃ name, m.staticName = .ok (some name) ∧ Fails (m.child .value))

/-- The first entry that is not a property with a known name satisfies the condition. -/
def StopsAt (P : Option Node → Prop) (ts : List (Option Node)) : Prop :=
  ∃ before o after, ts = before ++ o :: after ∧ (∀ b ∈ before, ∃ r, Names b r) ∧ P o

/-- The property read is made at this place. -/
inductive Contributes (p : Program) : Carrier → PropertyRead → Prop
  /-- A member with a known name is read from the value. -/
  | member {e q : Node} {name : String} (parent : p.parent? e = some q)
      (isMember : q.kind = .memberExpression) (object : q.child .object = .ok (some e))
      (named : q.staticName = .ok (some name)) :
      Contributes p (.expression e) ⟨name, q, .expression q⟩
  /-- The value is taken apart by a pattern all of whose entries have known names. -/
  | property {t c : Node} {ts : List (Option Node)} {rs : List PropertyRead} {r : PropertyRead}
      (core : t.Core c) (isPattern : c.kind = .objectPattern)
      (items : c.items .properties = .ok ts) (entries : List.Forall₂ Names ts rs) (mem : r ∈ rs) :
      Contributes p (.target t) r

/-- An expression with this parent is used in an unknown way. -/
def UntrackableParent (e q : Node) : Prop :=
  match q.kind with
  | .memberExpression => ∃ o, q.child .object = .ok o ∧ (o = some e → q.staticName = .ok none)
  | .assignmentExpression => ∃ operator, q.text? .operator = .ok operator ∧
      (operator = some "=" → ∃ o, q.child .right = .ok o ∧ o ≠ some e)
  | .variableDeclarator => ∃ o, q.child .init = .ok o ∧ o ≠ some e
  | .tsAsExpression | .tsNonNullExpression => False
  | _ => True

/-- What arrives at this pattern, which has no default, is used in an unknown way. -/
def UntrackableTarget (c : Node) : Prop :=
  match c.kind with
  | .identifier => False
  | .objectPattern => ∃ ts, c.items .properties = .ok ts ∧ StopsAt Nameless ts
  | _ => True

/-- What is done with the value at this place cannot be followed. -/
def Untrackable (p : Program) : Carrier → Prop
  | .expression e => ∀ q ∈ p.parent? e, UntrackableParent e q
  | .target t => ∃ c, t.Core c ∧ UntrackableTarget c
  | .holder _ => False

/-- An expression with this parent cannot be dealt with. -/
def FaultyParent (e q : Node) : Prop :=
  match q.kind with
  | .memberExpression =>
    Fails (q.child .object) ∨ q.child .object = .ok (some e) ∧ Fails q.staticName
  | .assignmentExpression =>
    Fails (q.text? .operator) ∨ q.text? .operator = .ok (some "=") ∧
      (Fails (q.child .right) ∨ q.child .right = .ok (some e) ∧ Fails (q.child .left))
  | .variableDeclarator =>
    Fails (q.child .init) ∨ q.child .init = .ok (some e) ∧ Fails (q.child .id)
  | _ => False

/-- A value that arrives at this pattern, which has no default, cannot be dealt with. -/
def FaultyTarget (p : Program) (c : Node) : Prop :=
  match c.kind with
  | .identifier => Fails (p.find c)
  | .objectPattern => Fails (c.items .properties) ∨
      ∃ ts, c.items .properties = .ok ts ∧ StopsAt FaultyEntry ts
  | _ => False

/-- A value that gets there makes the extraction fail. -/
def Faulty (p : Program) : Carrier → Prop
  | .expression e => ∃ q, p.parent? e = some q ∧ FaultyParent e q
  | .target t => (∀ c, ¬t.Core c) ∨ ∃ c, t.Core c ∧ FaultyTarget p c
  | .holder _ => False

/-! ## What is seen from a place -/

/-- What is seen from a place. -/
inductive Ahead where
  /-- The value goes no further, and this is found. -/
  | found (f : Found)
  /-- The value goes on. -/
  | next (c : Carrier)

/-- A value that is bound goes on to the target, if there is one. -/
def Ahead.ofTarget : Option Node → Ahead
  | some t => .next (.target t)
  | none => .found .never

/-- What is seen from an expression if its parent binds the one part to the other. -/
def aheadOfBinding (e q : Node) (f g : Field) : Except Fault Ahead := do
  if e.isNode (← q.child f) then return .ofTarget (← q.child g)
  else return .found .any

/-- What is seen from an expression with this parent. -/
def aheadOfParent (e q : Node) : Except Fault Ahead :=
  match q.kind with
  | .memberExpression => do
    if e.isNode (← q.child .object) then
      match ← q.staticName with
      | some name => return .found (.member ⟨name, q, .expression q⟩)
      | none => return .found .any
    else return .found .any
  | .assignmentExpression => do
    if (← q.text? .operator) == some "=" then aheadOfBinding e q .right .left
    else return .found .any
  | .variableDeclarator => aheadOfBinding e q .init .id
  | .tsAsExpression | .tsNonNullExpression => .ok (.next (.expression q))
  | _ => .ok (.found .any)

/-- What is seen from a target without defaults. -/
def aheadOfCore (p : Program) (c : Node) : Except Fault Ahead :=
  match c.kind with
  | .objectPattern => do return .found (← objectReads (← c.items .properties))
  | .identifier => do
    match ← p.find c with
    | some v => return .next (.holder v)
    | none => return .found .never
  | _ => .ok (.found .any)

/-- What is seen from a place. -/
def ahead (p : Program) : Carrier → Except Fault Ahead
  | .expression e => match p.parent? e with
    | some q => aheadOfParent e q
    | none => .ok (.found .any)
  | .target t => do
    match ← t.withoutDefault with
    | some c => aheadOfCore p c
    | none => throw (.missingNode "left")
  | .holder _ => .ok (.found .never)

/-- The place has been described by what is seen from it. -/
structure Describes (p : Program) (c : Carrier) (x : Except Fault Ahead) : Prop where
  leads : ∀ d, Leads p c d ↔ x = .ok (.next d)
  contributes : ∀ r, Contributes p c r ↔ ∃ f, x = .ok (.found f) ∧ r ∈ f.reads
  untrackable : Untrackable p c ↔ x = .ok (.found .any)
  faulty : Faulty p c ↔ Fails x
  distinct : ∀ f, x = .ok (.found f) → (f.reads.map (·.node)).Nodup

/-! ### Expressions -/

section Expressions

lemma rebinds_iff (hq : p.parent? e = some q) {o : Option Node} : Rebinds p e o ↔
    q.kind = .variableDeclarator ∧ q.child .init = .ok (some e) ∧ q.child .id = .ok o ∨
    q.kind = .assignmentExpression ∧ q.text? .operator = .ok (some "=") ∧
      q.child .right = .ok (some e) ∧ q.child .left = .ok o := by
  constructor
  · intro h
    cases h with
    | declarator parent isDeclarator init id =>
      obtain rfl := Option.some.inj (hq.symm.trans parent)
      exact .inl ⟨isDeclarator, init, id⟩
    | assignment parent isAssignment isPlain right left =>
      obtain rfl := Option.some.inj (hq.symm.trans parent)
      exact .inr ⟨isAssignment, isPlain, right, left⟩
  · rintro (⟨isDeclarator, init, id⟩ | ⟨isAssignment, isPlain, right, left⟩)
    · exact .declarator hq isDeclarator init id
    · exact .assignment hq isAssignment isPlain right left

lemma leads_expression_iff (hq : p.parent? e = some q) : Leads p (.expression e) d ↔
    (∃ t, Rebinds p e (some t) ∧ .target t = d) ∨ IsWrapper q ∧ .expression q = d := by
  constructor
  · intro h
    cases h with
    | bound rebinds => exact .inl ⟨_, rebinds, rfl⟩
    | wrapped parent isWrapper =>
      obtain rfl := Option.some.inj (hq.symm.trans parent)
      exact .inr ⟨isWrapper, rfl⟩
  · rintro (⟨t, rebinds, rfl⟩ | ⟨isWrapper, rfl⟩)
    · exact .bound rebinds
    · exact .wrapped hq isWrapper

lemma contributes_expression_iff (hq : p.parent? e = some q) {r : PropertyRead} :
    Contributes p (.expression e) r ↔ q.kind = .memberExpression ∧
      q.child .object = .ok (some e) ∧ ∃ name, q.staticName = .ok (some name) ∧
        r = ⟨name, q, .expression q⟩ := by
  constructor
  · intro h
    cases h with
    | member parent isMember object named =>
      obtain rfl := Option.some.inj (hq.symm.trans parent)
      exact ⟨isMember, object, _, named, rfl⟩
  · rintro ⟨isMember, object, name, named, rfl⟩
    exact .member hq isMember object named

/-- The rules for an expression, in terms of its parent. -/
lemma describes_of_parent (hq : p.parent? e = some q) {x : Except Fault Ahead}
    (hleads : ∀ d, (∃ t, Rebinds p e (some t) ∧ .target t = d) ∨
      IsWrapper q ∧ .expression q = d ↔ x = .ok (.next d))
    (hcontributes : ∀ r : PropertyRead, q.kind = .memberExpression ∧
      q.child .object = .ok (some e) ∧ (∃ name, q.staticName = .ok (some name) ∧
        r = ⟨name, q, .expression q⟩) ↔ ∃ f, x = .ok (.found f) ∧ r ∈ f.reads)
    (huntrackable : UntrackableParent e q ↔ x = .ok (.found .any))
    (hfaulty : FaultyParent e q ↔ Fails x)
    (hdistinct : ∀ f, x = .ok (.found f) → (f.reads.map (·.node)).Nodup) :
    Describes p (.expression e) x where
  leads d := (leads_expression_iff hq).trans (hleads d)
  contributes r := (contributes_expression_iff hq).trans (hcontributes r)
  untrackable := by simpa [Untrackable, hq] using huntrackable
  faulty := by simpa [Faulty, hq] using hfaulty
  distinct := hdistinct

lemma aheadOfParent_other (hmember : q.kind ≠ .memberExpression)
    (hassignment : q.kind ≠ .assignmentExpression) (hdeclarator : q.kind ≠ .variableDeclarator)
    (hwrapper : ¬IsWrapper q) : aheadOfParent e q = .ok (.found .any) := by
  obtain ⟨has, hnonNull⟩ := not_or.1 hwrapper
  unfold aheadOfParent
  split <;> first | rfl | contradiction

variable (he : p.Has e) (hq : p.parent? e = some q)
include he hq

lemma describes_member (hkind : q.kind = .memberExpression) :
    Describes p (.expression e) (aheadOfParent e q) := by
  obtain ⟨hhas, -⟩ := he.parent hq
  unfold aheadOfParent
  rw [hkind]
  cases hobject : q.child .object with
  | error f =>
    refine describes_of_parent hq ?_ ?_ ?_ ?_ ?_ <;>
      simp [rebinds_iff hq, IsWrapper, UntrackableParent, FaultyParent, Fails, bind_ok_iff, hkind,
        hobject]
  | ok o =>
    rw [ok_bind]
    by_cases ho : o = some e
    · subst ho
      rw [if_pos (by simp [Node.isNode])]
      cases hname : q.staticName with
      | error f =>
        refine describes_of_parent hq ?_ ?_ ?_ ?_ ?_ <;>
          simp [rebinds_iff hq, IsWrapper, UntrackableParent, FaultyParent, Fails, bind_ok_iff,
            hkind, hobject, hname]
      | ok name =>
        rw [ok_bind]
        cases name <;> refine describes_of_parent hq ?_ ?_ ?_ ?_ ?_ <;>
          simp [rebinds_iff hq, IsWrapper, UntrackableParent, FaultyParent, Fails, pure_ok_iff,
            hkind, hobject, hname, Found.reads]
    · rw [if_neg (ho ∘ (he.isNode_iff hhas hobject).1)]
      refine describes_of_parent hq ?_ ?_ ?_ ?_ ?_ <;>
        simp [rebinds_iff hq, IsWrapper, UntrackableParent, FaultyParent, Fails, pure_ok_iff,
          hkind, hobject, ho, Found.reads]

lemma aheadOfBinding_next_iff {f g : Field} : aheadOfBinding e q f g = .ok (.next d) ↔
    q.child f = .ok (some e) ∧ ∃ t, q.child g = .ok (some t) ∧ .target t = d := by
  obtain ⟨hhas, -⟩ := he.parent hq
  unfold aheadOfBinding
  rw [bind_ok_iff]
  constructor
  · rintro ⟨o, ho, h⟩
    split at h
    · rename_i hnode
      obtain rfl := (he.isNode_iff hhas ho).1 hnode
      obtain ⟨t, ht, h⟩ := bind_ok_iff.1 h
      cases t <;> simp_all [Ahead.ofTarget, pure_ok_iff]
    · simp [pure_ok_iff] at h
  · rintro ⟨ho, t, ht, rfl⟩
    exact ⟨some e, ho, by simp [Node.isNode, ht, Ahead.ofTarget]⟩

lemma aheadOfBinding_found_iff {f g : Field} {x : Found} :
    aheadOfBinding e q f g = .ok (.found x) ↔
      q.child f = .ok (some e) ∧ q.child g = .ok none ∧ .never = x ∨
        (∃ o, q.child f = .ok o ∧ o ≠ some e) ∧ .any = x := by
  obtain ⟨hhas, -⟩ := he.parent hq
  unfold aheadOfBinding
  rw [bind_ok_iff]
  constructor
  · rintro ⟨o, ho, h⟩
    split at h
    · rename_i hnode
      obtain rfl := (he.isNode_iff hhas ho).1 hnode
      obtain ⟨t, ht, h⟩ := bind_ok_iff.1 h
      cases t <;> simp_all [Ahead.ofTarget, pure_ok_iff]
    · rename_i hnode
      refine .inr ⟨⟨o, ho, hnode ∘ (he.isNode_iff hhas ho).2⟩, ?_⟩
      simpa [pure_ok_iff] using h
  · rintro (⟨ho, ht, rfl⟩ | ⟨⟨o, ho, hne⟩, rfl⟩)
    · exact ⟨some e, ho, by simp [Node.isNode, ht, Ahead.ofTarget]⟩
    · refine ⟨o, ho, ?_⟩
      rw [if_neg (hne ∘ (he.isNode_iff hhas ho).1)]
      rfl

lemma nodup_of_aheadOfBinding {f g : Field} {x : Found}
    (h : aheadOfBinding e q f g = .ok (.found x)) : (x.reads.map (·.node)).Nodup := by
  rcases (aheadOfBinding_found_iff he hq).1 h with ⟨-, -, rfl⟩ | ⟨-, rfl⟩ <;> exact List.nodup_nil

lemma fails_aheadOfBinding_iff {f g : Field} : Fails (aheadOfBinding e q f g) ↔
    Fails (q.child f) ∨ q.child f = .ok (some e) ∧ Fails (q.child g) := by
  obtain ⟨hhas, -⟩ := he.parent hq
  unfold aheadOfBinding
  cases ho : q.child f with
  | error f => simp [Fails, bind_ok_iff]
  | ok o =>
    rw [ok_bind]
    by_cases hoe : o = some e
    · subst hoe
      rw [if_pos (by simp [Node.isNode])]
      simp [Fails, map_ok_iff]
    · rw [if_neg (hoe ∘ (he.isNode_iff hhas ho).1)]
      simp [Fails, pure_ok_iff, hoe]

lemma describes_declarator (hkind : q.kind = .variableDeclarator) :
    Describes p (.expression e) (aheadOfParent e q) := by
  unfold aheadOfParent
  rw [hkind]
  refine describes_of_parent hq (fun d => ?_) (fun r => ?_) ?_ ?_ ?_
  · rw [aheadOfBinding_next_iff he hq]
    simp [rebinds_iff hq, IsWrapper, hkind, and_assoc]
  · simp [aheadOfBinding_found_iff he hq, hkind, or_and_right, exists_or, Found.reads]
  · simp [aheadOfBinding_found_iff he hq, UntrackableParent, hkind]
  · rw [fails_aheadOfBinding_iff he hq, FaultyParent, hkind]
  · exact fun f => nodup_of_aheadOfBinding he hq

lemma describes_assignment (hkind : q.kind = .assignmentExpression) :
    Describes p (.expression e) (aheadOfParent e q) := by
  unfold aheadOfParent
  rw [hkind]
  cases hoperator : q.text? .operator with
  | error f =>
    refine describes_of_parent hq ?_ ?_ ?_ ?_ ?_ <;>
      simp [rebinds_iff hq, IsWrapper, UntrackableParent, FaultyParent, Fails, bind_ok_iff, hkind,
        hoperator]
  | ok operator =>
    rw [ok_bind]
    by_cases hplain : operator = some "="
    · subst hplain
      rw [if_pos (by rfl)]
      refine describes_of_parent hq (fun d => ?_) (fun r => ?_) ?_ ?_ ?_
      · rw [aheadOfBinding_next_iff he hq]
        simp [rebinds_iff hq, IsWrapper, hkind, hoperator, and_assoc]
      · simp [aheadOfBinding_found_iff he hq, hkind, or_and_right, exists_or, Found.reads]
      · simp [aheadOfBinding_found_iff he hq, UntrackableParent, hkind, hoperator]
      · rw [fails_aheadOfBinding_iff he hq, FaultyParent, hkind]
        simp [hoperator, not_fails_ok]
      · exact fun f => nodup_of_aheadOfBinding he hq
    · rw [if_neg (by simpa using hplain)]
      refine describes_of_parent hq ?_ ?_ ?_ ?_ ?_ <;>
        simp [rebinds_iff hq, IsWrapper, UntrackableParent, FaultyParent, Fails, pure_ok_iff,
          hkind, hoperator, hplain, Found.reads]

omit he in
lemma describes_wrapper (hkind : IsWrapper q) :
    Describes p (.expression e) (aheadOfParent e q) := by
  unfold aheadOfParent
  rcases hkind with hkind | hkind
  all_goals
    rw [hkind]
    refine describes_of_parent hq ?_ ?_ ?_ ?_ ?_ <;>
      simp [rebinds_iff hq, IsWrapper, UntrackableParent, FaultyParent, Fails, hkind]

omit he in
lemma describes_other (hmember : q.kind ≠ .memberExpression)
    (hassignment : q.kind ≠ .assignmentExpression) (hdeclarator : q.kind ≠ .variableDeclarator)
    (hwrapper : ¬IsWrapper q) : Describes p (.expression e) (aheadOfParent e q) := by
  obtain ⟨has, hnonNull⟩ := not_or.1 hwrapper
  have huntrackable : UntrackableParent e q := by
    unfold UntrackableParent
    split <;> trivial
  have hfaulty : ¬FaultyParent e q := by
    unfold FaultyParent
    split <;> first | exact id | contradiction
  rw [aheadOfParent_other hmember hassignment hdeclarator hwrapper]
  refine describes_of_parent hq ?_ ?_ (iff_of_true huntrackable rfl)
    (iff_of_false hfaulty (not_fails_ok _)) ?_ <;>
    simp [rebinds_iff hq, hmember, hassignment, hdeclarator, hwrapper, Found.reads]

omit hq in
lemma describes_expression : Describes p (.expression e) (ahead p (.expression e)) := by
  rw [ahead]
  split
  · rename_i q hq
    by_cases hmember : q.kind = .memberExpression
    · exact describes_member he hq hmember
    by_cases hassignment : q.kind = .assignmentExpression
    · exact describes_assignment he hq hassignment
    by_cases hdeclarator : q.kind = .variableDeclarator
    · exact describes_declarator he hq hdeclarator
    by_cases hwrapper : IsWrapper q
    · exact describes_wrapper hq hwrapper
    · exact describes_other hq hmember hassignment hdeclarator hwrapper
  · rename_i hq
    refine ⟨fun d => ?_, fun r => ?_, ?_, ?_, ?_⟩
    · refine iff_of_false (fun h => ?_) (by simp)
      cases h with
      | bound rebinds => cases rebinds <;> simp_all
      | wrapped parent => simp_all
    · refine iff_of_false (fun h => ?_) (by simp [Found.reads])
      cases h with
      | member parent => simp_all
    · simp [Untrackable, hq]
    · simp [Faulty, hq, not_fails_ok]
    · simp [Found.reads]

end Expressions

/-! ### Targets -/

section Targets

lemma Names.node_eq {o : Option Node} {r : PropertyRead} (h : Names o r) : o = some r.node := by
  cases h
  rfl

lemma patternRead_eq_some_iff {m : Node} {r : PropertyRead} :
    patternRead m = .ok (some r) ↔ Names (some m) r := by
  unfold patternRead
  constructor
  · intro h
    split at h
    · rename_i hkind
      obtain ⟨name, hname, h⟩ := bind_ok_iff.1 h
      cases name with
      | none => cases h
      | some name =>
        obtain ⟨o, ho, h⟩ := bind_ok_iff.1 h
        obtain rfl := Option.some.inj (pure_ok_iff.1 h)
        exact .intro (by simpa using hkind) hname ho
    · cases h
  · intro h
    cases h with
    | intro isProperty named hasValue => simp [isProperty, named, hasValue, ok_bind]

lemma patternRead_eq_none_iff {m : Node} : patternRead m = .ok none ↔ Nameless (some m) := by
  unfold patternRead Nameless
  simp only [Option.some.injEq, exists_eq_left']
  split
  · rename_i hkind
    have hkind : m.kind = .property := by simpa using hkind
    simp only [hkind, true_imp_iff]
    cases hname : m.staticName with
    | error f => simp [bind_ok_iff]
    | ok name => cases name <;> simp [ok_bind, map_ok_iff, pure_ok_iff]
  · rename_i hkind
    exact iff_of_true rfl fun h => absurd h (by simpa using hkind)

lemma fails_patternRead_iff {m : Node} : Fails (patternRead m) ↔ FaultyEntry (some m) := by
  unfold patternRead FaultyEntry
  simp only [Option.some.injEq, forall_eq']
  split
  · rename_i hkind
    have hkind : m.kind = .property := by simpa using hkind
    simp only [hkind, true_and]
    cases hname : m.staticName with
    | error f => simp [Fails, bind_ok_iff]
    | ok name => cases name <;> simp [Fails, ok_bind, map_ok_iff, pure_ok_iff]
  · rename_i hkind
    exact iff_of_false (not_fails_ok _) fun h => hkind (by simpa using h.1)

variable {ts : List (Option Node)}

lemma stopsAt_nil {P : Option Node → Prop} : ¬StopsAt P [] := by
  rintro ⟨before, o, after, h, -⟩
  cases before <;> cases h

lemma stopsAt_cons {P : Option Node → Prop} {o : Option Node} :
    StopsAt P (o :: ts) ↔ P o ∨ (∃ r, Names o r) ∧ StopsAt P ts := by
  constructor
  · rintro ⟨before, o', after, h, hbefore, ho'⟩
    cases before with
    | nil =>
      obtain ⟨rfl, rfl⟩ := List.cons.inj h
      exact .inl ho'
    | cons b before =>
      obtain ⟨rfl, rfl⟩ := List.cons.inj h
      obtain ⟨hb, hbefore⟩ := List.forall_mem_cons.1 hbefore
      exact .inr ⟨hb, before, o', after, rfl, hbefore, ho'⟩
  · rintro (ho | ⟨hnamed, before, o', after, rfl, hbefore, ho'⟩)
    · exact ⟨[], o, ts, rfl, nofun, ho⟩
    · exact ⟨o :: before, o', after, rfl, List.forall_mem_cons.2 ⟨hnamed, hbefore⟩, ho'⟩

lemma not_names_none {r : PropertyRead} : ¬Names none r := by
  intro h
  cases h

/-- What is found at an object pattern, by its entries. -/
lemma objectReads_iff (ts : List (Option Node)) :
    (∀ rs, objectReads ts = .ok (.pattern rs) ↔ List.Forall₂ Names ts rs) ∧
    (objectReads ts = .ok .any ↔ StopsAt Nameless ts) ∧
    (Fails (objectReads ts) ↔ StopsAt FaultyEntry ts) ∧
    ∀ f, objectReads ts = .ok f → f = .any ∨ ∃ rs, f = .pattern rs := by
  induction ts with
  | nil => simp [objectReads, stopsAt_nil, not_fails_ok, eq_comm]
  | cons o ts ih =>
    cases o with
    | none =>
      simp [objectReads, stopsAt_cons, List.forall₂_cons_left_iff, Nameless, FaultyEntry,
        not_names_none, fails_error]
    | some m =>
      simp only [List.forall₂_cons_left_iff, stopsAt_cons, ← patternRead_eq_some_iff,
        ← patternRead_eq_none_iff, ← fails_patternRead_iff]
      rw [objectReads]
      cases hread : patternRead m with
      | error f => simp [Fails, bind_ok_iff]
      | ok r =>
        cases r with
        | none => simp [ok_bind, pure_ok_iff, Fails]
        | some r =>
          obtain ⟨hpattern, hany, hfails, hcases⟩ := ih
          rw [ok_bind]
          dsimp only
          cases hreads : objectReads ts with
          | error f =>
            rw [hreads] at hpattern hany hfails
            simp_all [Fails, bind_ok_iff]
          | ok f =>
            rw [hreads] at hpattern hany hfails
            rcases hcases f hreads with rfl | ⟨rs, rfl⟩
            · simp_all [Fails, ok_bind, pure_ok_iff]
            · refine ⟨fun rs' => ?_, ?_, ?_, ?_⟩
              · simpa [ok_bind, pure_ok_iff, ← hpattern] using eq_comm
              all_goals simp_all [Fails, ok_bind, pure_ok_iff]

/-- No entry of a list stands in it twice. -/
lemma nodup_of_items {n : Node} (hn : p.Has n) {g : Field} (hts : n.items g = .ok ts) :
    (ts.filterMap id).Nodup := by
  rw [← Shape.below_of_items hts]
  exact nodup_of_subperm Shape.below_subperm_children
    (p.distinct_root.of_contains hn).nodup_children

lemma exists_of_forall₂ {α β : Type} {R : α → β → Prop} {as : List α} {bs : List β}
    (h : List.Forall₂ R as bs) {b : β} (hb : b ∈ bs) : ∃ a ∈ as, R a b := by
  induction h with
  | nil => cases hb
  | @cons a b' as bs hab _ ih =>
    rcases List.mem_cons.1 hb with rfl | hb
    · exact ⟨a, List.mem_cons_self, hab⟩
    · obtain ⟨a', ha', hab'⟩ := ih hb
      exact ⟨a', List.mem_cons_of_mem a ha', hab'⟩

lemma filterMap_of_names {rs : List PropertyRead} (h : List.Forall₂ Names ts rs) :
    ts.filterMap id = rs.map (·.node) := by
  induction h with
  | nil => rfl
  | cons hnames _ ih =>
    rw [hnames.node_eq, List.map_cons, ← ih]
    rfl

lemma core_unique {c c' : Node} (h : t.Core c) (h' : t.Core c') : c' = c := by
  rw [← Node.withoutDefault_eq_some_iff] at h h'
  exact Option.some.inj (Except.ok.inj (h'.symm.trans h))

/-- The rules for a target, in terms of the target without its defaults. -/
lemma describes_of_core {c : Node} (hcore : t.Core c) {x : Except Fault Ahead}
    (hleads : ∀ d, c.kind = .identifier ∧ (∃ v, p.find c = .ok (some v) ∧ .holder v = d) ↔
      x = .ok (.next d))
    (hcontributes : ∀ r, c.kind = .objectPattern ∧ (∃ ts rs, c.items .properties = .ok ts ∧
      List.Forall₂ Names ts rs ∧ r ∈ rs) ↔ ∃ f, x = .ok (.found f) ∧ r ∈ f.reads)
    (huntrackable : UntrackableTarget c ↔ x = .ok (.found .any))
    (hfaulty : FaultyTarget p c ↔ Fails x)
    (hdistinct : ∀ f, x = .ok (.found f) → (f.reads.map (·.node)).Nodup) :
    Describes p (.target t) x where
  leads d := by
    rw [← hleads]
    constructor
    · intro h
      cases h with
      | name core isIdentifier means =>
        obtain rfl := core_unique hcore core
        exact ⟨isIdentifier, _, means, rfl⟩
    · rintro ⟨isIdentifier, v, means, rfl⟩
      exact .name hcore isIdentifier means
  contributes r := by
    rw [← hcontributes]
    constructor
    · intro h
      cases h with
      | property core isPattern items entries mem =>
        obtain rfl := core_unique hcore core
        exact ⟨isPattern, _, _, items, entries, mem⟩
    · rintro ⟨isPattern, ts, rs, items, entries, mem⟩
      exact .property hcore isPattern items entries mem
  untrackable := by
    rw [← huntrackable]
    constructor
    · rintro ⟨c', hcore', h⟩
      rwa [core_unique hcore hcore'] at h
    · exact fun h => ⟨c, hcore, h⟩
  faulty := by
    rw [← hfaulty]
    constructor
    · rintro (hnone | ⟨c', hcore', h⟩)
      · exact absurd hcore (hnone c)
      · rwa [core_unique hcore hcore'] at h
    · exact fun h => .inr ⟨c, hcore, h⟩
  distinct := hdistinct

lemma describes_objectPattern {c : Node} (ht : p.Has t) (hcore : t.Core c)
    (hkind : c.kind = .objectPattern) : Describes p (.target t) (aheadOfCore p c) := by
  unfold aheadOfCore
  rw [hkind]
  cases hitems : c.items .properties with
  | error f =>
    refine describes_of_core hcore ?_ ?_ ?_ ?_ ?_ <;>
      simp [UntrackableTarget, FaultyTarget, Fails, bind_ok_iff, hkind, hitems]
  | ok ts =>
    obtain ⟨hpattern, hany, hfails, hcases⟩ := objectReads_iff ts
    rw [ok_bind]
    refine describes_of_core hcore (fun d => ?_) (fun r => ?_) ?_ ?_ ?_
    · simp [map_ok_iff, hkind]
    · constructor
      · rintro ⟨-, ts', rs, hts', entries, mem⟩
        obtain rfl := Except.ok.inj (hitems.symm.trans hts')
        exact ⟨.pattern rs, by rw [(hpattern rs).2 entries]; rfl, mem⟩
      · rintro ⟨f, hf, mem⟩
        obtain ⟨g, hg, hgf⟩ := bind_ok_iff.1 hf
        obtain rfl := Ahead.found.inj (pure_ok_iff.1 hgf)
        rcases hcases g hg with rfl | ⟨rs, rfl⟩
        · cases mem
        · exact ⟨hkind, ts, rs, hitems, (hpattern rs).1 hg, mem⟩
    · simp [UntrackableTarget, map_ok_iff, hkind, hitems, ← hany]
    · simp only [FaultyTarget, hkind, hitems, not_fails_ok, false_or, Except.ok.injEq,
        exists_eq_left', ← hfails]
      simp [Fails, map_ok_iff]
    · intro f hf
      obtain ⟨g, hg, hgf⟩ := bind_ok_iff.1 hf
      obtain rfl := Ahead.found.inj (pure_ok_iff.1 hgf)
      rcases hcases g hg with rfl | ⟨rs, rfl⟩
      · exact List.nodup_nil
      · rw [Found.reads, ← filterMap_of_names ((hpattern rs).1 hg)]
        exact nodup_of_items (ht.trans hcore.contains) hitems

lemma aheadOfCore_other {c : Node} (hpattern : c.kind ≠ .objectPattern)
    (hidentifier : c.kind ≠ .identifier) : aheadOfCore p c = .ok (.found .any) := by
  unfold aheadOfCore
  split <;> first | rfl | contradiction

lemma describes_core {c : Node} (ht : p.Has t) (hcore : t.Core c) :
    Describes p (.target t) (aheadOfCore p c) := by
  by_cases hpattern : c.kind = .objectPattern
  · exact describes_objectPattern ht hcore hpattern
  by_cases hidentifier : c.kind = .identifier
  · unfold aheadOfCore
    rw [hidentifier]
    cases hfind : p.find c with
    | error f =>
      refine describes_of_core hcore ?_ ?_ ?_ ?_ ?_ <;>
        simp [UntrackableTarget, FaultyTarget, Fails, bind_ok_iff, hidentifier, hfind]
    | ok v =>
      rw [ok_bind]
      cases v <;> refine describes_of_core hcore ?_ ?_ ?_ ?_ ?_ <;>
        simp [UntrackableTarget, FaultyTarget, Fails, pure_ok_iff, hidentifier, hfind, Found.reads]
  · have huntrackable : UntrackableTarget c := by
      unfold UntrackableTarget
      split <;> trivial
    have hfaulty : ¬FaultyTarget p c := by
      unfold FaultyTarget
      split <;> first | exact id | contradiction
    rw [aheadOfCore_other hpattern hidentifier]
    refine describes_of_core hcore ?_ ?_ (iff_of_true huntrackable rfl)
      (iff_of_false hfaulty (not_fails_ok _)) ?_ <;> simp [hpattern, hidentifier, Found.reads]

/-- A target that has nothing left when its defaults are taken off cannot be dealt with. -/
lemma describes_coreless (h : ∀ c, ¬t.Core c) {x : Except Fault Ahead} (hx : Fails x) :
    Describes p (.target t) x where
  leads d := by
    refine iff_of_false (fun hleads => ?_) (hx _)
    cases hleads with
    | name core => exact h _ core
  contributes r := by
    refine iff_of_false (fun hcontributes => ?_) fun ⟨f, hf, _⟩ => hx _ hf
    cases hcontributes with
    | property core => exact h _ core
  untrackable := iff_of_false (fun ⟨c, hcore, _⟩ => h c hcore) (hx _)
  faulty := iff_of_true (.inl h) hx
  distinct f hf := absurd hf (hx _)

lemma describes_target (ht : p.Has t) : Describes p (.target t) (ahead p (.target t)) := by
  have hiff : ∀ c, t.Core c ↔ t.withoutDefault = .ok (some c) :=
    fun c => Node.withoutDefault_eq_some_iff.symm
  rw [ahead]
  cases hcore : t.withoutDefault with
  | error f =>
    exact describes_coreless (by simp [hiff, hcore]) (by simp [Fails, bind_ok_iff])
  | ok o =>
    rw [ok_bind]
    cases o with
    | none => exact describes_coreless (by simp [hiff, hcore]) (fails_error _)
    | some c => exact describes_core ht ((hiff c).2 hcore)

end Targets

/-- What is seen from a node of the program is what the rules say. -/
lemma describes_ahead (hin : c.In p) (hnode : c.IsNode) : Describes p c (ahead p c) := by
  cases c with
  | expression e => exact describes_expression hin
  | target t => exact describes_target hin
  | holder v => cases hnode

/-! ## Steps stay in the program -/

lemma mem_variableIds_of_find {n : Node} {v : VariableId} (h : p.find n = .ok (some v)) :
    v ∈ p.graph.variableIds := by
  obtain ⟨s, -, h⟩ := bind_ok_iff.1 h
  obtain ⟨name, -, h⟩ := bind_ok_iff.1 h
  cases name with
  | none => cases h
  | some name =>
    obtain ⟨i, -, hi⟩ := List.exists_of_findSome?_eq_some (pure_ok_iff.1 h)
    split at hi
    · rename_i hdeclares
      obtain rfl := Option.some.inj hi
      have hget : (p.graph.get? ⟨i, name⟩).isSome := by rw [Graph.isSome_get?, hdeclares]
      obtain ⟨x, hx⟩ := Option.isSome_iff_exists.1 hget
      exact Graph.mem_variableIds_of_get? hx
    · cases hi

lemma Leads.in_program (h : Leads p c d) (hin : c.In p) : d.In p := by
  cases h with
  | read reference => exact (Program.has_of_mem_referencesTo reference).1
  | bound rebinds => exact rebinds.has hin
  | wrapped parent => exact (Program.Has.parent hin parent).1
  | name _ _ means => exact mem_variableIds_of_find means

end Property

end RefFlow
