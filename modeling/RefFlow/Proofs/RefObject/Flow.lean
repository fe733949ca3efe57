import RefFlow.Proofs.Property.Nests
import RefFlow.Proofs.Trace.Outcomes
import RefFlow.RefObject

/-!
# Where ref objects flow

The rules by which a ref object gets from the call that creates it to the places where it is
referred to, stated on the program alone, without the walk that collects them.

* `Rebinds p n t`: the expression `n` is bound or assigned to the target `t`, and
  `Destination p n t`: the factory call `n` goes to the target `t`.
* `Reaches p s x`: the object of the site `s` reaches the stand `x`, which is a target that receives
  it, an occurrence of a variable that has it, or a member expression that has it as its value.
  This is the least relation closed under the rules.
* `Recorded p s n`: the node `n` is a reference to the object of the site `s`: a call that goes
  nowhere, a pattern that takes the object apart, or an occurrence or a member expression that is
  not bound again.
* `FlowStep p x y`: the value goes from the node `x` to the node `y` in one step.

The functions of the walk that decide these questions locally are related to the rules by
`rebinding?_eq_some_iff` and `destination?_eq_some_iff`.
-/

namespace RefFlow

open Fallible

namespace RefObject

variable {p : Program} {s : Site} {n : Node}

/-! ## Bindings -/

/-- The expression initialises a declarator with the target as its name, or is the right side of a
plain assignment with the target on its left. -/
inductive Rebinds (p : Program) (n : Node) : Option Node → Prop
  | declarator {d : Node} {t : Option Node} (parent : p.parent? n = some d)
      (isDeclarator : d.kind = .variableDeclarator) (init : d.child .init = .ok (some n))
      (id : d.child .id = .ok t) : Rebinds p n t
  | assignment {e : Node} {t : Option Node} (parent : p.parent? n = some e)
      (isAssignment : e.kind = .assignmentExpression)
      (isPlain : e.text? .operator = .ok (some "=")) (right : e.child .right = .ok (some n))
      (left : e.child .left = .ok t) : Rebinds p n t

/-- The call initialises a declarator with the target as its name, or stands in a plain assignment
with the target on its left. -/
inductive Destination (p : Program) (n : Node) : Option Node → Prop
  | declarator {d : Node} {t : Option Node} (parent : p.parent? n = some d)
      (isDeclarator : d.kind = .variableDeclarator) (init : d.child .init = .ok (some n))
      (id : d.child .id = .ok t) : Destination p n t
  | assignment {e : Node} {t : Option Node} (parent : p.parent? n = some e)
      (isAssignment : e.kind = .assignmentExpression)
      (isPlain : e.text? .operator = .ok (some "=")) (left : e.child .left = .ok t) :
      Destination p n t

lemma Rebinds.has {t : Node} (h : Rebinds p n (some t)) (hn : p.Has n) : p.Has t := by
  cases h with
  | declarator parent _ _ id => exact (hn.parent parent).1.child id
  | assignment parent _ _ _ left => exact (hn.parent parent).1.child left

lemma Destination.has {t : Node} (h : Destination p n (some t)) (hn : p.Has n) : p.Has t := by
  cases h with
  | declarator parent _ _ id => exact (hn.parent parent).1.child id
  | assignment parent _ _ left => exact (hn.parent parent).1.child left

/-- A call that goes to a target other than itself is what the target is bound to. -/
lemma Destination.rebinds {t : Node} (h : Destination p n (some t)) (hn : p.Has n) (hne : t ≠ n) :
    Rebinds p n (some t) := by
  cases h with
  | declarator parent isDeclarator init id => exact .declarator parent isDeclarator init id
  | assignment parent isAssignment isPlain left =>
    obtain ⟨he, hc⟩ := hn.parent parent
    have hright := he.right_of_assignment isAssignment left hc (by simpa using hne)
    exact .assignment parent isAssignment isPlain hright left

lemma rebinding?_eq_some_iff (hn : p.Has n) {t : Option Node} :
    rebinding? p n = .ok (some t) ↔ Rebinds p n t := by
  constructor
  · intro h
    unfold rebinding? at h
    split at h
    · cases h
    · rename_i q hq
      obtain ⟨hqhas, -⟩ := hn.parent hq
      split at h
      · rename_i hkind
        obtain ⟨op, hop, h⟩ := bind_ok_iff.1 h
        split at h
        · rename_i heq
          obtain ⟨o, ho, h⟩ := bind_ok_iff.1 h
          split at h
          · rename_i hright
            obtain ⟨t', ht, h⟩ := bind_ok_iff.1 h
            obtain rfl : t' = t := by simpa [pure_ok_iff] using h
            obtain rfl : op = some "=" := by simpa using heq
            obtain rfl := (hn.isNode_iff hqhas ho).1 hright
            exact .assignment hq hkind hop ho ht
          · simp [pure_ok_iff] at h
        · simp [pure_ok_iff] at h
      · rename_i hkind
        obtain ⟨o, ho, h⟩ := bind_ok_iff.1 h
        split at h
        · rename_i hinit
          obtain ⟨t', ht, h⟩ := bind_ok_iff.1 h
          obtain rfl : t' = t := by simpa [pure_ok_iff] using h
          obtain rfl := (hn.isNode_iff hqhas ho).1 hinit
          exact .declarator hq hkind ho ht
        · simp [pure_ok_iff] at h
      · cases h
  · intro h
    cases h with
    | declarator parent isDeclarator init id =>
      simp [rebinding?, parent, isDeclarator, init, id, Node.isNode, ok_bind]
    | assignment parent isAssignment isPlain right left =>
      simp [rebinding?, parent, isAssignment, isPlain, right, left, Node.isNode, ok_bind]

lemma destination?_eq_some_iff (hn : p.Has n) {t : Option Node} :
    destination? p n = .ok (some t) ↔ Destination p n t := by
  constructor
  · intro h
    unfold destination? at h
    split at h
    · cases h
    · rename_i q hq
      obtain ⟨hqhas, -⟩ := hn.parent hq
      split at h
      · rename_i hkind
        obtain ⟨o, ho, h⟩ := bind_ok_iff.1 h
        split at h
        · rename_i hinit
          obtain ⟨t', ht, h⟩ := bind_ok_iff.1 h
          obtain rfl : t' = t := by simpa [pure_ok_iff] using h
          obtain rfl := (hn.isNode_iff hqhas ho).1 hinit
          exact .declarator hq hkind ho ht
        · simp [pure_ok_iff] at h
      · rename_i hkind
        obtain ⟨op, hop, h⟩ := bind_ok_iff.1 h
        split at h
        · rename_i heq
          obtain ⟨t', ht, h⟩ := bind_ok_iff.1 h
          obtain rfl : t' = t := by simpa [pure_ok_iff] using h
          obtain rfl : op = some "=" := by simpa using heq
          exact .assignment hq hkind hop ht
        · simp [pure_ok_iff] at h
      · cases h
  · intro h
    cases h with
    | declarator parent isDeclarator init id =>
      simp [destination?, parent, isDeclarator, init, id, Node.isNode, ok_bind]
    | assignment parent isAssignment isPlain left =>
      simp [destination?, parent, isAssignment, isPlain, left, ok_bind]

lemma not_rebinds_of_rebinding? (hn : p.Has n) (h : rebinding? p n = .ok none) :
    ¬∃ t, Rebinds p n t := by
  rintro ⟨t, ht⟩
  rw [(rebinding?_eq_some_iff hn).2 ht] at h
  cases h

lemma not_destination_of_destination? (hn : p.Has n) (h : destination? p n = .ok none) :
    ¬∃ t, Destination p n t := by
  rintro ⟨t, ht⟩
  rw [(destination?_eq_some_iff hn).2 ht] at h
  cases h

/-! ## The flow of an object -/

/-- The call is one of those that the scan for factories finds. -/
def IsSite (p : Program) (s : Site) : Prop := s ∈ (Site.ofFactories p p.options).toList

/-- A fresh extractor finds that a property of the value at the target goes there. -/
def PropertyNest (p : Program) (target : Option Node) (nest : Nest) : Prop :=
  ∃ found, ((Property.ofPattern p target).run.run {}).1 = .ok found ∧
    ∃ name ∈ found.properties.keys, nest ∈ found.nests name

/-- The reference stands on the identifier that is the one definition of its variable. -/
def IsDefinition (p : Program) (r : Reference) : Prop :=
  ∃ d, p.soleDefinition? r = some d ∧ r.identifier.id = d.identifier.id

/-- Where a ref object can be. -/
inductive Stand where
  /-- A target that receives it. -/
  | target (t : Node)
  /-- An occurrence of a variable that has it. -/
  | occurrence (r : Reference)
  /-- A member expression that has it as its value. -/
  | member (m : Node)

/-- The object of the site reaches the stand. -/
inductive Reaches (p : Program) (s : Site) : Stand → Prop
  | bound {t : Node} (single : s.method ≠ Site.spreading)
      (destination : Destination p s.node (some t)) : Reaches p s (.target t)
  | spreadPattern {t : Option Node} {u : Node} (spreads : s.method = Site.spreading)
      (destination : Destination p s.node t) (nest : PropertyNest p t (.pattern (some u))) :
      Reaches p s (.target u)
  | spreadMember {t : Option Node} {m : Node} (spreads : s.method = Site.spreading)
      (destination : Destination p s.node t) (nest : PropertyNest p t (.expression m)) :
      Reaches p s (.member m)
  | default {t l : Node} (received : Reaches p s (.target t))
      (isDefault : t.kind = .assignmentPattern) (left : t.child .left = .ok (some l)) :
      Reaches p s (.target l)
  | occurrence {b : Node} {v : VariableId} {r : Reference} (received : Reaches p s (.target b))
      (isIdentifier : b.kind = .identifier) (means : p.find b = .ok (some v))
      (reference : r ∈ p.referencesTo v) (isUse : ¬IsDefinition p r) : Reaches p s (.occurrence r)
  | reboundOccurrence {r : Reference} {t : Node} (occurs : Reaches p s (.occurrence r))
      (reads : r.access.reads = true) (rebinds : Rebinds p r.identifier (some t)) :
      Reaches p s (.target t)
  | reboundMember {m t : Node} (carries : Reaches p s (.member m))
      (rebinds : Rebinds p m (some t)) : Reaches p s (.target t)

/-- The node is a reference to the object of the site. -/
inductive Recorded (p : Program) (s : Site) : Node → Prop
  | call (single : s.method ≠ Site.spreading) (unbound : ¬∃ t, Destination p s.node t) :
      Recorded p s s.node
  | pattern {t : Node} (received : Reaches p s (.target t)) (isPattern : t.kind = .objectPattern) :
      Recorded p s t
  | occurrence {r : Reference} (occurs : Reaches p s (.occurrence r))
      (unbound : ¬(r.access.reads = true ∧ ∃ t, Rebinds p r.identifier t)) :
      Recorded p s r.identifier
  | member {m : Node} (carries : Reaches p s (.member m)) (unbound : ¬∃ t, Rebinds p m t) :
      Recorded p s m

/-! ### Objects stay in the program -/

lemma IsSite.has (h : IsSite p s) : p.Has s.node := (Site.has_of_mem_ofFactories h).1

lemma IsSite.isCall (h : IsSite p s) : s.node.kind = .callExpression :=
  (Site.has_of_mem_ofFactories h).2

lemma PropertyNest.nestIn {t : Option Node} {nest : Nest} (h : PropertyNest p t nest)
    (ht : ∀ n ∈ t, p.Has n) : nest.In p := by
  obtain ⟨found, hf, name, hname, hnest⟩ := h
  exact (Property.found_in_ofPattern ht hf).nest (List.mem_flatMap.2 ⟨name, hname, hnest⟩)

/-- The stand is in the program. -/
def Stand.In (p : Program) : Stand → Prop
  | .target t => p.Has t
  | .occurrence r => p.Has r.identifier ∧ ∃ v, r ∈ p.referencesTo v
  | .member m => p.Has m ∧ m.kind = .memberExpression

lemma Reaches.standIn {x : Stand} (h : Reaches p s x) (hs : p.Has s.node) : x.In p := by
  induction h with
  | bound _ destination => exact destination.has hs
  | spreadPattern _ destination nest =>
    refine nest.nestIn ?_ _ rfl
    rintro t rfl
    exact destination.has hs
  | spreadMember _ destination nest =>
    refine nest.nestIn ?_
    rintro t rfl
    exact destination.has hs
  | default _ _ left ih => exact Program.Has.child ih left
  | occurrence _ _ _ reference _ _ =>
    exact ⟨(Program.has_of_mem_referencesTo reference).1, _, reference⟩
  | reboundOccurrence _ _ rebinds ih => exact rebinds.has ih.1
  | reboundMember _ rebinds ih => exact rebinds.has ih.1

lemma Recorded.has (h : Recorded p s n) (hs : p.Has s.node) : p.Has n := by
  cases h with
  | call => exact hs
  | pattern received _ => exact received.standIn hs
  | occurrence occurs _ => exact (occurs.standIn hs).1
  | member carries _ => exact (carries.standIn hs).1

/-- A target that receives an object hands it to what is left of it without its defaults. -/
lemma Reaches.core {t c : Node} (h : Reaches p s (.target t)) (hc : t.Core c) :
    Reaches p s (.target c) := by
  induction hc with
  | self => exact h
  | left isDefault child _ ih => exact ih (.default h isDefault child)

/-! ## Single steps -/

/-- The node can be bound to a value: a name, or a pattern that takes the value apart. -/
def IsTarget (n : Node) : Prop := n.kind = .identifier ∨ n.kind = .objectPattern

/-- A call is not what is left of a target. -/
lemma not_isTarget_of_core_call {c : Node} (hn : n.kind = .callExpression) (hc : n.Core c) :
    ¬IsTarget c := by
  cases hc with
  | self => simp [IsTarget, hn]
  | left isDefault => simp [hn] at isDefault

/-- The value goes from the one node to the other in one step. -/
inductive FlowStep (p : Program) : Node → Node → Prop
  /-- From a call to the target that it initialises or is assigned to. -/
  | call {s : Site} {t c : Node} (site : IsSite p s) (single : s.method ≠ Site.spreading)
      (rebinds : Rebinds p s.node (some t)) (core : t.Core c) (isTarget : IsTarget c) :
      FlowStep p s.node c
  /-- From a call that spreads to a target that receives a property. -/
  | property {s : Site} {t : Option Node} {u c : Node} (site : IsSite p s)
      (spreads : s.method = Site.spreading) (destination : Destination p s.node t)
      (nest : PropertyNest p t (.pattern (some u))) (core : u.Core c) (isTarget : IsTarget c) :
      FlowStep p s.node c
  /-- From a call that spreads to a member expression that has a property as its value. -/
  | member {s : Site} {t : Option Node} {m : Node} (site : IsSite p s)
      (spreads : s.method = Site.spreading) (destination : Destination p s.node t)
      (nest : PropertyNest p t (.expression m)) (isMember : m.kind = .memberExpression) :
      FlowStep p s.node m
  /-- From an occurrence that is read and bound again to the target. -/
  | occurrence {v : VariableId} {r : Reference} {t c : Node} (reference : r ∈ p.referencesTo v)
      (reads : r.access.reads = true) (rebinds : Rebinds p r.identifier (some t)) (core : t.Core c)
      (isTarget : IsTarget c) : FlowStep p r.identifier c
  /-- From a member expression that is bound again to the target. -/
  | rebound {m t c : Node} (isMember : m.kind = .memberExpression) (rebinds : Rebinds p m (some t))
      (core : t.Core c) (isTarget : IsTarget c) : FlowStep p m c
  /-- From a name that is bound to an occurrence of its variable. -/
  | reference {b : Node} {v : VariableId} {r : Reference} (isIdentifier : b.kind = .identifier)
      (means : p.find b = .ok (some v)) (reference : r ∈ p.referencesTo v) :
      FlowStep p b r.identifier

end RefObject

end RefFlow
