import RefFlow.Proofs.Program
import RefFlow.Proofs.Search
import RefFlow.Tree.StaticName

/-!
# What a failing analysis can blame

An analysis that walks over a program asks its nodes for their parts, and fails where a node does
not have the part.  A node that the conversion produced by a rule has all the parts of its kind, so
the only nodes that can lack one are those of constructs without a rule that happen to bear the name
of a known kind.  Two more things can go wrong: the name of a member may be a number with too many
digits to be written, and a pattern with a default may have nothing in front of the default.

`Program.Blames p e` says that the fault `e` is of one of these sorts, and that there is a node of
the program to blame for it.  `FailsBy` and `Search.BreaksBy` are the corresponding conditions on
computations and searches: if they fail, the fault is of a given sort.  The rules for them follow
the shape of a program, as those for `Gives` do, except that a step that has succeeded is known by
its result, and not only by a property of it.

The last section shows that asking a node of the program for a part can be blamed on that node.
-/

namespace RefFlow

/-! ## Computations -/

namespace Fallible

variable {ε α β σ : Type} {B : ε → Prop}

/-- If the computation fails, the fault satisfies the condition. -/
def FailsBy (B : ε → Prop) (x : Except ε α) : Prop := ∀ e, x = .error e → B e

lemma failsBy_ok {a : α} : FailsBy B (.ok a : Except ε α) := nofun

lemma failsBy_pure {a : α} : FailsBy B (pure a : Except ε α) := nofun

lemma failsBy_throw {e : ε} (h : B e) : FailsBy B (throw e : Except ε α) := by
  intro e' he
  cases he
  exact h

/-- A computation that does not fail by anything but what is excluded has a result. -/
lemma FailsBy.exists_ok {x : Except ε α} (h : FailsBy B x) :
    (∃ a, x = .ok a) ∨ ∃ e, x = .error e ∧ B e := by
  cases x with
  | error e => exact .inr ⟨e, rfl, h e rfl⟩
  | ok a => exact .inl ⟨a, rfl⟩

lemma FailsBy.bind {x : Except ε α} {k : α → Except ε β} (hx : FailsBy B x)
    (hk : ∀ a, x = .ok a → FailsBy B (k a)) : FailsBy B (x >>= k) := by
  intro e he
  cases x with
  | error e' =>
    cases he
    exact hx e rfl
  | ok a => exact hk a rfl e he

/-- A step with two cases, after both of which the program goes on in the same way. -/
lemma FailsBy.ite_bind {c : Prop} [Decidable c] {x y : Except ε α} {k : α → Except ε β}
    (hx : c → FailsBy B x) (hy : ¬c → FailsBy B y)
    (hk : ∀ a, (if c then x else y) = .ok a → FailsBy B (k a)) :
    FailsBy B (if c then x >>= k else y >>= k) := by
  by_cases hc : c
  · rw [if_pos hc]
    rw [if_pos hc] at hk
    exact (hx hc).bind hk
  · rw [if_neg hc]
    rw [if_neg hc] at hk
    exact (hy hc).bind hk

lemma failsBy_mapM {f : α → Except ε β} {as : List α} (h : ∀ a ∈ as, FailsBy B (f a)) :
    FailsBy B (as.mapM f) := by
  induction as with
  | nil => exact failsBy_pure
  | cons a as ih =>
    rw [List.mapM_cons]
    refine (h a List.mem_cons_self).bind fun b _ => ?_
    exact (ih fun c hc => h c (List.mem_cons_of_mem a hc)).bind fun bs _ => failsBy_pure

lemma failsBy_foldlM {f : σ → α → Except ε σ} {as : List α} {s : σ}
    (step : ∀ s, ∀ a ∈ as, FailsBy B (f s a)) : FailsBy B (as.foldlM f s) := by
  induction as generalizing s with
  | nil => exact failsBy_pure
  | cons a as ih =>
    rw [List.foldlM_cons]
    refine (step s a List.mem_cons_self).bind fun t _ => ?_
    exact ih fun s b hb => step s b (List.mem_cons_of_mem a hb)

end Fallible

open Fallible

/-! ## Searches -/

namespace Search

variable {α β σ : Type} {B : Fault → Prop} {s t : Search α}

/-- If the search breaks off, the fault satisfies the condition. -/
def BreaksBy (B : Fault → Prop) : Search α → Prop
  | done => True
  | broken f => B f
  | found _ rest => rest.BreaksBy B

lemma breaksBy_done : BreaksBy B (done : Search α) := trivial

lemma breaksBy_pure {a : α} : BreaksBy B (pure a : Search α) := trivial

lemma breaksBy_ofList (as : List α) : BreaksBy B (ofList as) := by
  induction as with
  | nil => trivial
  | cons a as ih => exact ih

lemma BreaksBy.append (hs : BreaksBy B s) (ht : BreaksBy B t) : BreaksBy B (s ++ t) := by
  induction s with
  | done => exact ht
  | broken f => exact hs
  | found a rest ih => exact ih hs

lemma BreaksBy.bind {k : α → Search β} (hs : BreaksBy B s)
    (hk : ∀ a ∈ s.toList, BreaksBy B (k a)) : BreaksBy B (s >>= k) := by
  induction s with
  | done => trivial
  | broken f => exact hs
  | found a rest ih =>
    rw [found_bind]
    refine (hk a List.mem_cons_self).append (ih hs fun b hb => ?_)
    exact hk b (List.mem_cons_of_mem a hb)

lemma BreaksBy.map {f : α → β} (hs : BreaksBy B s) : BreaksBy B (f <$> s) :=
  hs.bind fun _ _ => breaksBy_pure

/-- The search goes on from a single result. -/
lemma breaksBy_liftM_bind {x : Except Fault α} {k : α → Search β} (hx : FailsBy B x)
    (hk : ∀ a, x = .ok a → BreaksBy B (k a)) : BreaksBy B ((liftM x : Search α) >>= k) := by
  cases x with
  | error f => exact hx f rfl
  | ok a =>
    rw [liftM_ok_bind rfl]
    exact hk a rfl

lemma BreaksBy.filterMap {f : α → Option β} (hs : BreaksBy B s) : BreaksBy B (s.filterMap f) := by
  induction s with
  | done => trivial
  | broken e => exact hs
  | found a rest ih =>
    rw [Search.filterMap]
    split
    · exact ih hs
    · exact ih hs

/-- Handling what is found fails by what breaks off the search, or by what a single step fails
by. -/
lemma BreaksBy.foldM {step : σ → α → Except Fault σ} (hs : BreaksBy B s)
    (hstep : ∀ x, ∀ a ∈ s.toList, FailsBy B (step x a)) (x : σ) :
    FailsBy B (s.foldM step x) := by
  induction s generalizing x with
  | done => exact failsBy_ok
  | broken f => exact failsBy_throw hs
  | found a rest ih =>
    refine (hstep x a List.mem_cons_self).bind fun y _ => ?_
    exact ih hs (fun z b hb => hstep z b (List.mem_cons_of_mem a hb)) y

end Search

/-! ## Blame -/

/-- The parts for which the search for reactive values and their uses asks a node of a kind. -/
def Kind.asked : Kind → List Field
  | .program => [.body]
  | .importDeclaration => [.source, .specifiers]
  | .importSpecifier => [.imported, .localName]
  | .importDefaultSpecifier | .importNamespaceSpecifier => [.localName]
  | .variableDeclarator => [.id, .init]
  | .assignmentExpression => [.operator, .left, .right]
  | .callExpression => [.callee, .arguments]
  | .newExpression => [.callee]
  | .memberExpression => [.object, .property, .computed]
  | .objectExpression => [.properties]
  | .objectPattern => [.properties]
  | .arrayPattern => [.elements]
  | .assignmentPattern => [.left, .right]
  | .restElement => [.argument]
  | .property => [.key, .computed, .value]
  | .identifier | .privateIdentifier => [.name]
  | .literal => [.value, .raw]
  | .templateLiteral => [.cooked]
  | _ => []

namespace Program

variable {p : Program} {n : Node} {k : Kind} {f : Field}

/-- There is a node of the program that accounts for the fault. -/
inductive Blames (p : Program) : Fault → Prop
  /-- A construct without a rule of its own bears the name of a known kind and is asked for a part
  of it. -/
  | unknown {n : Node} {f : Field} (has : p.Has n) (isGeneric : n.shape.IsGeneric)
      (isAsked : f ∈ n.kind.asked) : Blames p (.missingField n.kind f)
  /-- A number has too many digits to be written. -/
  | overlong {n : Node} {m : Numeral} (has : p.Has n) (isLiteral : n.kind = .literal)
      (value : n.shape.slot .value = .ok (.numeral m)) (unwritten : m.name? = none) :
      Blames p .overlongNumber
  /-- A pattern has a default and nothing that it is the default of. -/
  | bare {n : Node} (has : p.Has n) (isDefault : n.kind = .assignmentPattern)
      (left : n.child .left = .ok none) : Blames p (.missingNode "left")

/-! ## Asking a node -/

lemma mem_parts_of_mem_asked (h : f ∈ k.asked) : f ∈ k.parts.map Prod.fst := by
  have hall : ∀ f ∈ k.asked, f ∈ k.parts.map Prod.fst := by
    cases k with
    | other name => nofun
    | _ => decide
  exact hall f h

lemma ne_nodes_of_mem_asked (h : f ∈ k.asked) : f ≠ .nodes := by
  have hall : ∀ f ∈ k.asked, f ≠ .nodes := by
    cases k with
    | other name => nofun
    | _ => decide
  exact hall f h

/-- A construct without a rule of its own has no part that it could be asked for. -/
lemma slot_of_isGeneric (hn : n.shape.IsGeneric) (hk : n.kind = k) (hf : f ∈ k.asked) :
    n.shape.slot f = .error (.missingField k f) := by
  subst hk
  obtain ⟨ts, hts⟩ := hn
  rw [Shape.slot, Shape.slot?, hts, List.lookup_cons, beq_false_of_ne (ne_nodes_of_mem_asked hf)]
  rfl

/-- A node that lacks a part that it is asked for is to blame for that. -/
lemma Has.failsBy_slot (h : p.Has n) (hk : n.kind = k) (hf : f ∈ k.asked) :
    FailsBy p.Blames (n.shape.slot f) := by
  subst hk
  obtain ⟨⟨g, a⟩, hpart, rfl⟩ := List.mem_map.1 (mem_parts_of_mem_asked hf)
  rcases h.conforms.part hpart with ⟨v, hv, -⟩ | hgeneric
  · rw [hv]
    exact failsBy_ok
  · rw [slot_of_isGeneric hgeneric rfl hf]
    exact failsBy_throw (.unknown h hgeneric hf)

/-- What a node has in a part that it is asked for fits the part. -/
lemma Has.fits (h : p.Has n) (hk : n.kind = k) (hf : f ∈ k.asked) {a : Arity}
    (ha : (f, a) ∈ k.parts) {v : Slot Node} (hv : n.shape.slot f = .ok v) : v.Fits a := by
  subst hk
  rcases h.conforms.part ha with ⟨w, hw, hfits⟩ | hgeneric
  · obtain rfl : w = v := Except.ok.inj (hw.symm.trans hv)
    exact hfits
  · rw [slot_of_isGeneric hgeneric rfl hf] at hv
    cases hv

/-- A node of a construct with a rule has the parts that it is asked for. -/
lemma Has.exists_slot (h : p.Has n) (hn : ¬n.shape.IsGeneric) (hk : n.kind = k)
    (hf : f ∈ k.asked) : ∃ v, n.shape.slot f = .ok v := by
  subst hk
  obtain ⟨⟨g, a⟩, hpart, rfl⟩ := List.mem_map.1 (mem_parts_of_mem_asked hf)
  obtain ⟨v, hv, -⟩ := (h.conforms.part hpart).resolve_right hn
  exact ⟨v, hv⟩

lemma Has.exists_child (h : p.Has n) (hn : ¬n.shape.IsGeneric) (hk : n.kind = k)
    (hf : f ∈ k.asked) : ∃ o, n.child f = .ok o := by
  obtain ⟨v, hv⟩ := h.exists_slot hn hk hf
  rw [Tree.child, Shape.child, hv]
  cases v <;> exact ⟨_, rfl⟩

lemma Has.failsBy_child (h : p.Has n) (hk : n.kind = k) (hf : f ∈ k.asked) :
    FailsBy p.Blames (n.child f) := by
  refine (h.failsBy_slot hk hf).bind fun v _ => ?_
  cases v <;> exact failsBy_pure

lemma Has.failsBy_flag (h : p.Has n) (hk : n.kind = k) (hf : f ∈ k.asked) :
    FailsBy p.Blames (n.flag f) := by
  refine (h.failsBy_slot hk hf).bind fun v _ => ?_
  cases v <;> exact failsBy_pure

lemma Has.failsBy_text? (h : p.Has n) (hk : n.kind = k) (hf : f ∈ k.asked) :
    FailsBy p.Blames (n.text? f) := by
  refine (h.failsBy_slot hk hf).bind fun v _ => ?_
  cases v <;> exact failsBy_pure

/-- A part that holds a list is not taken for one in vain. -/
lemma Has.failsBy_items (h : p.Has n) (hk : n.kind = k) (hf : f ∈ k.asked)
    (ha : (f, .many) ∈ k.parts ∨ (f, .sparse) ∈ k.parts) : FailsBy p.Blames (n.items f) := by
  refine (h.failsBy_slot hk hf).bind fun v hv => ?_
  cases v with
  | list ts => exact failsBy_pure
  | _ => rcases ha with ha | ha <;> cases h.fits hk hf ha hv

lemma Has.exists_items (h : p.Has n) (hn : ¬n.shape.IsGeneric) (hk : n.kind = k)
    (hf : f ∈ k.asked) (ha : (f, .many) ∈ k.parts) : ∃ ts, n.items f = .ok ts := by
  obtain ⟨v, hv⟩ := h.exists_slot hn hk hf
  have hfits := h.fits hk hf ha hv
  rw [Tree.items, Shape.items, hv]
  cases v with
  | list ts => exact ⟨ts, rfl⟩
  | _ => cases hfits

/-- A list in which no place may be left empty has no empty place. -/
lemma Has.exists_of_mem_items (h : p.Has n) (hk : n.kind = k) (hf : f ∈ k.asked)
    (ha : (f, .many) ∈ k.parts) {ts : List (Option Node)} (hts : n.items f = .ok ts)
    {t : Option Node} (ht : t ∈ ts) : ∃ c, t = some c ∧ p.Has c := by
  obtain ⟨v, hv, hlist⟩ := bind_ok_iff.1 hts
  cases v with
  | list us =>
    obtain rfl : us = ts := pure_ok_iff.1 hlist
    have hfull : none ∉ us := h.fits hk hf ha hv
    cases t with
    | none => exact absurd ht hfull
    | some c => exact ⟨c, rfl, h.item hts ht⟩
  | _ => exact absurd hlist throw_ne_ok

/-- A part that holds a node of certain kinds holds one. -/
lemma Has.exists_of_child (h : p.Has n) (hk : n.kind = k) (hf : f ∈ k.asked) {kinds : List Kind}
    (ha : (f, .exactly kinds) ∈ k.parts) {o : Option Node} (ho : n.child f = .ok o) :
    ∃ c, o = some c ∧ p.Has c ∧ c.kind ∈ kinds := by
  obtain ⟨v, hv, hnode⟩ := bind_ok_iff.1 ho
  have hfits : v.Fits (.exactly kinds) := h.fits hk hf ha hv
  cases v with
  | node c =>
    obtain rfl : some c = o := pure_ok_iff.1 hnode
    exact ⟨c, rfl, h.child ho, hfits⟩
  | _ => cases hfits

/-- A part that holds at most one node of certain kinds holds no other. -/
lemma Has.kind_of_child (h : p.Has n) (hk : n.kind = k) (hf : f ∈ k.asked) {kinds : List Kind}
    (ha : (f, .atMost kinds) ∈ k.parts) {c : Node} (hc : n.child f = .ok (some c)) :
    c.kind ∈ kinds := by
  obtain ⟨v, hv, hnode⟩ := bind_ok_iff.1 hc
  have hfits : v.Fits (.atMost kinds) := h.fits hk hf ha hv
  cases v with
  | node d =>
    obtain rfl : d = c := Option.some_inj.1 (pure_ok_iff.1 hnode)
    exact hfits
  | _ => simp [pure_ok_iff] at hnode

/-! ### Names of members -/

lemma Has.failsBy_literalName (h : p.Has n) (hk : n.kind = .literal) :
    FailsBy p.Blames n.literalName := by
  refine (h.failsBy_slot hk (by decide)).bind fun v hv => ?_
  cases v with
  | numeral m =>
    dsimp only
    split
    · exact failsBy_pure
    · rename_i hnone
      exact failsBy_throw (.overlong h hk hv hnone)
  | text s => exact failsBy_pure
  | _ => exact h.failsBy_text? hk (by decide)

lemma Has.failsBy_keyName (h : p.Has n) (computed : Bool) :
    FailsBy p.Blames (n.keyName computed) := by
  unfold Node.keyName
  split
  · rename_i hk
    split
    · exact failsBy_ok
    · exact h.failsBy_text? hk (by decide)
  · rename_i hk
    split
    · exact failsBy_ok
    · exact h.failsBy_text? hk (by decide)
  · rename_i hk
    exact h.failsBy_literalName hk
  · rename_i hk
    exact h.failsBy_text? hk (by decide)
  · exact failsBy_ok

/-- Asking for the name of the member that an expression or a property names can be blamed on the
node or on its key. -/
lemma Has.failsBy_keyNameAt (h : p.Has n) {k : Kind} (hk : n.kind = k) {f : Field}
    (hf : f ∈ k.asked) (hcomputed : .computed ∈ k.asked) : FailsBy p.Blames (do
      match ← n.child f with
      | none => return none
      | some key => Node.keyName (← n.flag .computed) key) := by
  refine (h.failsBy_child hk hf).bind fun o ho => ?_
  cases o with
  | none => exact failsBy_pure
  | some key =>
    exact (h.failsBy_flag hk hcomputed).bind fun computed _ =>
      (h.child ho).failsBy_keyName computed

lemma Has.failsBy_staticName (h : p.Has n) (hk : n.kind = .memberExpression ∨ n.kind = .property) :
    FailsBy p.Blames n.staticName := by
  unfold Node.staticName
  rcases hk with hk | hk
  · rw [hk]
    exact h.failsBy_keyNameAt hk (by decide) (by decide)
  · rw [hk]
    exact h.failsBy_keyNameAt hk (by decide) (by decide)

/-! ### Patterns -/

/-- A pattern that is nothing but defaults has a default in it that is to blame. -/
lemma Has.blames_of_withoutDefault (h : p.Has n) (hn : n.withoutDefault = .ok none) :
    p.Blames (.missingNode "left") := by
  induction n using Tree.induction with
  | step n ih =>
    by_cases hk : n.kind = .assignmentPattern
    · rw [Node.withoutDefault_of_eq hk] at hn
      obtain ⟨o, ho, hn⟩ := bind_ok_iff.1 hn
      cases o with
      | none => exact .bare h hk ho
      | some l => exact ih l (Shape.mem_children_of_child ho) (h.child ho) hn
    · rw [Node.withoutDefault_of_ne hk] at hn
      cases hn

lemma Has.failsBy_withoutDefault (h : p.Has n) : FailsBy p.Blames n.withoutDefault := by
  induction n using Tree.induction with
  | step n ih =>
    by_cases hk : n.kind = .assignmentPattern
    · rw [Node.withoutDefault_of_eq hk]
      refine (h.failsBy_child hk (by decide)).bind fun o ho => ?_
      cases o with
      | none => exact failsBy_ok
      | some l => exact ih l (Shape.mem_children_of_child ho) (h.child ho)
    · rw [Node.withoutDefault_of_ne hk]
      exact failsBy_ok

end Program

end RefFlow
