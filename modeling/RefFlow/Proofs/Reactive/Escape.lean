import RefFlow.Proofs.Reactive.Calls
import RefFlow.Reactive

/-!
# What is handed to the escape hint

Whether a node is handed to the escape hint is found out by going up from it, until a call or a node
is met that hands nothing on.  This module describes the same nodes by going down from the arguments
of the calls (`Below`).  A literal hands on what stands in it (`Hands`).

* `handed_of_hands` and `handed_of_argument` say what one step up does if the node above hands the
  node on, or is a call with the node among its arguments, and `cases_of_handed` that there are no
  other steps to go on with.
* `handed_eq_true_iff` follows by induction, along the nodes above in one direction and along the
  steps down in the other.
* `exists_handed` says that there is an answer, if what bears the name of a literal or a call is one
  (`Program.Known`).
-/

namespace RefFlow

open Fallible

namespace Escape

variable {p : Program} {calls rest : List Node} {n q call : Node}

/-! ## Handing on -/

/-- A literal or a part of one hands a node on: an array all nodes right below it, a spread element
its argument, an object its properties, and a property its value. -/
inductive Hands : Node → Node → Prop
  | element {q n : Node} (isArray : q.kind = .arrayExpression) (mem : n ∈ q.children) : Hands q n
  | argument {q n : Node} (isSpread : q.kind = .spreadElement)
      (argument : q.child .argument = .ok (some n)) : Hands q n
  | property {q n : Node} {ts : List (Option Node)} (isObject : q.kind = .objectExpression)
      (properties : q.items .properties = .ok ts) (mem : some n ∈ ts) : Hands q n
  | value {q n : Node} (isProperty : q.kind = .property)
      (value : q.child .value = .ok (some n)) : Hands q n

/-- The node is got to from an argument of one of the calls by steps to what is handed on. -/
def Below (calls : List Node) (n : Node) : Prop :=
  ∃ call ∈ calls, ∃ args, call.items .arguments = .ok args ∧
    ∃ a, some a ∈ args ∧ Relation.ReflTransGen Hands a n

lemma Hands.mem_children (h : Hands q n) : n ∈ q.children := by
  cases h with
  | element _ hmem => exact hmem
  | argument _ hchild => exact Shape.mem_children_of_child hchild
  | property _ hitems hmem => exact Shape.mem_children_of_items hitems hmem
  | value _ hchild => exact Shape.mem_children_of_child hchild

/-- Going down does not lead out of the program. -/
lemma has_of_hands {a : Node} (ha : p.Has a) (h : Relation.ReflTransGen Hands a n) : p.Has n := by
  induction h with
  | refl => exact ha
  | tail _ hlast ih => exact ih.trans (Tree.contains_child hlast.mem_children)

/-- Whatever stands right in a spread element is its argument. -/
lemma hands_of_spreadElement (hp : p.Known) (hq : p.Has q) (hkind : q.kind = .spreadElement)
    (hn : n ∈ q.children) : Hands q n := by
  have hparts : q.shape.kind.parts = [(.argument, .one)] := by
    have hshape : q.shape.kind = .spreadElement := hkind
    rw [hshape]
    rfl
  have hrule : ¬q.shape.IsGeneric := hp q hq (by rw [hkind]; decide)
  obtain ⟨v, hv, -⟩ := (hq.conforms.part (hparts ▸ List.mem_singleton.2 rfl)).resolve_right hrule
  rcases hq.conforms.exists_part (by decide) hv hn with
    ⟨g, a, hg, -, hchild⟩ | ⟨g, a, ts, hg, ha, -⟩
  · rw [hparts, List.mem_singleton, Prod.mk.injEq] at hg
    exact .argument hkind (hg.1 ▸ hchild)
  · rw [hparts, List.mem_singleton, Prod.mk.injEq] at hg
    rcases ha with rfl | rfl <;> cases hg.2

lemma holds_iff (hn : p.Has n) (hq : p.Has q) {f : Field} {ts : List (Option Node)}
    (hts : q.items f = .ok ts) : holds n ts = true ↔ some n ∈ ts := by
  rw [holds, List.any_eq_true]
  constructor
  · rintro ⟨o, ho, hnode⟩
    cases o with
    | none => cases hnode
    | some m => rwa [← (hq.item hts ho).eq_of_id_eq hn (beq_iff_eq.1 hnode)]
  · exact fun h => ⟨some n, h, beq_self_eq_true n.id⟩

/-! ## Going up -/

/-- Going up from a node that is handed on, one gets to what hands it on. -/
lemma handed_of_hands (hn : p.Has n) (hq : p.Has q) (h : Hands q n) (calls rest : List Node) :
    handed calls n (q :: rest) = handed calls q rest := by
  rw [handed]
  cases h with
  | element hkind => rw [hkind]
  | argument hkind => rw [hkind]
  | property hkind hts hmem =>
    rw [hkind, hts]
    exact if_pos ((holds_iff hn hq hts).2 hmem)
  | value hkind hvalue =>
    rw [hkind, hvalue]
    exact if_pos (beq_self_eq_true n.id)

lemma handed_of_argument (hcall : p.Has call) (hkind : call.kind = .callExpression)
    {args : List (Option Node)} (hargs : call.items .arguments = .ok args) (hn : some n ∈ args)
    (hmem : call ∈ calls) (rest : List Node) : handed calls n (call :: rest) = .ok true := by
  have hholds := (holds_iff (hcall.item hargs hn) hcall hargs).2 hn
  have hany : calls.any (·.id == call.id) = true :=
    List.any_eq_true.2 ⟨call, hmem, beq_self_eq_true _⟩
  rw [handed, hkind]
  dsimp only
  rw [hargs, ok_bind, hholds, hany]
  rfl

/-- What goes up from a node goes by a call of which it is an argument, or by what hands it on. -/
lemma cases_of_handed (hp : p.Known) (hcalls : ∀ c ∈ calls, p.Has c) (hn : p.Has n) (hq : p.Has q)
    (hmem : n ∈ q.children) (h : handed calls n (q :: rest) = .ok true) :
    (q ∈ calls ∧ ∃ args, q.items .arguments = .ok args ∧ some n ∈ args) ∨
      Hands q n ∧ handed calls q rest = .ok true := by
  rw [handed] at h
  split at h
  · obtain ⟨args, hargs, h⟩ := bind_ok_iff.1 h
    obtain ⟨hholds, hany⟩ := Bool.and_eq_true_iff.1 (pure_ok_iff.1 h)
    obtain ⟨c, hc, hid⟩ := List.any_eq_true.1 hany
    obtain rfl := (hcalls c hc).eq_of_id_eq hq (beq_iff_eq.1 hid)
    exact .inl ⟨hc, args, hargs, (holds_iff hn hq hargs).1 hholds⟩
  · rename_i hkind
    obtain ⟨o, ho, h⟩ := bind_ok_iff.1 h
    split at h
    · rename_i hnode
      rw [(hn.isNode_iff hq ho).1 hnode] at ho
      exact .inr ⟨.value hkind ho, h⟩
    · cases pure_ok_iff.1 h
  · rename_i hkind
    obtain ⟨ts, hts, h⟩ := bind_ok_iff.1 h
    split at h
    · rename_i hholds
      exact .inr ⟨.property hkind hts ((holds_iff hn hq hts).1 hholds), h⟩
    · cases pure_ok_iff.1 h
  · rename_i hkind
    exact .inr ⟨.element hkind hmem, h⟩
  · rename_i hkind
    exact .inr ⟨hands_of_spreadElement hp hq hkind hmem, h⟩
  · cases h

/-- **Going up from a node gets to one of the calls exactly if going down from the arguments of the
calls gets to the node.** -/
lemma handed_eq_true_iff (hp : p.Known)
    (hcalls : ∀ c ∈ calls, p.Has c ∧ c.kind = .callExpression) (hn : p.Has n) :
    handed calls n (p.above n) = .ok true ↔ Below calls n := by
  constructor
  · intro h
    generalize hway : p.above n = way at h
    induction way generalizing n with
    | nil => cases h
    | cons q rest ih =>
      obtain ⟨hq, hrest, hmem⟩ := hn.above_eq_cons hway
      rcases cases_of_handed hp (fun c hc => (hcalls c hc).1) hn hq hmem h with
        ⟨hcall, args, hargs, harg⟩ | ⟨hhands, h⟩
      · exact ⟨q, hcall, args, hargs, n, harg, .refl⟩
      · obtain ⟨call, hcall, args, hargs, a, ha, hsteps⟩ := ih hq hrest h
        exact ⟨call, hcall, args, hargs, a, ha, hsteps.tail hhands⟩
  · rintro ⟨call, hcall, args, hargs, a, ha, hsteps⟩
    obtain ⟨hhas, hkind⟩ := hcalls call hcall
    induction hsteps with
    | refl =>
      rw [hhas.above_of_mem_children (Shape.mem_children_of_items hargs ha)]
      exact handed_of_argument hhas hkind hargs ha hcall _
    | @tail q n hsteps hhands ih =>
      have hq := has_of_hands (hhas.item hargs ha) hsteps
      rw [hq.above_of_mem_children hhands.mem_children, handed_of_hands hn hq hhands]
      exact ih hq

/-- There is an answer, since the nodes on the way up have the parts that they are asked for. -/
lemma exists_handed (hp : p.Known) (calls : List Node) (n : Node) {above : List Node}
    (h : ∀ q ∈ above, p.Has q) : ∃ b, handed calls n above = .ok b := by
  induction above generalizing n with
  | nil => exact ⟨false, rfl⟩
  | cons q rest ih =>
    obtain ⟨hq, hrest⟩ := List.forall_mem_cons.1 h
    obtain ⟨b, hb⟩ := ih q hrest
    rw [handed]
    split
    · rename_i hkind
      have hrule := hp q hq (by rw [hkind]; decide)
      obtain ⟨args, hargs⟩ : ∃ args, q.items .arguments = .ok args :=
        hq.exists_items hrule hkind (by decide) (by decide)
      rw [hargs]
      exact ⟨_, rfl⟩
    · rename_i hkind
      have hrule := hp q hq (by rw [hkind]; decide)
      obtain ⟨o, ho⟩ : ∃ o, q.child .value = .ok o := hq.exists_child hrule hkind (by decide)
      rw [ho, ok_bind]
      split
      · exact ⟨b, hb⟩
      · exact ⟨false, rfl⟩
    · rename_i hkind
      have hrule := hp q hq (by rw [hkind]; decide)
      obtain ⟨ts, hts⟩ : ∃ ts, q.items .properties = .ok ts :=
        hq.exists_items hrule hkind (by decide) (by decide)
      rw [hts, ok_bind]
      split
      · exact ⟨b, hb⟩
      · exact ⟨false, rfl⟩
    · exact ⟨b, hb⟩
    · exact ⟨b, hb⟩
    · exact ⟨false, rfl⟩

lemma exists_escapeCalls (hp : p.Known) (hroot : p.root.kind = .program) :
    ∃ calls, Site.escapeCalls p = .ok calls := by
  obtain ⟨s, hs⟩ := Program.exists_global hroot
  obtain ⟨sites, hsites⟩ := Site.exists_ambientCalls hp hs.scope [Site.escapeHint]
  rw [Site.escapeCalls, hsites]
  exact ⟨_, rfl⟩

/-- **What is handed to the escape hint.**  Let the symbols of the concrete tree be those of a
grammar.  There is an answer for every node, and it is yes exactly if one gets to the node from an
argument of a call of the escape hint, by steps from an array to a node right below it, from a
spread element to its argument, from an object to one of its properties, and from a property to its
value. -/
theorem isEscaped_iff_below {source : Source} {options : Options} {tree : Concrete Unit}
    (h : Program.analyze source options tree = .ok p) (hprogram : tree.symbol = "program")
    (hgrammar : tree.Grammatical) (hn : p.Has n) :
    ∃ calls b, Site.escapeCalls p = .ok calls ∧ isEscaped p n = .ok b ∧
      (b = true ↔ Below calls n) := by
  have hp := Program.known_of_analyze h hgrammar
  have hroot := Convert.kind_build (Program.build_of_analyze h) hprogram
  obtain ⟨calls, hcalls⟩ := exists_escapeCalls hp hroot
  obtain ⟨b, hb⟩ := exists_handed hp calls n fun q hq => hn.mem_above hq
  have hescaped : isEscaped p n = .ok b := by
    rw [isEscaped, hcalls]
    exact hb
  refine ⟨calls, b, hcalls, hescaped, ?_⟩
  rw [← handed_eq_true_iff hp (Site.gives_escapeCalls calls hcalls) hn, hb, Except.ok.injEq]

end Escape

/-- The tree of `$$([...a,{k:b}])`, in which two names are handed to the escape hint. -/
def Concrete.handedNames : Concrete Unit :=
  let object := node "object" none 9 14
    [node "pair" none 10 13
      [node "property_identifier" (some "key") 10 11 [],
       identifier (some "value") 12 13]]
  node "program" none 0 16
    [node "expression_statement" none 0 16
      [node "call_expression" none 0 16
        [identifier (some "function") 0 2,
         node "arguments" (some "arguments") 2 16
          [node "array" none 3 15
            [node "spread_element" none 4 8 [identifier none 7 8], object]]]]]

/-- The source of `handedNames`. -/
def Source.handedNames : Source := ⟨"$$([...a,\x7bk:b\x7d])".toUTF8.toList⟩

/-- The name in an object in an array is escaped, and the key in front of it is not. -/
theorem Escape.isEscaped_iff_below_handedNames : Concrete.handedNames.symbol = "program" ∧
    Concrete.handedNames.Grammatical ∧ ∃ p calls a k,
      Program.analyze .handedNames {} .handedNames = .ok p ∧ Site.escapeCalls p = .ok calls ∧
      p.Has a ∧ a.text? .name = .ok (some "b") ∧ Below calls a ∧
      p.Has k ∧ k.text? .name = .ok (some "k") ∧ ¬Below calls k := by
  have hall : (Program.analyze .handedNames {} .handedNames).toOption.any fun p =>
      p.anyNamed "b" (fun n => (isEscaped p n).toOption.any (· == true)) &&
        p.anyNamed "k" fun n => (isEscaped p n).toOption.any (· == false) := by
    decide +kernel
  have hgrammar : Concrete.handedNames.Grammatical := by decide +kernel
  obtain ⟨p, hp, hall⟩ := exists_ok_of_any hall
  obtain ⟨htrue, hfalse⟩ := Bool.and_eq_true_iff.1 hall
  obtain ⟨a, ha, haname, htrue⟩ := Program.exists_of_anyNamed htrue
  obtain ⟨k, hk, hkname, hfalse⟩ := Program.exists_of_anyNamed hfalse
  obtain ⟨t, ht, htrue⟩ := exists_ok_of_any htrue
  obtain ⟨u, hu, hfalse⟩ := exists_ok_of_any hfalse
  obtain ⟨calls, b, hcalls, hb, hbelow⟩ := isEscaped_iff_below hp rfl hgrammar ha
  obtain ⟨calls', b', hcalls', hb', hbelow'⟩ := isEscaped_iff_below hp rfl hgrammar hk
  obtain rfl := Except.ok.inj (hcalls.symm.trans hcalls')
  obtain rfl := Except.ok.inj (ht.symm.trans hb)
  obtain rfl := Except.ok.inj (hu.symm.trans hb')
  rw [beq_iff_eq.1 hfalse] at hbelow'
  refine ⟨rfl, hgrammar, p, calls, a, k, hp, hcalls, ha, haname,
    hbelow.1 (beq_iff_eq.1 htrue), hk, hkname, fun hkbelow => ?_⟩
  cases hbelow'.2 hkbelow

end RefFlow
