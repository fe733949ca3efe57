import RefFlow.Proofs.Fault.Extract
import RefFlow.Proofs.Scope.Placement
import RefFlow.Proofs.Scope.Traversal

/-!
# What a declarator defines

The names that a declarator binds are found in two ways.  Scope analysis goes through the pattern
and through the expressions in it, and defines each name where it meets it, while
`Node.identifiers` looks at the pattern alone.  The two go in step (`Event.agree_pattern`): the
events of a pattern are those of its identifiers, in their order, with events of expressions in
between (`Event.Spread`).

An expression in a pattern can hold whole functions with declarations of their own, so that it takes
an argument to tell the definitions of a declarator from those around them.  Every variable that is
declared anywhere has a declarator whose pattern binds its identifier (`Event.sourced_run`), and no
identifier is defined twice.

What is left is the scope.  All of the pattern is visited while the same scope is the innermost one,
and so its names go to the same scope (`Event.Spread.placed`).  The result for programs is
`Graph.definitions_of_declarator`.
-/

namespace RefFlow

open Fallible

/-- The identifiers that a declarator binds. -/
def Node.bound (declarator : Node) : Except Fault (List Node) := do
  boundAt (← declarator.child .id)

/-- The definition declares a variable, and the declarator is the construct that does so. -/
def Definition.isOf (declarator : Node) (d : Definition) : Bool :=
  d.kind == .variable && d.node.id == declarator.id

lemma Definition.isOf_iff {declarator : Node} {d : Definition} :
    d.isOf declarator = true ↔ d.kind = .variable ∧ d.node.id = declarator.id := by
  rw [isOf, Bool.and_eq_true, beq_iff_eq, beq_iff_eq]

namespace Event

open Node

variable {sourceType : String} {globals : List String}

/-! ## Two ways through a pattern -/

/-- The events belong to the identifiers of a pattern, in their order, and to expressions in
between. -/
inductive Spread (onName : Node → String → List Event) (inner : List Event → Prop) :
    List Node → List Event → Prop
  | nil : Spread onName inner [] []
  | name {m : Node} {name : String} {ids : List Node} {es : List Event}
      (isIdentifier : m.kind = .identifier) (named : m.text? .name = .ok (some name)) :
      Spread onName inner ids es → Spread onName inner (m :: ids) (onName m name ++ es)
  | between {ids : List Node} {es fs : List Event} (expression : inner es) :
      Spread onName inner ids fs → Spread onName inner ids (es ++ fs)

namespace Spread

variable {onName : Node → String → List Event} {inner inner' : List Event → Prop}
  {ids ids' : List Node} {es es' : List Event}

lemma append (h : Spread onName inner ids es) (h' : Spread onName inner ids' es') :
    Spread onName inner (ids ++ ids') (es ++ es') := by
  induction h with
  | nil => exact h'
  | name isIdentifier named _ ih =>
    rw [List.append_assoc, List.cons_append]
    exact .name isIdentifier named ih
  | between expression _ ih =>
    rw [List.append_assoc]
    exact .between expression ih

lemma mono (h : Spread onName inner ids es) (hinner : ∀ es, inner es → inner' es) :
    Spread onName inner' ids es := by
  induction h with
  | nil => exact .nil
  | name isIdentifier named _ ih => exact .name isIdentifier named ih
  | between expression _ ih => exact .between (hinner _ expression) ih

lemma expression (h : inner es) : Spread onName inner [] es := by
  rw [← List.append_nil es]
  exact .between h .nil

/-- A variable is declared at one of the identifiers, or by an expression. -/
lemma exists_of_announces (h : Spread onName inner ids es) {d : Definition}
    (hd : d ∈ es.flatMap announces) :
    (∃ m ∈ ids, ∃ name, d ∈ (onName m name).flatMap announces) ∨
      ∃ es', inner es' ∧ d ∈ es'.flatMap announces := by
  induction h with
  | nil => cases hd
  | @name m name ids es _ _ _ ih =>
    rw [List.flatMap_append] at hd
    rcases List.mem_append.1 hd with hd | hd
    · exact .inl ⟨m, List.mem_cons_self, name, hd⟩
    · refine (ih hd).imp_left ?_
      rintro ⟨x, hx, hd⟩
      exact ⟨x, List.mem_cons_of_mem m hx, hd⟩
  | @between ids es fs expression _ ih =>
    rw [List.flatMap_append] at hd
    rcases List.mem_append.1 hd with hd | hd
    · exact .inr ⟨es, expression, hd⟩
    · exact ih hd

end Spread

/-- The events are those of an expression inside the node. -/
def IsInner (sourceType : String) (globals : List String) (n : Node) (es : List Event) : Prop :=
  ∃ c, n.Contains c ∧ View.value.run sourceType globals c = .ok es

/-- The events that are found on the one way are spread over the identifiers that are found on the
other one. -/
def Agree (onName : Node → String → List Event) (inner : List Event → Prop)
    (x : Except Fault (List Event)) (y : Except Fault (List Node)) : Prop :=
  Gives x fun es => ∃ ids, y = .ok ids ∧ Spread onName inner ids es

section

variable {onName : Node → String → List Event} {inner inner' : List Event → Prop}

lemma Agree.mono {x : Except Fault (List Event)} {y : Except Fault (List Node)}
    (h : Agree onName inner x y) (hinner : ∀ es, inner es → inner' es) :
    Agree onName inner' x y := by
  intro es hes
  obtain ⟨ids, hids, hspread⟩ := h es hes
  exact ⟨ids, hids, hspread.mono hinner⟩

lemma agree_mapM {α β : Type} {as : List α} {g : α → β} {x : β → Except Fault (List Event)}
    {y : α → Except Fault (List Node)} (h : ∀ a ∈ as, Agree onName inner (x (g a)) (y a)) :
    Gives ((as.map g).mapM x) fun ess =>
      ∃ idss, as.mapM y = .ok idss ∧ Spread onName inner idss.flatten ess.flatten := by
  intro ess hess
  rw [List.mapM_map, mapM_ok_iff] at hess
  induction hess with
  | nil => exact ⟨[], rfl, .nil⟩
  | @cons a es as ess hes _ ih =>
    obtain ⟨hfirst, hrest⟩ := List.forall_mem_cons.1 h
    obtain ⟨ids, hids, hspread⟩ := hfirst es hes
    obtain ⟨idss, hidss, hspreads⟩ := ih hrest
    refine ⟨ids :: idss, ?_, hspread.append hspreads⟩
    rw [mapM_ok_iff] at hidss ⊢
    exact .cons hids hidss

/-- `agree_mapM` for a list in which all that is found is put together. -/
lemma agree_flatten {α β : Type} {as : List α} {g : α → β} {x : β → Except Fault (List Event)}
    {y : α → Except Fault (List Node)} (h : ∀ a ∈ as, Agree onName inner (x (g a)) (y a)) :
    Agree onName inner (do return (← (as.map g).mapM x).flatten)
      (do return (← as.mapM y).flatten) := by
  refine (agree_mapM h).bind fun ess hess => gives_pure ?_
  obtain ⟨idss, hidss, hspread⟩ := hess
  exact ⟨idss.flatten, by rw [hidss]; rfl, hspread⟩

lemma agree_option {o : Option Node} (h : ∀ u ∈ o, Agree onName inner
      ((View.pattern onName).run sourceType globals u) u.identifiers) :
    Agree onName inner (ofPattern onName (o.map (contributions sourceType globals)))
      (boundAt o) := by
  cases o with
  | none => exact gives_ok ⟨[], rfl, .nil⟩
  | some u => exact h u rfl

/-- An expression in a pattern binds nothing. -/
lemma spread_ofPart (onName : Node → String → List Event) {n c : Node} (hc : n.Contains c)
    (f : Field) :
    Gives (ofPart (c.shape.map (contributions sourceType globals)) f)
      (Spread onName (IsInner sourceType globals n) []) := by
  refine (gives_childOf c f).bind ?_
  rintro _ ⟨o, rfl, ho⟩
  cases o with
  | none => exact gives_ok .nil
  | some u => exact fun es hes => .expression ⟨u, hc.trans (Tree.contains_of_child ho), hes⟩

lemma agree_member {n m : Node} (hm : n.Contains m) (hkind : m.kind ∈ Kind.patternMembers)
    (h : ∀ u : Node, m.Contains u → Agree onName (IsInner sourceType globals n)
      ((View.pattern onName).run sourceType globals u) u.identifiers) :
    Agree onName (IsInner sourceType globals n)
      (ofPatternMember onName (m.contributions sourceType globals)) (boundByMember (some m)) := by
  unfold ofPatternMember boundByMember
  rw [kind_contributions]
  dsimp only
  by_cases hproperty : m.kind = .property
  · rw [if_pos (by simpa using hproperty), if_pos (by simpa using hproperty), Tree.flag,
      Tree.child, shape_contributions]
    refine (gives_true _).bind fun computed _ => ?_
    refine .ite_bind (fun _ => spread_ofPart onName hm .key) (fun _ => gives_pure .nil)
      fun key hkey => (gives_childOf m .value).bind ?_
    rintro _ ⟨o, rfl, ho⟩
    have hvalue := agree_option fun u (hu : u ∈ o) => h u (Tree.contains_of_child (hu ▸ ho))
    rw [ho]
    refine hvalue.bind fun es hes => gives_pure ?_
    obtain ⟨ids, hids, hspread⟩ := hes
    exact ⟨ids, hids, hkey.append hspread⟩
  · have hrest : m.kind = .restElement := by
      simpa [Kind.patternMembers, hproperty] using hkind
    rw [if_neg (by simpa using hproperty), if_neg (by simpa using hproperty),
      if_pos (by simpa using hrest)]
    exact h m (.refl m)

/-- The members of an object pattern are properties, or stand for the rest. -/
lemma mem_patternMembers {k : Ranging} {n m : Node} (hn : n.Conforming k)
    (hkind : n.kind = .objectPattern) {os : List (Option Node)}
    (hos : n.items .properties = .ok os) (hm : some m ∈ os) : m.kind ∈ Kind.patternMembers := by
  rcases (hn n (.refl n)).2.members hkind with ⟨ts, hts⟩ | hmembers
  · rw [Tree.items, Shape.items, Shape.slot, Shape.slot?, hts] at hos
    cases hos
  · exact hmembers m (Shape.mem_children_of_items hos hm)

/-- **Scope analysis defines the names that a pattern binds.**  The two ways through a pattern go in
step, whatever is nested in it. -/
lemma agree_pattern {k : Ranging} {n : Node} (hn : n.Conforming k) :
    Agree onName (IsInner sourceType globals n) ((View.pattern onName).run sourceType globals n)
      (identifiers n) := by
  induction n using Tree.strongInduction with
  | step n ih =>
    have hinside {u : Node} (hu : IsBelow n u) : Agree onName (IsInner sourceType globals n)
        ((View.pattern onName).run sourceType globals u) u.identifiers := by
      obtain ⟨c, hc, hu⟩ := hu
      have hin : n.Contains u := (Tree.contains_child hc).trans hu
      refine (ih c hc u hu fun m hm => hn m (hin.trans hm)).mono ?_
      rintro es ⟨x, hx, hes⟩
      exact ⟨x, hin.trans hx, hes⟩
    have hids := identifiers_eq n
    rw [Tree.kind] at hids
    rw [run_pattern]
    unfold bindRule
    rw [Shape.kind_map]
    split
    · rename_i hk
      rw [hk] at hids
      refine (parts_contribution sourceType globals n).gives_nameOf.bind fun name named =>
        gives_pure ⟨[n], hids, ?_⟩
      rw [← List.append_nil (onName n name)]
      exact .name hk named .nil
    · rename_i hk
      rw [hk] at hids
      refine (gives_itemsOf n .properties).bind ?_
      rintro _ ⟨os, rfl, hos⟩
      rw [hids, hos]
      refine agree_flatten fun o ho => ?_
      cases o with
      | none => exact fun es hes => by cases hes
      | some m =>
        have hm := Shape.mem_children_of_items hos ho
        exact agree_member (Tree.contains_child hm) (mem_patternMembers hn hk hos ho)
          fun u hu => hinside ⟨m, hm, hu⟩
    · rename_i hk
      rw [hk] at hids
      refine (gives_itemsOf n .elements).bind ?_
      rintro _ ⟨os, rfl, hos⟩
      rw [hids, hos]
      refine agree_flatten fun o ho => agree_option ?_
      rintro u rfl
      exact hinside (isBelow_of_child (Shape.mem_children_of_items hos ho))
    · rename_i hk
      rw [hk] at hids
      refine (gives_childOf n .left).bind ?_
      rintro _ ⟨o, rfl, ho⟩
      have hpattern := agree_option fun u (hu : u ∈ o) =>
        hinside (isBelow_of_child (Shape.mem_children_of_child (hu ▸ ho)))
      rw [hids, ho]
      refine hpattern.bind fun left hleft =>
        (spread_ofPart onName (.refl n) .right).bind fun right hright => gives_pure ?_
      obtain ⟨ids, hids, hspread⟩ := hleft
      refine ⟨ids, hids, ?_⟩
      rw [← List.append_nil ids]
      exact hspread.append hright
    · rename_i hk
      rw [hk] at hids
      refine (gives_childOf n .argument).bind ?_
      rintro _ ⟨o, rfl, ho⟩
      rw [hids, ho]
      refine agree_option ?_
      rintro u rfl
      exact hinside (isBelow_of_child (Shape.mem_children_of_child ho))
    · -- What is no pattern binds nothing, and is visited as an expression.
      have hnone : identifiers n = .ok [] := by
        rw [hids]
        split
        case h_6 => rfl
        all_goals contradiction
      exact fun es hes => ⟨[], hnone, .expression ⟨n, .refl n, hes⟩⟩

end

/-! ## Where declared variables come from -/

/-- The definition belongs to a declarator inside the node, which binds its identifier. -/
def Sourced (n : Node) (d : Definition) : Prop :=
  n.Contains d.node ∧ ∃ ids, d.node.bound = .ok ids ∧ d.identifier ∈ ids

lemma Sourced.mono {n m : Node} {d : Definition} (h : Sourced m d) (hm : n.Contains m) :
    Sourced n d :=
  ⟨hm.trans h.1, h.2⟩

lemma bound_of_part {n m : Node} (h : m ∈ n.part .id) : n.bound = m.identifiers := by
  unfold part at h
  unfold bound
  split at h
  · rename_i o ho
    obtain rfl := Option.mem_toList.1 h
    rw [ho]
    rfl
  · cases h

lemma eq_of_announces_declared {hoisted inLoop : Bool} {declaration declarator m : Node}
    {keyword : Option String} {init : Option Node} {name : String} {d : Definition}
    (hd : d ∈ (declared hoisted inLoop declaration declarator keyword init m name).flatMap
      announces) : d.node = declarator ∧ d.identifier = m := by
  unfold declared at hd
  split at hd <;> simp [announces] at hd <;> simp [hd]

/-- **Every variable that is declared has a declarator whose pattern binds its identifier.** -/
lemma sourced_run {k : Ranging} {n : Node} (hn : n.Conforming k) {v : View}
    (hv : ∀ onName, v ≠ .pattern onName) {es : List Event}
    (hes : v.run sourceType globals n = .ok es) {d : Definition} (hd : d ∈ es.flatMap announces) :
    Sourced n d := by
  induction n using Tree.strongInduction generalizing v es with
  | step n ih =>
    have hinside {u : Node} (hu : IsBelow n u) {v : View} (hv : ∀ onName, v ≠ .pattern onName)
        {es : List Event} (hes : v.run sourceType globals u = .ok es)
        (hd : d ∈ es.flatMap announces) : Sourced n d := by
      obtain ⟨c, hc, hu⟩ := hu
      have hin : n.Contains u := (Tree.contains_child hc).trans hu
      exact (ih c hc u hu (fun m hm => hn m (hin.trans hm)) hv hes hd).mono hin
    obtain ⟨w, m, own, hm, hrun, hd⟩ :=
      (woven_run (fun onName h => absurd h (hv onName)) es hes).exists_visit hd
    obtain ⟨hbelow, hdeclares⟩ := leadsAll_visits n hv (w, m) hm
    cases w with
    | value => exact hinside hbelow (fun _ h => by cases h) hrun hd
    | head => exact hinside hbelow (fun _ h => by cases h) hrun hd
    | pattern onName =>
      have hin : n.Contains m := by
        obtain ⟨c, hc, hm⟩ := hbelow
        exact (Tree.contains_child hc).trans hm
      obtain ⟨ids, hids, hspread⟩ := agree_pattern (fun u hu => hn u (hin.trans hu)) own hrun
      rcases hspread.exists_of_announces hd with ⟨x, hx, name, hd⟩ | ⟨fs, ⟨u, hu, hfs⟩, hd⟩
      · rcases hdeclares onName rfl with hsilent | ⟨inLoop, declarator, hmem, hpart, rfl⟩
        · rw [hsilent x name] at hd
          cases hd
        · obtain ⟨hnode, hidentifier⟩ := eq_of_announces_declared hd
          refine ⟨?_, ids, ?_, hidentifier ▸ hx⟩
          · rw [hnode]
            exact Tree.contains_child (mem_children_of_members hmem)
          · rw [hnode, bound_of_part hpart, hids]
      · obtain ⟨c, hc, hm⟩ := hbelow
        exact hinside ⟨c, hc, hm.trans hu⟩ (fun _ h => by cases h) hfs hd

/-! ## The events of a declarator -/

/-- The events are those of an expression further inside the node. -/
def IsFurtherInside (sourceType : String) (globals : List String) (n : Node) (es : List Event) :
    Prop :=
  ∃ c, n.IsBelow c ∧ View.value.run sourceType globals c = .ok es

lemma nested_flatten {n : Node} {ess : List (List Event)} (h : ∀ es ∈ ess, Nested n es) :
    Nested n ess.flatten := by
  induction ess with
  | nil => exact .nil
  | cons es ess ih =>
    obtain ⟨hfirst, hrest⟩ := List.forall_mem_cons.1 h
    exact hfirst.append (ih hrest)

lemma nested_ofDeclarator (n : Node) (inLoop : Bool) {d : Node} (hd : d ∈ n.children) :
    Gives (ofDeclarator sourceType globals n inLoop d) (Nested n) := by
  have hinside : Inside n (d.contributions sourceType globals) := by
    refine (parts_contribution sourceType globals n).inside _ ?_
    rw [Shape.children_map]
    exact List.mem_map_of_mem hd
  exact (Parts.gives_declarator hinside fun _ => visiting_declared _ _ _ _ _ _).mono
    fun _ hes => hes.nested

lemma agree_bound {k : Ranging} {d : Node} (hd : d.Conforming k) {o : Option Node}
    (ho : d.child .id = .ok o) {onName : Node → String → List Event} :
    Agree onName (IsFurtherInside sourceType globals d)
      (ofPattern onName (o.map (contributions sourceType globals))) d.bound := by
  rw [bound, ho]
  refine agree_option ?_
  rintro u rfl
  have hu : u ∈ d.children := Shape.mem_children_of_child ho
  refine (agree_pattern fun m hm => hd m ((Tree.contains_child hu).trans hm)).mono ?_
  rintro es ⟨c, hc, hes⟩
  exact ⟨c, ⟨u, hu, hc⟩, hes⟩

lemma spread_ofDeclarator {k : Ranging} (n : Node) (inLoop : Bool) {d : Node}
    (hd : d.Conforming k) :
    Gives (ofDeclarator sourceType globals n inLoop d) fun es =>
      ∃ names value ids, es = names ++ value ∧ d.bound = .ok ids ∧
        Spread (declared n.isHoisted inLoop n d n.keyword (d.part .init).head?)
          (IsFurtherInside sourceType globals d) ids names := by
  unfold ofDeclarator Tree.child
  rw [shape_contributions, node_contributions]
  refine (gives_child d .init).bind ?_
  rintro _ ⟨init, rfl, hinit⟩
  refine (gives_childOf d .id).bind ?_
  rintro _ ⟨o, rfl, ho⟩
  rw [node_of_part hinit]
  refine Gives.bind (agree_bound hd ho) fun names hnames =>
    (gives_true _).bind fun value _ => gives_pure ?_
  obtain ⟨ids, hids, hspread⟩ := hnames
  exact ⟨names, value, ids, rfl, hids, hspread⟩

/-- Among the events of a declaration are those of the pattern of each of its declarators.  When
they begin, the same scopes are open as at the beginning of the declaration. -/
lemma exists_names {k : Ranging} {n declarator : Node} (hn : n.Conforming k) (inLoop : Bool)
    (hmem : declarator ∈ n.members .declarations) :
    Gives (ofDeclaration inLoop n (n.shape.map (contributions sourceType globals))) fun es =>
      ∃ before names after ids, es = before ++ names ++ after ∧ Nested n before ∧
        declarator.bound = .ok ids ∧
        Spread (declared n.isHoisted inLoop n declarator n.keyword (declarator.part .init).head?)
          (IsFurtherInside sourceType globals declarator) ids names := by
  have hchild {c : Node} (hc : c ∈ n.members .declarations) : c ∈ n.children :=
    mem_children_of_members hc
  refine (gives_text n .kind).bind ?_
  rintro _ rfl
  refine (gives_isHoisted n).bind ?_
  rintro _ rfl
  refine (gives_items n .declarations).bind ?_
  rintro _ ⟨os, rfl, hmembers⟩
  rw [hmembers] at hmem hchild
  intro es hes
  obtain ⟨ess, hess, hes⟩ := bind_ok_iff.1 hes
  obtain rfl := pure_ok_iff.1 hes
  obtain ⟨pre, own, post, rfl, hown, hpre⟩ := exists_of_mapM_ok hess
    (List.mem_map_of_mem (List.reduceOption_mem_iff.1 hmem))
  have hconforming : declarator.Conforming k :=
    fun m hm => hn m ((Tree.contains_child (hchild hmem)).trans hm)
  obtain ⟨names, value, ids, rfl, hids, hspread⟩ :=
    spread_ofDeclarator n inLoop hconforming own hown
  have hnested : Nested n ((if n.isHoisted then [.hoist] else []) ++ pre.flatten) := by
    refine .append ?_ (nested_flatten fun es hes => ?_)
    · split
      · exact .hoist
      · exact .nil
    · obtain ⟨x, hx, hes⟩ := hpre es hes
      obtain ⟨o, ho, rfl⟩ := List.mem_map.1 hx
      cases o with
      | none => cases hes
      | some c =>
        exact nested_ofDeclarator n inLoop (hchild (List.reduceOption_mem_iff.2 ho)) es hes
  refine ⟨_, names, value ++ post.flatten, ids, ?_, hnested, hids, hspread⟩
  simp only [List.flatten_append, List.flatten_cons, List.append_assoc]

/-! ## Where the names of a declarator go -/

/-- The definitions that a declarator makes, out of all variables that are declared. -/
def madeBy (declarator : Node) (es : List Event) : List Definition :=
  (es.flatMap announces).filter (·.isOf declarator)

lemma mem_madeBy {declarator : Node} {es : List Event} {q : String × Definition}
    (hq : q ∈ es.flatMap defines) (hof : q.2.isOf declarator = true) :
    q.2 ∈ madeBy declarator es := by
  obtain ⟨e, he, hq⟩ := List.mem_flatMap.1 hq
  refine List.mem_filter.2 ⟨List.mem_flatMap.2 ⟨e, he, ?_⟩, hof⟩
  cases e with
  | define hoisted d =>
    obtain rfl := List.mem_singleton.1 hq
    rw [announces, if_pos (Definition.isOf_iff.1 hof).1]
    exact List.mem_singleton_self _
  | _ => cases hq

/-- What declares nothing with the declarator adds none of its definitions. -/
lemma filter_isOf_run {declarator : Node} {a b : Analysis} {es : List Event}
    (h : a.Invariant) (hes : madeBy declarator es = []) (hb : es.foldlM Analysis.step a = .ok b)
    (v : VariableId) :
    (b.graph.definitionsOf v).filter (·.isOf declarator) =
      (a.graph.definitionsOf v).filter (·.isOf declarator) := by
  refine Analysis.filter_definitionsOf_run h (fun q hq => ?_) hb v
  rw [← Bool.not_eq_true]
  intro hof
  exact List.eq_nil_iff_forall_not_mem.1 hes q.2 (mem_madeBy hq hof)

section

variable {hoisted inLoop : Bool} {declaration declarator : Node} {keyword : Option String}
  {init : Option Node} {inner : List Event → Prop} {ids : List Node} {es : List Event}

lemma madeBy_append (es fs : List Event) :
    madeBy declarator (es ++ fs) = madeBy declarator es ++ madeBy declarator fs := by
  rw [madeBy, List.flatMap_append, List.filter_append]
  rfl

/-- What a declarator defines at an identifier. -/
def definedAt (declaration declarator : Node) (keyword : Option String) (m : Node)
    (name : String) : Definition :=
  { kind := .variable, identifier := m, name := name, node := declarator
    declaration := some declaration, keyword := keyword }

lemma isOf_definedAt (m : Node) (name : String) :
    (definedAt declaration declarator keyword m name).isOf declarator = true :=
  Definition.isOf_iff.2 ⟨rfl, rfl⟩

lemma madeBy_declared (m : Node) (name : String) :
    madeBy declarator (declared hoisted inLoop declaration declarator keyword init m name) =
      [definedAt declaration declarator keyword m name] := by
  have hannounces : (declared hoisted inLoop declaration declarator keyword init m name).flatMap
      announces = [definedAt declaration declarator keyword m name] := by
    unfold declared
    split <;> rfl
  rw [madeBy, hannounces, List.filter_cons_of_pos (isOf_definedAt m name)]
  rfl

/-- The declarator makes one definition for each identifier that it binds, under its name. -/
lemma Spread.identifiers_madeBy
    (h : Spread (declared hoisted inLoop declaration declarator keyword init) inner ids es)
    (hinner : ∀ es, inner es → madeBy declarator es = []) :
    (madeBy declarator es).map (·.identifier) = ids ∧
      ∀ d ∈ madeBy declarator es, d.identifier.text? .name = .ok (some d.name) := by
  induction h with
  | nil => exact ⟨rfl, fun _ hd => (List.not_mem_nil hd).elim⟩
  | name _ named _ ih =>
    rw [madeBy_append, madeBy_declared]
    exact ⟨congrArg _ ih.1, List.forall_mem_cons.2 ⟨named, ih.2⟩⟩
  | between expression _ ih =>
    rw [madeBy_append, hinner _ expression]
    exact ih

lemma placed_declared {a b : Analysis} (ha : a.Invariant) {i : Nat}
    (hi : a.openScopes.head? = some i) {m : Node} {name : String}
    (hb : (declared hoisted inLoop declaration declarator keyword init m name).foldlM Analysis.step
      a = .ok b) (v : VariableId) :
    (b.graph.definitionsOf v).filter (·.isOf declarator) =
      (a.graph.definitionsOf v).filter (·.isOf declarator) ++
        if v = ⟨a.target hoisted i, name⟩ then
          [definedAt declaration declarator keyword m name] else [] := by
  unfold declared at hb
  rw [List.foldlM_cons] at hb
  obtain ⟨c, hc, hb⟩ := bind_ok_iff.1 hb
  have hrest : (b.graph.definitionsOf v).filter (·.isOf declarator) =
      (c.graph.definitionsOf v).filter (·.isOf declarator) := by
    refine filter_isOf_run (ha.step hc).2 ?_ hb v
    split <;> rfl
  rw [hrest, Analysis.definitionsOf_define ha hi hc v, List.filter_append]
  congr 1
  split
  · exact List.filter_cons_of_pos (isOf_definedAt m name)
  · rfl

/-- **All definitions of a declarator go to one scope.** -/
lemma Spread.placed
    (h : Spread (declared hoisted inLoop declaration declarator keyword init) inner ids es)
    (hinner : ∀ es, inner es → madeBy declarator es = [] ∧ ∃ n, Nested n es) {a b : Analysis}
    (ha : a.Invariant) {i : Nat} (hi : a.openScopes.head? = some i)
    (hb : es.foldlM Analysis.step a = .ok b) (v : VariableId) :
    (b.graph.definitionsOf v).filter (·.isOf declarator) =
      (a.graph.definitionsOf v).filter (·.isOf declarator) ++
        if v.scope = a.target hoisted i then
          (madeBy declarator es).filter (·.name = v.name) else [] := by
  -- Whether it is a name or an expression that comes first, the scopes that are opened for it are
  -- closed again, so that the rest of the pattern is visited in the same scope.
  induction h generalizing a with
  | nil =>
    cases hb
    simp [madeBy]
  | @name m name ids es isIdentifier named _ ih =>
    have hnested := (visiting_declared hoisted inLoop declaration declarator keyword init m name
      isIdentifier named).nested
    rw [List.foldlM_append] at hb
    obtain ⟨c, hc, hb⟩ := bind_ok_iff.1 hb
    obtain ⟨hopen, htarget⟩ := ha.innermost_run hi hnested hc hoisted
    rw [ih (ha.run hc).2 hopen hb, placed_declared ha hi hc, htarget, madeBy_append,
      madeBy_declared, List.append_assoc]
    congr 1
    obtain ⟨j, x⟩ := v
    by_cases hj : j = a.target hoisted i
    · by_cases hx : x = name
      · simp [hj, hx, definedAt]
      · simp [hj, hx, Ne.symm hx, definedAt]
    · simp [hj]
  | @between ids es fs expression _ ih =>
    obtain ⟨hnone, n, hnested⟩ := hinner es expression
    rw [List.foldlM_append] at hb
    obtain ⟨c, hc, hb⟩ := bind_ok_iff.1 hb
    obtain ⟨hopen, htarget⟩ := ha.innermost_run hi hnested hc hoisted
    rw [ih (ha.run hc).2 hopen hb, htarget, madeBy_append, hnone, List.nil_append,
      filter_isOf_run ha hnone hc v]

end

/-! ## The definitions of a program -/

section

variable {k : Ranging} {root declarator : Node} {es fs : List Event} {ids : List Node}

lemma nested_value {n : Node} (h : View.value.run sourceType globals n = .ok es) : Nested n es := by
  have hnested := ((sound_contributions sourceType globals n _ (.refl _)).visit es h).nested
  rwa [node_contribution] at hnested

/-- An expression in the pattern of a declarator can declare variables, but the declarator is not
theirs. -/
lemma madeBy_furtherInside (hdistinct : declarator.Distinct) (hconforming : declarator.Conforming k)
    (h : IsFurtherInside sourceType globals declarator es) :
    madeBy declarator es = [] ∧ ∃ n, Nested n es := by
  obtain ⟨c, ⟨u, hu, hc⟩, hes⟩ := h
  refine ⟨List.filter_eq_nil_iff.2 fun d hd hof => ?_, c, nested_value hes⟩
  have hin : declarator.Contains c := (Tree.contains_child hu).trans hc
  obtain ⟨hnode, -⟩ := sourced_run (fun m hm => hconforming m (hin.trans hm))
    (fun _ h => by cases h) hes hd
  have hid := (Definition.isOf_iff.1 hof).2
  have hself := hdistinct.eq_of_id_eq (hin.trans hnode) (.refl _) hid
  exact hdistinct.not_contains hu (hc.trans (hself ▸ hnode))

lemma announces_sublist (es : List Event) :
    ((es.flatMap announces).map (·.identifier)).Sublist (es.flatMap introduces) := by
  rw [List.map_flatMap]
  refine List.Sublist.flatMap_right es fun e _ => ?_
  cases e with
  | define hoisted d =>
    rw [announces]
    split
    · exact .refl _
    · exact List.nil_sublist _
  | _ => exact List.nil_sublist _

lemma madeBy_sublist (declarator : Node) (es : List Event) :
    ((madeBy declarator es).map (·.identifier)).Sublist (es.flatMap introduces) :=
  (List.filter_sublist.map _).trans (announces_sublist es)

/-- Where the identifiers of a declarator are not introduced, it makes no definitions. -/
lemma madeBy_eq_nil (hdistinct : root.Distinct) (hin : root.Contains declarator)
    (hids : declarator.bound = .ok ids) (hes : ∀ d ∈ es.flatMap announces, Sourced root d)
    (hapart : ∀ m ∈ ids, m ∉ es.flatMap introduces) : madeBy declarator es = [] := by
  refine List.filter_eq_nil_iff.2 fun d hd hof => ?_
  obtain ⟨hnode, ids', hids', hmem⟩ := hes d hd
  have hid := (Definition.isOf_iff.1 hof).2
  rw [hdistinct.eq_of_id_eq hnode hin hid, hids] at hids'
  cases hids'
  exact hapart _ hmem ((announces_sublist es).subset (List.mem_map_of_mem hd))

/-- **A declarator makes its definitions where the traversal comes to its pattern**, and nowhere
else in the program. -/
lemma madeBy_around {pre names post : List Event} (hdistinct : root.Distinct)
    (hconforming : root.Conforming k) (hin : root.Contains declarator)
    (hids : declarator.bound = .ok ids)
    (hes : root.events sourceType globals = .ok (pre ++ names ++ post))
    (hnames : (madeBy declarator names).map (·.identifier) = ids) :
    madeBy declarator pre = [] ∧ madeBy declarator post = [] := by
  have hsourced {d : Definition} (hd : d ∈ (pre ++ names ++ post).flatMap announces) :
      Sourced root d := sourced_run hconforming (v := .value) (fun _ h => by cases h) hes hd
  have hmem : ids ⊆ names.flatMap introduces := by
    rw [← hnames]
    exact (madeBy_sublist declarator names).subset
  have hnodup := (hdistinct.nodup_picked picks_introduces (visits_events hes)).of_map
  rw [List.flatMap_append, List.flatMap_append, List.nodup_append, List.nodup_append] at hnodup
  refine ⟨madeBy_eq_nil hdistinct hin hids (fun d hd => hsourced ?_) fun m hm h => ?_,
    madeBy_eq_nil hdistinct hin hids (fun d hd => hsourced ?_) fun m hm h => ?_⟩
  · simp only [List.flatMap_append, List.mem_append, hd, true_or]
  · exact hnodup.1.2.2 m h m (hmem hm) rfl
  · simp only [List.flatMap_append, List.mem_append, hd, or_true]
  · exact hnodup.2.2 m (List.mem_append_right _ (hmem hm)) m h rfl

/-- What the run of a program leaves of the definitions of a declarator. -/
lemma definitionsOf_around {hoisted inLoop : Bool} {declaration : Node} {keyword : Option String}
    {init : Option Node} {inner : List Event → Prop} {pre names post : List Event}
    {a b : Analysis} {i : Nat}
    (hspread : Spread (declared hoisted inLoop declaration declarator keyword init) inner ids names)
    (hinner : ∀ es, inner es → madeBy declarator es = [] ∧ ∃ n, Nested n es)
    (hpre : madeBy declarator pre = []) (hpost : madeBy declarator post = [])
    (ha : pre.foldlM Analysis.step {} = .ok a) (hi : a.openScopes.head? = some i)
    (hb : (names ++ post).foldlM Analysis.step a = .ok b) (v : VariableId) :
    (b.graph.definitionsOf v).filter (·.isOf declarator) =
      if v.scope = b.target hoisted i then
        (madeBy declarator names).filter (·.name = v.name) else [] := by
  have hinv := (Analysis.invariant_initial.run ha).2
  rw [Analysis.target_run hoisted (hinv.lt_of_open (List.mem_of_mem_head? hi)) hb]
  rw [List.foldlM_append] at hb
  obtain ⟨c, hc, hb⟩ := bind_ok_iff.1 hb
  rw [filter_isOf_run (hinv.run hc).2 hpost hb, hspread.placed hinner hinv hi hc,
    filter_isOf_run Analysis.invariant_initial hpre ha]
  rfl

end

end Event

/-! ## Where a declaration stands

The events of a program begin with the one that opens the global scope and end with the one that
closes it, so that a scope is open at everything in between. -/

namespace Node

open Event

variable {sourceType : String} {globals : List String} {root n : Node} {v : View} {g : Graph}

/-- The analysis of a program is in the given state when the traversal comes to the node. -/
def Arrives (sourceType : String) (globals : List String) (root : Node) (v : View) (n : Node)
    (a : Analysis) : Prop :=
  ∃ before own after, root.events sourceType globals = .ok (before ++ own ++ after) ∧
    v.run sourceType globals n = .ok own ∧ before.foldlM Analysis.step {} = .ok a

lemma woven_bodyEvents (root : Node) : Gives (root.bodyEvents sourceType globals)
    (Woven sourceType globals (asValues (root.members .body))) := by
  refine (Event.gives_items root .body).bind ?_
  rintro _ ⟨os, rfl, hmembers⟩
  rw [hmembers]
  exact woven_ofItems os

/-- Wherever the traversal of a program comes to, a scope is open. -/
lemma ComesTo.exists_arrives (h : root.ComesTo v n) (hn : n ≠ root) (hroot : root.kind = .program)
    (hg : root.scopeGraph sourceType globals = .ok g) :
    ∃ a i, Arrives sourceType globals root v n a ∧ a.openScopes.head? = some i := by
  obtain ⟨es, b, hes, hb, -⟩ := exists_run hg
  obtain ⟨body, hbody, rfl⟩ := events_program hroot hes
  have hwoven : Woven sourceType globals (root.visits .value) (globals.map .declare ++
      withinIf (sourceType == "module") .module root body) := by
    have hvisits : root.visits .value = [] ++ asValues (root.members .body) := by
      rw [visits, valueVisits, hroot]
      rfl
    have hbody := (woven_bodyEvents root body hbody).withinIf (sourceType == "module") .module root
    rw [hvisits]
    exact (woven_declare globals).append hbody
  have hnested := (nested_declare root globals).append (nested_moduleEvents hbody)
  rcases h.exists_piece hwoven with ⟨-, rfl⟩ | ⟨before, own, after, heq, hrun⟩
  · exact absurd rfl hn
  · rw [heq] at hes hb hnested
    have hes : root.events sourceType globals =
        .ok (.enter .global root :: before ++ own ++ (after ++ [.leave])) := by
      rw [hes, within]
      simp only [List.cons_append, List.append_assoc]
    rw [within, List.cons_append, List.foldlM_cons] at hb
    obtain ⟨start, hstart, hb⟩ := bind_ok_iff.1 hb
    cases hstart
    rw [List.append_assoc, List.append_assoc, List.foldlM_append] at hb
    obtain ⟨a, ha, -⟩ := bind_ok_iff.1 hb
    rw [List.append_assoc] at hnested
    have hopen := Analysis.openScopes_suffix hnested ha
    rw [Analysis.openScopes_enter] at hopen
    have harrives : Arrives sourceType globals root v n a :=
      ⟨_, own, _, hes, hrun, bind_ok_iff.2 ⟨_, rfl, ha⟩⟩
    obtain ⟨i, hi⟩ := Option.isSome_iff_exists.1
      (List.isSome_head?.2 (List.ne_nil_of_mem (hopen.subset List.mem_cons_self)))
    exact ⟨a, i, harrives, hi⟩

/-- A declaration is visited in the same way in whatever view, except that the declaration of a loop
gives its variables a value in each turn. -/
lemma exists_ofDeclaration (hn : n.kind = .variableDeclaration) (v : View) : ∃ inLoop,
    v.run sourceType globals n =
      ofDeclaration inLoop n (n.shape.map (contributions sourceType globals)) := by
  have hvalue : View.value.run sourceType globals n =
      ofDeclaration false n (n.shape.map (contributions sourceType globals)) := by
    rw [run_value, visitRule, Shape.kind_map, show n.shape.kind = _ from hn]
  cases v with
  | value => exact ⟨false, hvalue⟩
  | head => exact ⟨true, rfl⟩
  | pattern onName =>
    refine ⟨false, (run_pattern_of_expression ?_ ?_ onName).trans hvalue⟩ <;> rw [hn] <;> decide

/-- The events of a program up to the pattern of a declarator, those of the pattern, and the rest.
When the traversal comes to the pattern, the same scopes are open as at the declaration. -/
lemma Arrives.exists_names {k : Ranging} {a : Analysis} {declarator : Node}
    (h : Arrives sourceType globals root v n a) (hg : root.scopeGraph sourceType globals = .ok g)
    (hn : n.kind = .variableDeclaration) (hconforming : n.Conforming k)
    (hmem : declarator ∈ n.members .declarations) :
    ∃ pre names post c b ids inLoop, root.events sourceType globals = .ok (pre ++ names ++ post) ∧
      pre.foldlM Analysis.step {} = .ok c ∧ (names ++ post).foldlM Analysis.step c = .ok b ∧
      b.graph = g ∧ c.openScopes = a.openScopes ∧ declarator.bound = .ok ids ∧
      Spread (declared n.isHoisted inLoop n declarator n.keyword (declarator.part .init).head?)
        (IsFurtherInside sourceType globals declarator) ids names := by
  obtain ⟨before, own, after, hes, hrun, ha⟩ := h
  obtain ⟨inLoop, hview⟩ : ∃ inLoop, v.run sourceType globals n = _ := exists_ofDeclaration hn v
  rw [hview] at hrun
  obtain ⟨pre, names, post, ids, rfl, hpre, hids, hspread⟩ :=
    Event.exists_names hconforming inLoop hmem own hrun
  obtain ⟨es, b, hes', hb, hgraph⟩ := exists_run hg
  rw [hes] at hes'
  cases hes'
  have hsplit : before ++ (pre ++ names ++ post) ++ after =
      before ++ pre ++ names ++ (post ++ after) := by simp only [List.append_assoc]
  rw [hsplit] at hes hb
  rw [List.append_assoc, List.foldlM_append] at hb
  obtain ⟨c, hc, hb⟩ := bind_ok_iff.1 hb
  have hopen : c.openScopes = a.openScopes := by
    rw [List.foldlM_append, ha] at hc
    exact Analysis.openScopes_run hpre hc
  exact ⟨before ++ pre, names, post ++ after, c, b, ids, inLoop, hes, hc, hb, hgraph, hopen, hids,
    hspread⟩

end Node

/-- **A declarator defines the names of its pattern, and all of them in one scope.**  The
declaration stands anywhere in a program that comes from the conversion and can be analysed.  For
each identifier that the pattern binds, in the order in which it binds them and however deep they
are nested in it, the declarator makes one definition, under the name of the identifier.  No
identifier occurs twice.  If the declaration is hoisted, the definitions are added to the nearest
scope around it that is global, a module, a function or a static block, whatever other scopes lie
between, and otherwise to the innermost scope that is open when the traversal comes to the
declaration.  No other variable has a definition that belongs to the declarator. -/
theorem Graph.definitions_of_declarator {i : Convert.Input} {tree : Concrete Unit} {root : Node}
    {sourceType : String} {globals : List String} {g : Graph} {view : View}
    {declaration declarator : Node} (hbuild : Convert.build i tree = .ok root)
    (hroot : root.kind = .program) (h : root.scopeGraph sourceType globals = .ok g)
    (hcomes : root.ComesTo view declaration) (hkind : declaration.kind = .variableDeclaration)
    (hmem : declarator ∈ declaration.members .declarations) :
    ∃ es ids a innermost target, root.events sourceType globals = .ok es ∧
      declarator.bound = .ok ids ∧ (ids.map Node.id).Nodup ∧
      (Event.madeBy declarator es).map (·.identifier) = ids ∧
      (∀ d ∈ Event.madeBy declarator es, d.identifier.text? .name = .ok (some d.name)) ∧
      Node.Arrives sourceType globals root view declaration a ∧
      a.openScopes.head? = some innermost ∧
      (declaration.keyword = some "var" → g.Home innermost target) ∧
      (declaration.keyword ≠ some "var" → target = innermost) ∧
      ∀ v : VariableId, (g.definitionsOf v).filter (·.isOf declarator) =
        if v.scope = target then
          (Event.madeBy declarator es).filter (·.name = v.name) else [] := by
  have hdistinct := Convert.distinct_build hbuild
  have hconforming := Convert.conforming_build hbuild
  have hin := hcomes.contains
  have hne : declaration ≠ root := by
    rintro rfl
    rw [hroot] at hkind
    cases hkind
  have hdeclarator : root.Contains declarator :=
    hin.trans (Tree.contains_child (Node.mem_children_of_members hmem))
  obtain ⟨a, innermost, harrives, hi⟩ := hcomes.exists_arrives hne hroot h
  obtain ⟨pre, names, post, c, b, ids, inLoop, hes, hc, hb, rfl, hopen, hids, hspread⟩ :=
    harrives.exists_names h hkind (fun m hm => hconforming m (hin.trans hm)) hmem
  have hinner (fs : List Event) (hfs : Event.IsFurtherInside sourceType globals declarator fs) :=
    Event.madeBy_furtherInside (hdistinct.of_contains hdeclarator)
      (fun m hm => hconforming m (hdeclarator.trans hm)) hfs
  obtain ⟨hidentifiers, hnamed⟩ := hspread.identifiers_madeBy fun fs hfs => (hinner fs hfs).1
  obtain ⟨hpre, hpost⟩ :=
    Event.madeBy_around hdistinct hconforming hdeclarator hids hes hidentifiers
  have hmade : Event.madeBy declarator (pre ++ names ++ post) = Event.madeBy declarator names := by
    rw [Event.madeBy_append, Event.madeBy_append, hpre, hpost, List.nil_append, List.append_nil]
  have hinv := (Analysis.invariant_initial.run hc).2
  have hplaced := Event.definitionsOf_around hspread hinner hpre hpost hc (hopen ▸ hi) hb
  refine ⟨_, ids, a, innermost, b.target declaration.isHoisted innermost, hes, hids, ?_, ?_, ?_,
    harrives, hi, ?_, ?_, ?_⟩
  · have hnodup := hdistinct.nodup_picked Event.picks_introduces (Event.visits_events hes)
    rw [← hidentifiers, ← hmade]
    exact hnodup.sublist ((Event.madeBy_sublist declarator _).map Node.id)
  · rw [hmade, hidentifiers]
  · rw [hmade]
    exact hnamed
  · intro hvar
    have hlt := hinv.lt_of_open (List.mem_of_mem_head? (hopen ▸ hi))
    rw [show declaration.isHoisted = true from beq_iff_eq.2 hvar]
    exact Node.home_target hroot h (Nat.lt_of_lt_of_le hlt (Analysis.length_scopes_run hb))
  · intro hvar
    rw [show declaration.isHoisted = false from beq_eq_false_iff_ne.2 hvar]
    rfl
  · rw [hmade]
    exact hplaced

/-- The concrete tree of a block with a hoisted declaration.  The pattern has a default value in
which another variable is declared. -/
def Concrete.defaulted : Concrete Unit :=
  let keyword (start stop : Nat) := token "var" none start stop
  let body := node "statement_block" (some "body") 17 24
    [node "variable_declaration" none 18 23
      [keyword 18 21,
       node "variable_declarator" none 22 23 [identifier (some "name") 22 23]]]
  let function := node "arrow_function" (some "right") 13 24
    [node "formal_parameters" (some "parameters") 13 15 [], body]
  let elements := node "array_pattern" (some "value") 10 25
    [node "assignment_pattern" none 11 24 [identifier (some "left") 11 12, function]]
  let pattern := node "object_pattern" (some "name") 5 26
    [node "shorthand_property_identifier_pattern" none 6 7 [],
     node "pair_pattern" none 8 25 [node "property_identifier" (some "key") 8 9 [], elements]]
  let declarator := node "variable_declarator" none 5 28
    [pattern, identifier (some "value") 27 28]
  node "program" none 0 29
    [node "statement_block" none 0 29
      [node "variable_declaration" none 1 28 [keyword 1 4, declarator]]]

/-- The source of `Concrete.defaulted`. -/
def Source.defaulted : Source := ⟨"\x7bvar \x7ba,b:[c=()=>\x7bvar d\x7d]\x7d=x\x7d".toUTF8.toList⟩

/-- The two names of the pattern are defined in the module, outside the block, and the variable of
the default value is none of them. -/
theorem Graph.definitions_of_declarator_defaulted : ∃ root g declaration declarator ids es,
    Convert.build ⟨.defaulted, "module"⟩ .defaulted = .ok root ∧
      root.kind = .program ∧ root.scopeGraph "module" [] = .ok g ∧
      root.ComesTo .value declaration ∧ declaration.kind = .variableDeclaration ∧
      declaration.keyword = some "var" ∧ declarator ∈ declaration.members .declarations ∧
      g.scopes.map (·.kind) = [.global, .module, .block, .function] ∧
      declarator.bound = .ok ids ∧ ids.map (·.textIn .name) = [some "a", some "c"] ∧
      root.events "module" [] = .ok es ∧
      (Event.madeBy declarator es).map (·.identifier) = ids ∧
      ∀ v : VariableId, (g.definitionsOf v).filter (·.isOf declarator) =
        if v.scope = 1 then
          (Event.madeBy declarator es).filter (·.name = v.name) else [] := by
  have hall : (Convert.build ⟨.defaulted, "module"⟩ .defaulted).toOption.any fun root =>
      root.kind == .program && (root.scopeGraph "module" []).toOption.any fun g =>
        (root.members .body).any fun block => block.kind == .blockStatement &&
          (block.members .body).any fun declaration =>
            declaration.kind == .variableDeclaration && declaration.keyword == some "var" &&
              (declaration.members .declarations).any fun declarator =>
                g.scopes.map (·.kind) == [.global, .module, .block, .function] &&
                  (g.definitionsOf ⟨1, "a"⟩).any (·.isOf declarator) &&
                    declarator.bound.toOption.any fun ids =>
                      ids.map (·.textIn .name) == [some "a", some "c"] := by
    decide +kernel
  obtain ⟨root, hbuild, hall⟩ := exists_ok_of_any hall
  rw [Bool.and_eq_true, beq_iff_eq] at hall
  obtain ⟨hroot, hall⟩ := hall
  obtain ⟨g, h, hall⟩ := exists_ok_of_any hall
  obtain ⟨block, hblock, hall⟩ := List.any_eq_true.1 hall
  rw [Bool.and_eq_true, beq_iff_eq] at hall
  obtain ⟨hblockKind, hall⟩ := hall
  obtain ⟨declaration, hdeclaration, hall⟩ := List.any_eq_true.1 hall
  rw [Bool.and_eq_true, Bool.and_eq_true, beq_iff_eq, beq_iff_eq] at hall
  obtain ⟨⟨hkind, hvar⟩, hall⟩ := hall
  obtain ⟨declarator, hmem, hall⟩ := List.any_eq_true.1 hall
  rw [Bool.and_eq_true, Bool.and_eq_true, beq_iff_eq] at hall
  obtain ⟨⟨hscopes, hdefined⟩, hall⟩ := hall
  obtain ⟨ids, hids, hnames⟩ := exists_ok_of_any hall
  have hcomes : root.ComesTo .value declaration := by
    refine .next (n := block) (v := .value) ?_ (.next (n := root) (v := .value) ?_ .root)
    · rw [Node.visits, Node.valueVisits, hblockKind]
      exact List.mem_map_of_mem hdeclaration
    · rw [Node.visits, Node.valueVisits, hroot]
      exact List.mem_map_of_mem hblock
  obtain ⟨es, ids', a, innermost, target, hes, hids', -, hidentifiers, -, -, -, -, -, hplaced⟩ :=
    definitions_of_declarator hbuild hroot h hcomes hkind hmem
  rw [hids] at hids'
  cases hids'
  have htarget : 1 = target := by
    by_contra hne
    have hnone := hplaced ⟨1, "a"⟩
    rw [if_neg hne, List.filter_eq_nil_iff] at hnone
    obtain ⟨d, hd, hof⟩ := List.any_eq_true.1 hdefined
    exact hnone d hd hof
  subst htarget
  exact ⟨root, g, declaration, declarator, ids, es, hbuild, hroot, h, hcomes, hkind, hvar, hmem,
    hscopes, hids, beq_iff_eq.1 hnames, hes, hidentifiers, hplaced⟩

end RefFlow
