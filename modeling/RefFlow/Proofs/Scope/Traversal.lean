import Mathlib.Data.List.ReduceOption
import RefFlow.Proofs.Scope.Nested

/-!
# The traversal of a program, from the top

The events of a program are computed from the leaves upward.  Read from the top, they come from a
traversal: it comes to a node in a certain *view*, as a statement or an expression, as a pattern, or
as the head of a loop, and goes on from there to other nodes.  `Node.visits` lists the visits that
make up a visit to a node, in their order.  The traversal of a program *comes to* the nodes that are
reached from its root in this way (`Node.ComesTo`).

The two readings agree.  The events of a visit are those of the visits that it is made up of, one
after the other, with events of the node itself before, between and after them (`Event.Woven`).
None of the latter declares a variable: this happens only where the traversal comes to an identifier
in a pattern.  There is a lemma for each construct of the language, as there is in
`Proofs/Scope/Nested`, and `woven_run` puts them together.

It follows that the events of every visit are a piece of the events of the program
(`ComesTo.exists_piece`).  The traversal only goes further inside, and the names of a pattern are
declared as variables only where the pattern is that of a declarator (`leadsAll_visits`).
-/

namespace RefFlow

open Fallible

/-! ## Visits -/

/-- The patterns that take a value apart. -/
def Kind.patterns : List Kind := [.objectPattern, .arrayPattern, .assignmentPattern, .restElement]

/-- How the traversal comes to a node. -/
inductive View where
  /-- As a statement or an expression. -/
  | value
  /-- As the declaration of a loop over the parts of a value. -/
  | head
  /-- As a pattern, with the events for each identifier that it binds. -/
  | pattern (onName : Node → String → List Event)

namespace Node

/-- The node in a part, if there is one. -/
def part (n : Node) (f : Field) : List Node :=
  match n.child f with
  | .ok o => o.toList
  | .error _ => []

/-- The nodes of the list in a part, if there is one. -/
def members (n : Node) (f : Field) : List Node :=
  match n.items f with
  | .ok ts => ts.reduceOption
  | .error _ => []

/-- The node in a part, if it is computed. -/
def computed (n : Node) (f : Field) : List Node :=
  match n.flag .computed with
  | .ok true => n.part f
  | _ => []

/-- The text in a part, if there is one. -/
def textIn (n : Node) (f : Field) : Option String :=
  match n.text? f with
  | .ok t => t
  | .error _ => none

/-- The keyword of a declaration. -/
def keyword (n : Node) : Option String := n.textIn .kind

/-- The declaration is hoisted. -/
def isHoisted (n : Node) : Bool := n.keyword == some Event.hoistedKeyword

/-- Nodes are visited as statements or expressions. -/
def asValues (ns : List Node) : List (View × Node) := ns.map (.value, ·)

/-- Nodes are visited as patterns. -/
def asPatterns (onName : Node → String → List Event) (ns : List Node) : List (View × Node) :=
  ns.map (.pattern onName, ·)

/-- The visits to a declarator, which is part of a declaration: to what it binds and to its initial
value. -/
def declaratorVisits (declaration : Node) (inLoop : Bool) (declarator : Node) :
    List (View × Node) :=
  asPatterns (Event.declared declaration.isHoisted inLoop declaration declarator
    declaration.keyword (declarator.part .init).head?) (declarator.part .id) ++
  asValues (declarator.part .init)

/-- The visits to a declaration of variables. -/
def declarationVisits (n : Node) (inLoop : Bool) : List (View × Node) :=
  (n.members .declarations).flatMap (n.declaratorVisits inLoop)

/-- The visits to a member of an object pattern. -/
def memberVisits (onName : Node → String → List Event) (m : Node) : List (View × Node) :=
  if m.kind = .property then asValues (m.computed .key) ++ asPatterns onName (m.part .value)
  else asPatterns onName [m]

/-- The visits to a pattern. -/
def patternVisits (n : Node) (onName : Node → String → List Event) : List (View × Node) :=
  match n.kind with
  | .objectPattern => (n.members .properties).flatMap (memberVisits onName)
  | .arrayPattern => asPatterns onName (n.members .elements)
  | .assignmentPattern => asPatterns onName (n.part .left) ++ asValues (n.part .right)
  | .restElement => asPatterns onName (n.part .argument)
  | _ => []

/-- The visits to what a function consists of.  A block as its body opens no scope of its own, and
is not visited itself. -/
def functionVisits (n : Node) : List (View × Node) :=
  asPatterns (Event.binding .parameter n) (n.members .params) ++
    asValues ((n.part .body).flatMap fun b =>
      if b.kind = .blockStatement then b.members .body else [b])

/-- The visits to what a loop over the parts of a value consists of. -/
def forEachVisits (n : Node) : List (View × Node) :=
  asValues (n.part .right) ++
    (n.part .left).map (fun l =>
      (if l.kind = .variableDeclaration then .head
        else .pattern (Event.assigned (n.part .right).head?), l)) ++
    asValues (n.part .body)

/-- The visits to what an assignment consists of.  If something is combined with the old value, a
name is mentioned and anything else is an expression. -/
def assignmentVisits (n : Node) : List (View × Node) :=
  (if n.textIn .operator = some "="
    then asPatterns (Event.assigned (n.part .right).head?) (n.part .left)
    else asValues ((n.part .left).filter (·.kind ≠ .identifier))) ++
  asValues (n.part .right)

/-- The visits to a statement or an expression. -/
def valueVisits (n : Node) : List (View × Node) :=
  match n.kind with
  | .program | .blockStatement | .staticBlock => asValues (n.members .body)
  | .variableDeclaration => n.declarationVisits false
  | .importDeclaration | .exportAllDeclaration | .identifier => []
  | .exportNamedDeclaration => asValues (n.part .declaration)
  | .functionDeclaration | .functionExpression | .arrowFunctionExpression => n.functionVisits
  | .classDeclaration | .classExpression =>
    asValues (n.part .superClass) ++ asValues ((n.part .body).flatMap (·.members .body))
  | .methodDefinition | .propertyDefinition | .property =>
    asValues (n.computed .key) ++ asValues (n.part .value)
  | .tsEnumDeclaration => (n.members .members).flatMap fun m => asValues (m.part .initializer)
  | .tsModuleDeclaration => asValues (n.part .body)
  | .forStatement =>
    asValues (n.part .init) ++ asValues (n.part .test) ++ asValues (n.part .update) ++
      asValues (n.part .body)
  | .forInStatement | .forOfStatement => n.forEachVisits
  | .catchClause =>
    asPatterns (Event.binding .catchClause n) (n.part .param) ++ asValues (n.part .body)
  | .assignmentExpression => n.assignmentVisits
  | .updateExpression => asValues ((n.part .argument).filter (·.kind ≠ .identifier))
  | .memberExpression => asValues (n.part .object) ++ asValues (n.computed .property)
  | .objectPattern | .arrayPattern | .assignmentPattern | .restElement =>
    n.patternVisits (Event.assigned none)
  | _ => asValues n.children

/-- The visits that make up a visit to a node, in their order. -/
def visits (n : Node) : View → List (View × Node)
  | .value => n.valueVisits
  | .head => n.declarationVisits true
  | .pattern onName =>
    if n.kind ∈ Kind.patterns then n.patternVisits onName else n.valueVisits

/-- The traversal of a program comes to the node. -/
inductive ComesTo (root : Node) : View → Node → Prop
  | root : ComesTo root .value root
  | next {v w : View} {n m : Node} (visit : (w, m) ∈ n.visits v) :
      ComesTo root v n → ComesTo root w m

/-- The tree with what every node contributes. -/
def contributions (sourceType : String) (globals : List String) : Node → Visited :=
  Tree.annotate (Event.contribution sourceType globals)

end Node

/-- The events of a visit. -/
def View.run (sourceType : String) (globals : List String) (n : Node) :
    View → Except Fault (List Event)
  | .value => (n.contributions sourceType globals).label.visit
  | .head => Event.ofDeclaration true n (n.shape.map (Node.contributions sourceType globals))
  | .pattern onName => (n.contributions sourceType globals).label.bind onName

namespace Event

open Node

/-! ## Events of a visit -/

/-- The variables that an event declares. -/
def announces : Event → List Definition
  | .define _ d => if d.kind = .variable then [d] else []
  | _ => []

/-- The names of a pattern are not declared as variables. -/
def Silent (onName : Node → String → List Event) : Prop :=
  ∀ m name, (onName m name).flatMap announces = []

lemma silent_binding {kind : DefinitionKind} (hkind : kind ≠ .variable) (node : Node) :
    Silent (binding kind node) := by
  intro m name
  rw [binding, List.flatMap_singleton]
  exact if_neg hkind

lemma silent_assigned (written : Option Node) : Silent (assigned written) := fun _ _ => rfl

section

variable {sourceType : String} {globals : List String}

/-- The events are those of the given visits, with events of other sorts in between. -/
inductive Woven (sourceType : String) (globals : List String) :
    List (View × Node) → List Event → Prop
  | nil : Woven sourceType globals [] []
  | own {e : Event} {ps : List (View × Node)} {es : List Event} (plain : e.announces = []) :
      Woven sourceType globals ps es → Woven sourceType globals ps (e :: es)
  | visit {v : View} {n : Node} {ps : List (View × Node)} {es fs : List Event}
      (run : v.run sourceType globals n = .ok es) : Woven sourceType globals ps fs →
      Woven sourceType globals ((v, n) :: ps) (es ++ fs)

namespace Woven

variable {ps qs : List (View × Node)} {es fs : List Event}

lemma append (h : Woven sourceType globals ps es) (h' : Woven sourceType globals qs fs) :
    Woven sourceType globals (ps ++ qs) (es ++ fs) := by
  induction h with
  | nil => exact h'
  | own plain _ ih => exact .own plain ih
  | visit run _ ih =>
    rw [List.append_assoc, List.cons_append]
    exact .visit run ih

lemma single {v : View} {n : Node} (run : v.run sourceType globals n = .ok es) :
    Woven sourceType globals [(v, n)] es := by
  rw [← List.append_nil es]
  exact .visit run .nil

lemma plain (h : ∀ e ∈ es, e.announces = []) : Woven sourceType globals [] es := by
  induction es with
  | nil => exact .nil
  | cons e es ih =>
    exact .own (h e List.mem_cons_self) (ih fun e he => h e (List.mem_cons_of_mem _ he))

lemma within (h : Woven sourceType globals ps es) (kind : ScopeKind) (block : Node) :
    Woven sourceType globals ps (within kind block es) := by
  refine .own rfl ?_
  rw [← List.append_nil ps]
  exact h.append (.own rfl .nil)

lemma withinIf (h : Woven sourceType globals ps es) (b : Bool) (kind : ScopeKind) (block : Node) :
    Woven sourceType globals ps (withinIf b kind block es) := by
  unfold Event.withinIf
  split
  · exact h.within kind block
  · exact h

/-- The events of each of the visits are a piece of all events. -/
lemma exists_piece (h : Woven sourceType globals ps es) {v : View} {n : Node} (hn : (v, n) ∈ ps) :
    ∃ before own after, es = before ++ own ++ after ∧ v.run sourceType globals n = .ok own := by
  induction h with
  | nil => cases hn
  | @own e ps es _ _ ih =>
    obtain ⟨before, own, after, rfl, hrun⟩ := ih hn
    exact ⟨e :: before, own, after, rfl, hrun⟩
  | @visit w m ps es fs run _ ih =>
    rcases List.mem_cons.1 hn with hn | hn
    · cases hn
      exact ⟨[], es, fs, rfl, run⟩
    · obtain ⟨before, own, after, rfl, hrun⟩ := ih hn
      exact ⟨es ++ before, own, after, by simp only [List.append_assoc], hrun⟩

/-- A variable is declared in one of the visits. -/
lemma exists_visit (h : Woven sourceType globals ps es) {d : Definition}
    (hd : d ∈ es.flatMap announces) :
    ∃ v n own, (v, n) ∈ ps ∧ v.run sourceType globals n = .ok own ∧
      d ∈ own.flatMap announces := by
  induction h with
  | nil => cases hd
  | own plain _ ih =>
    rw [List.flatMap_cons, plain] at hd
    exact ih hd
  | @visit v n ps es fs run _ ih =>
    rw [List.flatMap_append, List.mem_append] at hd
    rcases hd with hd | hd
    · exact ⟨v, n, es, List.mem_cons_self, run, hd⟩
    · obtain ⟨w, m, own, hm, hrun, hd⟩ := ih hd
      exact ⟨w, m, own, List.mem_cons_of_mem _ hm, hrun, hd⟩

end Woven

/-! ## Parts of a node -/

variable {n : Node} {f : Field}

lemma label_contributions (n : Node) : (n.contributions sourceType globals).label =
    contribution sourceType globals n (n.shape.map (contributions sourceType globals)) :=
  Tree.label_annotate _ n

lemma shape_contributions (n : Node) : (n.contributions sourceType globals).shape =
    n.shape.map (contributions sourceType globals) :=
  Tree.shape_annotate _ n

lemma node_contributions (n : Node) : (n.contributions sourceType globals).label.node = n :=
  node_contribution sourceType globals n

lemma kind_contributions (n : Node) : (n.contributions sourceType globals).kind = n.kind := by
  rw [Tree.kind, shape_contributions]
  rfl

/-- A part of a node, with and without the contributions. -/
lemma gives_childOf (n : Node) (f : Field) :
    Gives ((n.shape.map (contributions sourceType globals)).child f) fun t =>
      ∃ o : Option Node, t = o.map (contributions sourceType globals) ∧ n.child f = .ok o := by
  intro t ht
  rw [Shape.child_map] at ht
  obtain ⟨o, ho, rfl⟩ := map_ok_iff.1 ht
  exact ⟨o, rfl, ho⟩

lemma gives_itemsOf (n : Node) (f : Field) :
    Gives ((n.shape.map (contributions sourceType globals)).items f) fun ts =>
      ∃ os : List (Option Node), ts = os.map (Option.map (contributions sourceType globals)) ∧
        n.items f = .ok os := by
  intro ts hts
  rw [Shape.items_map] at hts
  obtain ⟨os, hos, rfl⟩ := map_ok_iff.1 hts
  exact ⟨os, rfl, hos⟩

lemma gives_child (n : Node) (f : Field) :
    Gives ((n.shape.map (contributions sourceType globals)).child f) fun t =>
      ∃ o : Option Node, t = o.map (contributions sourceType globals) ∧ n.part f = o.toList := by
  refine (gives_childOf n f).mono ?_
  rintro _ ⟨o, rfl, ho⟩
  exact ⟨o, rfl, by rw [part, ho]⟩

lemma gives_items (n : Node) (f : Field) :
    Gives ((n.shape.map (contributions sourceType globals)).items f) fun ts =>
      ∃ os : List (Option Node), ts = os.map (Option.map (contributions sourceType globals)) ∧
        n.members f = os.reduceOption := by
  refine (gives_itemsOf n f).mono ?_
  rintro _ ⟨os, rfl, hos⟩
  exact ⟨os, rfl, by rw [members, hos]⟩

/-- The node that the contribution in a part belongs to. -/
lemma node_of_part {o : Option Node} (hpart : n.part f = o.toList) :
    (o.map (contributions sourceType globals)).map (·.label.node) = (n.part f).head? := by
  rw [hpart, Option.map_map]
  cases o with
  | none => rfl
  | some c => exact congrArg some (node_contributions c)

lemma gives_text (n : Node) (f : Field) :
    Gives ((n.shape.map (contributions sourceType globals)).text? f) (· = n.textIn f) := by
  rw [Shape.text?_map]
  intro t ht
  rw [textIn, Tree.text?, ht]

lemma woven_ofOption (o : Option Node) :
    Gives (ofOption (o.map (contributions sourceType globals)))
      (Woven sourceType globals (asValues o.toList)) := by
  cases o with
  | none => exact gives_ok .nil
  | some c => exact fun es h => .single h

lemma woven_ofPattern (onName : Node → String → List Event) (o : Option Node) :
    Gives (ofPattern onName (o.map (contributions sourceType globals)))
      (Woven sourceType globals (asPatterns onName o.toList)) := by
  cases o with
  | none => exact gives_ok .nil
  | some c => exact fun es h => .single h

lemma woven_ofPart (n : Node) (f : Field) :
    Gives (ofPart (n.shape.map (contributions sourceType globals)) f)
      (Woven sourceType globals (asValues (n.part f))) := by
  refine (gives_child n f).bind ?_
  rintro _ ⟨o, rfl, hpart⟩
  rw [hpart]
  exact woven_ofOption o

/-- What is done for each member of a list, one after the other. -/
lemma woven_mapM {α : Type} {g : α → Except Fault (List Event)} {p : α → List (View × Node)}
    {as : List α} (h : ∀ a ∈ as, Gives (g a) (Woven sourceType globals (p a))) :
    Gives (as.mapM g) fun ess => Woven sourceType globals (as.flatMap p) ess.flatten := by
  intro ess hess
  rw [mapM_ok_iff] at hess
  induction hess with
  | nil => exact .nil
  | cons hes _ ih =>
    rw [List.flatMap_cons, List.flatten_cons]
    exact (h _ List.mem_cons_self _ hes).append (ih fun a ha => h a (List.mem_cons_of_mem _ ha))

lemma woven_mapM_nil {α : Type} {g : α → Except Fault (List Event)} {as : List α}
    (h : ∀ a, Gives (g a) (Woven sourceType globals [])) :
    Gives (as.mapM g) fun ess => Woven sourceType globals [] ess.flatten := by
  refine (woven_mapM (p := fun _ => []) fun a _ => h a).mono fun ess hess => ?_
  rwa [List.flatMap_eq_nil_iff.2 fun _ _ => rfl] at hess

/-- What is done for each member of a list in which places may be left empty. -/
lemma woven_items {g : Option Visited → Except Fault (List Event)}
    {p : Node → List (View × Node)} {os : List (Option Node)}
    (hnone : none ∈ os → Gives (g none) (Woven sourceType globals []))
    (hsome : ∀ c, some c ∈ os →
      Gives (g (some (c.contributions sourceType globals))) (Woven sourceType globals (p c))) :
    Gives ((os.map (Option.map (contributions sourceType globals))).mapM g)
      fun ess => Woven sourceType globals (os.reduceOption.flatMap p) ess.flatten := by
  have hflat : os.reduceOption.flatMap p = os.flatMap fun o => o.toList.flatMap p := by
    rw [List.reduceOption, List.filterMap_eq_flatMap_toList, List.flatMap_assoc]
    rfl
  rw [List.mapM_map, hflat]
  refine woven_mapM fun o ho => ?_
  cases o with
  | none => exact hnone ho
  | some c =>
    rw [Option.toList_some, List.flatMap_singleton]
    exact hsome c ho

lemma asValues_eq (ns : List Node) : asValues ns = ns.flatMap fun n => [(.value, n)] :=
  List.map_eq_flatMap

lemma asPatterns_eq (onName : Node → String → List Event) (ns : List Node) :
    asPatterns onName ns = ns.flatMap fun n => [(.pattern onName, n)] :=
  List.map_eq_flatMap

lemma woven_ofItems (os : List (Option Node)) :
    Gives (ofItems (os.map (Option.map (contributions sourceType globals))))
      (Woven sourceType globals (asValues os.reduceOption)) := by
  rw [asValues_eq]
  refine (woven_items (fun _ => gives_ok .nil) fun c _ => ?_).bind fun ess h => gives_pure h
  exact fun es h => .single h

lemma woven_patterns (onName : Node → String → List Event) (os : List (Option Node)) :
    Gives ((os.map (Option.map (contributions sourceType globals))).mapM (ofPattern onName))
      fun ess => Woven sourceType globals (asPatterns onName os.reduceOption) ess.flatten := by
  rw [asPatterns_eq]
  exact woven_items (fun _ => gives_ok .nil) fun c _ es h => .single h

lemma woven_ofChildren (n : Node) :
    Gives (ofChildren (n.shape.map (contributions sourceType globals)))
      (Woven sourceType globals (asValues n.children)) := by
  unfold ofChildren
  rw [Shape.children_map, List.mapM_map, asValues_eq]
  refine (woven_mapM fun c _ => ?_).bind fun ess h => gives_pure h
  exact fun es h => .single h

lemma woven_definition {kind : DefinitionKind} (hkind : kind ≠ .variable) (node : Node)
    (declaration : Option Node) (t : Visited) :
    Gives (definition kind node declaration t) (Woven sourceType globals []) := by
  refine (gives_true _).bind fun name _ => gives_pure (.plain ?_)
  intro e he
  rw [List.mem_singleton.1 he]
  exact if_neg hkind

lemma woven_definitionAt {kind : DefinitionKind} (hkind : kind ≠ .variable) (n : Node)
    (f : Field) : Gives (definitionAt kind n (n.shape.map (contributions sourceType globals)) f)
      (Woven sourceType globals []) := by
  refine (gives_true _).bind fun t _ => ?_
  cases t with
  | none => exact gives_pure .nil
  | some t => exact woven_definition hkind n none t

lemma woven_mentioned (access : Access) (written : Option Node) (t : Visited) :
    Gives (mentioned access written t) (Woven sourceType globals []) :=
  (gives_true _).bind fun _ _ => gives_pure (.own rfl .nil)

/-- A part that counts only if it is computed. -/
lemma woven_computed (n : Node) (f : Field) {cont : List Event → Except Fault (List Event)}
    {P : List Event → Prop}
    (hcont : ∀ es, Woven sourceType globals (asValues (n.computed f)) es → Gives (cont es) P) :
    Gives (do
      if ← (n.shape.map (contributions sourceType globals)).flag .computed
      then ofPart (n.shape.map (contributions sourceType globals)) f >>= cont
      else pure [] >>= cont) P := by
  rw [Shape.flag_map]
  intro es hes
  obtain ⟨b, hb, hes⟩ := bind_ok_iff.1 hes
  have hcomputed : n.computed f = if b then n.part f else [] := by
    rw [computed, Tree.flag, hb]
    cases b <;> rfl
  rw [hcomputed] at hcont
  cases b with
  | true => exact (woven_ofPart n f).bind hcont es hes
  | false => exact (gives_pure .nil).bind hcont es hes

/-! ## Constructs -/

/-! ### Patterns and declarations -/

lemma woven_ofPatternMember (onName : Node → String → List Event) (m : Node) :
    Gives (ofPatternMember onName (m.contributions sourceType globals))
      (Woven sourceType globals (memberVisits onName m)) := by
  unfold ofPatternMember memberVisits Tree.flag Tree.child
  rw [kind_contributions, shape_contributions]
  by_cases hkind : m.kind = .property
  · rw [if_pos hkind, if_pos (by simpa using hkind)]
    refine woven_computed m .key fun key hkey => (gives_child m .value).bind ?_
    rintro _ ⟨o, rfl, hpart⟩
    rw [hpart]
    exact (woven_ofPattern onName o).bind fun es hes => gives_pure (hkey.append hes)
  · rw [if_neg hkind, if_neg (by simpa using hkind)]
    exact fun es h => .single h

lemma woven_bindRule (n : Node) (visit : Except Fault (List Event))
    (onName : Node → String → List Event)
    (hkind : n.kind ∈ Kind.patterns) :
    Gives (bindRule n (n.shape.map (contributions sourceType globals)) visit onName)
      (Woven sourceType globals (n.patternVisits onName)) := by
  unfold bindRule patternVisits
  rw [Shape.kind_map]
  unfold Tree.kind at hkind ⊢
  simp only [Kind.patterns, List.mem_cons, List.not_mem_nil, or_false] at hkind
  rcases hkind with hk | hk | hk | hk <;> rw [hk] <;> dsimp only
  · refine (gives_items n .properties).bind ?_
    rintro _ ⟨os, rfl, hmembers⟩
    rw [hmembers]
    refine (woven_items (fun _ => ?_) fun m _ => ?_).bind fun ess h => gives_pure h
    · exact fun es h => by cases h
    · exact woven_ofPatternMember onName m
  · refine (gives_items n .elements).bind ?_
    rintro _ ⟨os, rfl, hmembers⟩
    rw [hmembers]
    exact (woven_patterns onName os).bind fun ess h => gives_pure h
  · refine (gives_child n .left).bind ?_
    rintro _ ⟨o, rfl, hpart⟩
    rw [hpart]
    refine (woven_ofPattern onName o).bind fun left hleft => ?_
    exact (woven_ofPart n .right).bind fun right hright => gives_pure (hleft.append hright)
  · refine (gives_child n .argument).bind ?_
    rintro _ ⟨o, rfl, hpart⟩
    rw [hpart]
    exact woven_ofPattern onName o

lemma gives_isHoisted (n : Node) :
    Gives (Event.isHoisted (n.shape.map (contributions sourceType globals)))
      (· = Node.isHoisted n) :=
  (gives_text n .kind).bind fun k hk => gives_pure (by rw [hk, Node.isHoisted, keyword])

/-- The events of a declarator, which is part of a declaration. -/
def ofDeclarator (sourceType : String) (globals : List String) (n : Node) (inLoop : Bool)
    (d : Node) : Except Fault (List Event) := do
  let init ← (d.contributions sourceType globals).child .init
  let onName := declared (Node.isHoisted n) inLoop n (d.contributions sourceType globals).label.node
    n.keyword (init.map (·.label.node))
  let names ← ofPattern onName (← (d.contributions sourceType globals).child .id)
  return names ++ (← ofOption init)

lemma woven_ofDeclarator (n : Node) (inLoop : Bool) (d : Node) :
    Gives (ofDeclarator sourceType globals n inLoop d)
      (Woven sourceType globals (n.declaratorVisits inLoop d)) := by
  unfold ofDeclarator Tree.child declaratorVisits
  rw [shape_contributions, node_contributions]
  refine (gives_child d .init).bind ?_
  rintro _ ⟨init, rfl, hinit⟩
  refine (gives_child d .id).bind ?_
  rintro _ ⟨o, rfl, hid⟩
  rw [node_of_part hinit, hid]
  refine (woven_ofPattern _ o).bind fun names hnames => ?_
  refine (woven_ofOption init).bind fun value hvalue => gives_pure ?_
  rw [← hinit] at hvalue
  exact hnames.append hvalue

lemma woven_ofDeclaration (n : Node) (inLoop : Bool) :
    Gives (ofDeclaration inLoop n (n.shape.map (contributions sourceType globals)))
      (Woven sourceType globals (n.declarationVisits inLoop)) := by
  refine (gives_text n .kind).bind ?_
  rintro _ rfl
  refine (gives_isHoisted n).bind ?_
  rintro _ rfl
  refine (gives_items n .declarations).bind ?_
  rintro _ ⟨os, rfl, hmembers⟩
  rw [declarationVisits, hmembers]
  refine (woven_items (p := n.declaratorVisits inLoop) (fun _ es h => by cases h)
    fun d _ => ?_).bind fun ess hess => gives_pure ?_
  · exact woven_ofDeclarator n inLoop d
  · split
    · exact .own rfl hess
    · exact hess

lemma woven_ofImport (node : Node) (s : Shape Visited) :
    Gives (ofImport node s) (Woven sourceType globals []) := by
  refine (gives_true _).bind fun ts _ => ?_
  refine (woven_mapM_nil fun item => ?_).bind fun ess hess => gives_pure hess
  refine (gives_true _).bind fun t _ => (gives_true _).bind fun l _ => ?_
  cases l with
  | none => exact gives_throw
  | some l => exact woven_definition (by decide) _ _ l

lemma woven_ofExport (n : Node) :
    Gives (ofExport (n.shape.map (contributions sourceType globals)))
      (Woven sourceType globals (asValues (n.part .declaration))) := by
  refine (gives_child n .declaration).bind ?_
  rintro _ ⟨o, rfl, hpart⟩
  rw [hpart]
  cases o with
  | some d => exact fun es h => .single h
  | none =>
    refine (gives_true _).bind fun source _ => ?_
    cases source with
    | some source => exact gives_pure .nil
    | none =>
      refine (gives_true _).bind fun ts _ => ?_
      refine (woven_mapM_nil fun item => ?_).bind fun ess hess => gives_pure hess
      refine (gives_true _).bind fun t _ => (gives_true _).bind fun l _ => ?_
      cases l with
      | none => exact gives_throw
      | some l =>
        dsimp only
        split
        · exact woven_mentioned _ _ l
        · exact gives_pure .nil

/-! ### Scopes -/

lemma woven_ofBlock (n : Node) (kind : ScopeKind) :
    Gives (ofBlock kind n (n.shape.map (contributions sourceType globals)))
      (Woven sourceType globals (asValues (n.members .body))) := by
  refine (gives_items n .body).bind ?_
  rintro _ ⟨os, rfl, hmembers⟩
  rw [hmembers]
  exact (woven_ofItems os).bind fun es hes => gives_pure (hes.within kind n)

lemma woven_declare (names : List String) : Woven sourceType globals [] (names.map .declare) := by
  refine .plain fun e he => ?_
  obtain ⟨name, -, rfl⟩ := List.mem_map.1 he
  rfl

lemma woven_ofProgram (n : Node) :
    Gives (ofProgram sourceType globals n (n.shape.map (contributions sourceType globals)))
      (Woven sourceType globals (asValues (n.members .body))) := by
  refine (gives_items n .body).bind ?_
  rintro _ ⟨os, rfl, hmembers⟩
  rw [hmembers]
  exact (woven_ofItems os).bind fun body hbody =>
    gives_pure (((woven_declare globals).append (hbody.withinIf _ .module n)).within .global n)

/-- The own name of a construct is defined inside it if the construct is of a certain kind. -/
lemma woven_ownName (n : Node) (k : Kind) {kind : DefinitionKind} (hkind : kind ≠ .variable)
    {cont : List Event → Except Fault (List Event)} {P : List Event → Prop}
    (hcont : ∀ es, Woven sourceType globals [] es → Gives (cont es) P) :
    Gives (if (n.shape.map (contributions sourceType globals)).kind == k
      then definitionAt kind n (n.shape.map (contributions sourceType globals)) .id >>= cont
      else pure [] >>= cont) P :=
  .ite_bind (fun _ => woven_definitionAt hkind n .id) (fun _ => gives_pure .nil) hcont

lemma woven_ofFunction (n : Node) :
    Gives (ofFunction n (n.shape.map (contributions sourceType globals)))
      (Woven sourceType globals n.functionVisits) := by
  refine woven_ownName n _ (by decide) fun own hown => ?_
  refine (gives_items n .params).bind ?_
  rintro _ ⟨ps, rfl, hparams⟩
  refine (woven_patterns _ ps).bind fun params hpatterns => (gives_child n .body).bind ?_
  rintro _ ⟨o, rfl, hpart⟩
  have hreceiver : Woven sourceType globals []
      (if (n.shape.map (contributions sourceType globals)).kind == .arrowFunctionExpression then []
        else [.declare "arguments"]) := by
    split
    · exact .nil
    · exact .own rfl .nil
  have hall : ∀ ns body, Woven sourceType globals (asValues ns) body → Woven sourceType globals
      (asPatterns (binding .parameter n) ps.reduceOption ++ asValues ns) _ :=
    fun ns body hbody =>
      (((hown.append hreceiver).append hpatterns).append hbody).within .function n
  rw [functionVisits, hparams, hpart]
  cases o with
  | none => exact (gives_pure .nil).bind fun body hbody => gives_pure (hall [] body hbody)
  | some b =>
    rw [Option.toList_some, List.flatMap_singleton, Option.map_some]
    dsimp only
    rw [kind_contributions]
    by_cases hkind : b.kind = .blockStatement
    · rw [if_pos hkind, if_pos (by simpa using hkind), Tree.items, shape_contributions]
      refine (gives_items b .body).bind ?_
      rintro _ ⟨os, rfl, hmembers⟩
      rw [hmembers]
      exact (woven_ofItems os).bind fun body hbody => gives_pure (hall _ body hbody)
    · rw [if_neg hkind, if_neg (by simpa using hkind)]
      exact (woven_ofOption (some b)).bind fun body hbody => gives_pure (hall _ body hbody)

lemma woven_ofClass (n : Node) :
    Gives (ofClass n (n.shape.map (contributions sourceType globals)))
      (Woven sourceType globals (asValues (n.part .superClass) ++
        asValues ((n.part .body).flatMap (·.members .body)))) := by
  refine (woven_ofPart n .superClass).bind fun above habove => ?_
  refine woven_ownName n _ (by decide) fun own hown => (gives_child n .body).bind ?_
  rintro _ ⟨o, rfl, hpart⟩
  rw [hpart]
  cases o with
  | none => exact gives_throw
  | some b =>
    rw [Option.toList_some, List.flatMap_singleton, Option.map_some]
    dsimp only
    rw [Tree.items, shape_contributions]
    refine (gives_items b .body).bind ?_
    rintro _ ⟨os, rfl, hmembers⟩
    rw [hmembers]
    exact (woven_ofItems os).bind fun body hbody =>
      gives_pure (habove.append ((hown.append hbody).within .classBody n))

lemma gives_mapM_present (os : List (Option Node)) :
    Gives ((os.map (Option.map (contributions sourceType globals))).mapM present) fun ms =>
      ms = os.reduceOption.map (contributions sourceType globals) := by
  intro ms hms
  rw [mapM_ok_iff] at hms
  induction os generalizing ms with
  | nil =>
    cases hms
    rfl
  | cons o os ih =>
    cases hms with
    | cons hm hms =>
      cases o with
      | none => cases hm
      | some c =>
        cases hm
        rw [ih _ hms]
        rfl

lemma woven_ofEnum (n : Node) :
    Gives (ofEnum n (n.shape.map (contributions sourceType globals)))
      (Woven sourceType globals
        ((n.members .members).flatMap fun m => asValues (m.part .initializer))) := by
  refine (woven_definitionAt (by decide) n .id).bind fun own hown => ?_
  refine (gives_items n .members).bind ?_
  rintro _ ⟨os, rfl, hmembers⟩
  refine (gives_mapM_present os).bind ?_
  rintro _ rfl
  refine Gives.bind (P := fun ess => Woven sourceType globals [] ess.flatten)
    (woven_mapM_nil fun m => ?_) fun names hnames => ?_
  · refine (gives_true _).bind fun t _ => ?_
    cases t with
    | none => exact gives_pure .nil
    | some t =>
      dsimp only
      split
      · exact woven_definition (by decide) _ _ t
      · exact gives_pure .nil
  · rw [List.mapM_map, hmembers]
    refine (woven_mapM fun m _ => ?_).bind fun values hvalues =>
      gives_pure (hown.append ((hnames.append hvalues).within .enum n))
    rw [Function.comp_apply, shape_contributions]
    exact woven_ofPart m .initializer

lemma woven_ofLoop (n : Node) :
    Gives (ofLoop n (n.shape.map (contributions sourceType globals)))
      (Woven sourceType globals (asValues (n.part .init) ++ asValues (n.part .test) ++
        asValues (n.part .update) ++ asValues (n.part .body))) := by
  refine (gives_true _).bind fun init _ => (gives_true _).bind fun lexical _ => ?_
  refine (woven_ofPart n .init).bind fun init hinit => ?_
  refine (woven_ofPart n .test).bind fun test htest => ?_
  refine (woven_ofPart n .update).bind fun update hupdate => ?_
  refine (woven_ofPart n .body).bind fun body hbody => gives_pure ?_
  exact (((hinit.append htest).append hupdate).append hbody).withinIf lexical .loop n

lemma woven_ofForEach (n : Node) :
    Gives (ofForEach n (n.shape.map (contributions sourceType globals)))
      (Woven sourceType globals n.forEachVisits) := by
  refine (gives_child n .right).bind ?_
  rintro _ ⟨right, rfl, hright⟩
  refine (woven_ofOption right).bind fun value hvalue => (gives_child n .left).bind ?_
  rintro _ ⟨left, rfl, hleft⟩
  cases left with
  | none => exact gives_throw
  | some l =>
    refine (gives_true _).bind fun lexical _ => ?_
    rw [node_of_part hright, forEachVisits, hleft, Option.toList_some, List.map_singleton]
    rw [← hright] at hvalue
    refine .ite_bind (P := Woven sourceType globals [(if l.kind = .variableDeclaration then .head
      else .pattern (assigned (n.part .right).head?), l)]) (fun hk => ?_) (fun hk => ?_)
      fun target htarget => ?_
    · rw [kind_contributions] at hk
      rw [if_pos (by simpa using hk), node_contributions, shape_contributions]
      exact fun es h => .single h
    · rw [kind_contributions] at hk
      rw [if_neg (by simpa using hk)]
      exact fun es h => .single h
    · refine (woven_ofPart n .body).bind fun body hbody => gives_pure ?_
      rw [List.append_assoc]
      exact hvalue.append ((htarget.append hbody).withinIf lexical .loop n)

lemma woven_ofHandler (n : Node) :
    Gives (ofHandler n (n.shape.map (contributions sourceType globals)))
      (Woven sourceType globals
        (asPatterns (binding .catchClause n) (n.part .param) ++ asValues (n.part .body))) := by
  refine (gives_child n .param).bind ?_
  rintro _ ⟨o, rfl, hpart⟩
  rw [hpart]
  refine (woven_ofPattern _ o).bind fun param hparam => ?_
  exact (woven_ofPart n .body).bind fun body hbody =>
    gives_pure ((hparam.append hbody).within .handler n)

/-! ### Expressions -/

/-- A name is mentioned, and anything else is visited. -/
lemma woven_updated (access : Access) (written : Option Node) (t : Node) :
    Gives (if isIdentifier (t.contributions sourceType globals)
        then mentioned access written (t.contributions sourceType globals)
        else (t.contributions sourceType globals).label.visit)
      (Woven sourceType globals (asValues ([t].filter (·.kind ≠ .identifier)))) := by
  unfold isIdentifier
  rw [kind_contributions]
  by_cases hkind : t.kind = .identifier
  · rw [if_pos (by simpa using hkind), List.filter_cons_of_neg (by simpa using hkind)]
    exact woven_mentioned _ _ _
  · rw [if_neg (by simpa using hkind), List.filter_cons_of_pos (by simpa using hkind)]
    exact woven_ofOption (some t)

lemma woven_ofAssignment (n : Node) :
    Gives (ofAssignment (n.shape.map (contributions sourceType globals)))
      (Woven sourceType globals n.assignmentVisits) := by
  refine (gives_child n .right).bind ?_
  rintro _ ⟨right, rfl, hright⟩
  refine (gives_child n .left).bind ?_
  rintro _ ⟨left, rfl, hleft⟩
  refine (gives_text n .operator).bind ?_
  rintro _ rfl
  rw [node_of_part hright]
  have hall : ∀ ps target, Woven sourceType globals ps target →
      Gives (do return target ++ (← ofOption (right.map (contributions sourceType globals))))
        (Woven sourceType globals (ps ++ asValues (n.part .right))) := by
    intro ps target htarget
    rw [hright]
    exact (woven_ofOption right).bind fun value hvalue => gives_pure (htarget.append hvalue)
  unfold assignmentVisits
  by_cases hoperator : n.textIn .operator = some "="
  · rw [if_pos hoperator, if_pos (by simpa using hoperator), hleft]
    exact (woven_ofPattern _ left).bind (hall _)
  · rw [if_neg hoperator, if_neg (by simpa using hoperator), hleft]
    cases left with
    | none => exact (gives_pure .nil).bind (hall _)
    | some l =>
      have hl : Gives _ (Woven sourceType globals _) :=
        woven_updated .readWrite (n.part .right).head? l
      refine .ite_bind (fun hi => ?_) (fun hi => ?_) (hall _)
      · rwa [if_pos hi] at hl
      · rwa [if_neg hi] at hl

lemma woven_ofUpdate (n : Node) :
    Gives (ofUpdate (n.shape.map (contributions sourceType globals)))
      (Woven sourceType globals
        (asValues ((n.part .argument).filter (·.kind ≠ .identifier)))) := by
  refine (gives_child n .argument).bind ?_
  rintro _ ⟨o, rfl, hpart⟩
  rw [hpart]
  cases o with
  | none => exact gives_pure .nil
  | some t => exact woven_updated _ _ t

lemma woven_ofMember (n : Node) :
    Gives (ofMember (n.shape.map (contributions sourceType globals)))
      (Woven sourceType globals
        (asValues (n.part .object) ++ asValues (n.computed .property))) :=
  (woven_ofPart n .object).bind fun _ hobject =>
    woven_computed n .property fun _ hkey => gives_pure (hobject.append hkey)

lemma woven_ofProperty (n : Node) :
    Gives (ofProperty (n.shape.map (contributions sourceType globals)))
      (Woven sourceType globals
        (asValues (n.computed .key) ++ asValues (n.part .value))) :=
  woven_computed n .key fun _ hkey =>
    (woven_ofPart n .value).bind fun _ hvalue => gives_pure (hkey.append hvalue)

/-! ## All nodes -/

lemma woven_visitRule (n : Node) :
    Gives (visitRule sourceType globals n (n.shape.map (contributions sourceType globals)))
      (Woven sourceType globals n.valueVisits) := by
  have hpattern (hk : n.kind ∈ Kind.patterns) : Gives _ (Woven sourceType globals _) :=
    woven_bindRule n (.ok []) (assigned none) hk
  unfold visitRule valueVisits Tree.kind
  rw [Shape.kind_map]
  split
  rotate_right
  · -- Constructs without a rule of their own, and no other rule applies to them.
    split
    case h_30 => exact woven_ofChildren n
    all_goals contradiction
  all_goals
    rename_i hk
    rw [hk]
    dsimp only
  · exact woven_ofProgram n
  · exact woven_ofBlock n .block
  · exact woven_ofBlock n .staticBlock
  · exact (woven_ofChildren n).bind fun es hes => gives_pure (hes.within .switch n)
  · exact woven_ofDeclaration n false
  · exact woven_ofImport n _
  · exact woven_ofExport n
  · exact gives_ok .nil
  · exact (woven_definitionAt (by decide) n .id).bind fun own hown =>
      (woven_ofFunction n).bind fun es hes => gives_pure (hown.append hes)
  · exact woven_ofFunction n
  · exact woven_ofFunction n
  · exact (woven_definitionAt (by decide) n .id).bind fun own hown =>
      (woven_ofClass n).bind fun es hes => gives_pure (hown.append hes)
  · exact woven_ofClass n
  · exact woven_ofProperty n
  · exact woven_ofProperty n
  · exact woven_ofProperty n
  · exact woven_ofEnum n
  · exact (woven_definitionAt (by decide) n .id).bind fun own hown =>
      (woven_ofPart n .body).bind fun es hes => gives_pure (hown.append hes)
  · exact woven_ofLoop n
  · exact woven_ofForEach n
  · exact woven_ofForEach n
  · exact woven_ofHandler n
  · exact (gives_true _).bind fun name _ => gives_pure (.own rfl .nil)
  · exact woven_ofAssignment n
  · exact woven_ofUpdate n
  · exact woven_ofMember n
  · exact hpattern (by rw [Tree.kind, hk]; decide)
  · exact hpattern (by rw [Tree.kind, hk]; decide)
  · exact hpattern (by rw [Tree.kind, hk]; decide)
  · exact hpattern (by rw [Tree.kind, hk]; decide)

lemma run_value (n : Node) : View.value.run sourceType globals n =
    visitRule sourceType globals n (n.shape.map (contributions sourceType globals)) := by
  unfold View.run
  rw [label_contributions]
  rfl

lemma run_pattern (n : Node) (onName : Node → String → List Event) :
    (View.pattern onName).run sourceType globals n =
      bindRule n (n.shape.map (contributions sourceType globals))
        (View.value.run sourceType globals n) onName := by
  rw [run_value]
  unfold View.run
  rw [label_contributions]
  rfl

/-- What is neither a name nor a pattern that takes a value apart is visited as an expression. -/
lemma run_pattern_of_expression (hname : n.kind ≠ .identifier) (hkind : n.kind ∉ Kind.patterns)
    (onName : Node → String → List Event) :
    (View.pattern onName).run sourceType globals n = View.value.run sourceType globals n := by
  rw [run_pattern]
  unfold bindRule
  rw [Shape.kind_map]
  split
  case h_1 hk => exact absurd hk hname
  case h_2 hk | h_3 hk | h_4 hk | h_5 hk => exact absurd (by rw [Tree.kind, hk]; decide) hkind
  case h_6 => rfl

/-- **The events of a visit are woven from those of the visits that it is made up of**, unless it is
a visit to an identifier in a pattern. -/
lemma woven_run {v : View} (hv : ∀ onName, v = .pattern onName → n.kind ≠ .identifier) :
    Gives (v.run sourceType globals n) (Woven sourceType globals (n.visits v)) := by
  cases v with
  | value =>
    rw [run_value]
    exact woven_visitRule n
  | head => exact woven_ofDeclaration n true
  | pattern onName =>
    by_cases hk : n.kind ∈ Kind.patterns
    · rw [run_pattern, visits, if_pos hk]
      exact woven_bindRule n _ onName hk
    · rw [run_pattern_of_expression (hv onName rfl) hk, run_value, visits, if_neg hk]
      exact woven_visitRule n

/-- A visit from which the traversal goes on is no visit to an identifier in a pattern. -/
lemma kind_of_mem_visits {v w : View} {m : Node} (h : (w, m) ∈ n.visits v) :
    ∀ onName, v = .pattern onName → n.kind ≠ .identifier := by
  rintro onName rfl hkind
  rw [visits, hkind, if_neg (by decide), valueVisits, hkind] at h
  exact List.not_mem_nil h

end

end Event

/-! ## Where the traversal goes -/

namespace Node

open Event

variable {n m : Node} {f : Field}

lemma mem_children_of_part (h : m ∈ n.part f) : m ∈ n.children := by
  unfold part at h
  split at h
  · rename_i o ho
    obtain rfl := Option.mem_toList.1 h
    exact Shape.mem_children_of_child ho
  · cases h

lemma mem_children_of_members (h : m ∈ n.members f) : m ∈ n.children := by
  unfold members at h
  split at h
  · rename_i ts hts
    exact Shape.mem_children_of_items hts (List.reduceOption_mem_iff.1 h)
  · cases h

lemma mem_children_of_computed (h : m ∈ n.computed f) : m ∈ n.children := by
  unfold computed at h
  split at h
  · exact mem_children_of_part h
  · cases h

/-- The node stands further inside. -/
def IsBelow (n m : Node) : Prop := ∃ c ∈ n.children, c.Contains m

lemma isBelow_of_child (h : m ∈ n.children) : n.IsBelow m := ⟨m, h, .refl m⟩

lemma isBelow_of_grandchild {c : Node} (hc : c ∈ n.children) (h : m ∈ c.children) : n.IsBelow m :=
  ⟨c, hc, Tree.contains_child h⟩

/-- What one visit leads to: a node further inside, and if this is a pattern whose names are
declared as variables, it is the pattern of a declarator of the node. -/
structure Leads (n : Node) (q : View × Node) : Prop where
  below : n.IsBelow q.2
  declares : ∀ onName, q.1 = .pattern onName → Silent onName ∨
    ∃ inLoop, ∃ d ∈ n.members .declarations, q.2 ∈ d.part .id ∧
      onName = declared n.isHoisted inLoop n d n.keyword (d.part .init).head?

/-- All of the visits lead on from the node. -/
def LeadsAll (n : Node) (ps : List (View × Node)) : Prop := ∀ q ∈ ps, n.Leads q

namespace LeadsAll

variable {ps qs : List (View × Node)} {ms : List Node}

lemma append (hp : n.LeadsAll ps) (hq : n.LeadsAll qs) : n.LeadsAll (ps ++ qs) :=
  List.forall_mem_append.2 ⟨hp, hq⟩

lemma values (h : ∀ m ∈ ms, n.IsBelow m) : n.LeadsAll (asValues ms) := by
  intro q hq
  obtain ⟨m, hm, rfl⟩ := List.mem_map.1 hq
  exact ⟨h m hm, fun _ h => by cases h⟩

lemma patterns {onName : Node → String → List Event} (ho : Silent onName)
    (h : ∀ m ∈ ms, n.IsBelow m) : n.LeadsAll (asPatterns onName ms) := by
  intro q hq
  obtain ⟨m, hm, rfl⟩ := List.mem_map.1 hq
  refine ⟨h m hm, ?_⟩
  rintro _ ⟨⟩
  exact .inl ho

lemma part (n : Node) (f : Field) : n.LeadsAll (asValues (n.part f)) :=
  values fun _ hm => isBelow_of_child (mem_children_of_part hm)

lemma members (n : Node) (f : Field) : n.LeadsAll (asValues (n.members f)) :=
  values fun _ hm => isBelow_of_child (mem_children_of_members hm)

lemma computed (n : Node) (f : Field) : n.LeadsAll (asValues (n.computed f)) :=
  values fun _ hm => isBelow_of_child (mem_children_of_computed hm)

lemma declaration (n : Node) (inLoop : Bool) : n.LeadsAll (n.declarationVisits inLoop) := by
  intro q hq
  obtain ⟨d, hd, hq⟩ := List.mem_flatMap.1 hq
  have hchild := mem_children_of_members hd
  rcases List.mem_append.1 hq with hq | hq <;> obtain ⟨m, hm, rfl⟩ := List.mem_map.1 hq
  · refine ⟨isBelow_of_grandchild hchild (mem_children_of_part hm), ?_⟩
    rintro _ ⟨⟩
    exact .inr ⟨inLoop, d, hd, hm, rfl⟩
  · exact ⟨isBelow_of_grandchild hchild (mem_children_of_part hm), fun _ h => by cases h⟩

lemma pattern (n : Node) {onName : Node → String → List Event} (ho : Silent onName) :
    n.LeadsAll (n.patternVisits onName) := by
  have hpart (f : Field) : n.LeadsAll (asPatterns onName (n.part f)) :=
    patterns ho fun _ hm => isBelow_of_child (mem_children_of_part hm)
  unfold patternVisits
  split
  · intro q hq
    obtain ⟨m, hm, hq⟩ := List.mem_flatMap.1 hq
    have hchild := mem_children_of_members hm
    revert hq
    unfold memberVisits
    split
    · refine (values fun c hc => ?_).append (patterns ho fun c hc => ?_) q
      · exact isBelow_of_grandchild hchild (mem_children_of_computed hc)
      · exact isBelow_of_grandchild hchild (mem_children_of_part hc)
    · exact patterns ho (List.forall_mem_singleton.2 (isBelow_of_child hchild)) q
  · exact patterns ho fun _ hm => isBelow_of_child (mem_children_of_members hm)
  · exact (hpart .left).append (part n .right)
  · exact hpart .argument
  · exact fun _ h => (List.not_mem_nil h).elim

lemma function (n : Node) : n.LeadsAll n.functionVisits := by
  refine (patterns (silent_binding (by decide) n) fun m hm => ?_).append (values fun m hm => ?_)
  · exact isBelow_of_child (mem_children_of_members hm)
  · obtain ⟨b, hb, hm⟩ := List.mem_flatMap.1 hm
    have hchild := mem_children_of_part hb
    split at hm
    · exact isBelow_of_grandchild hchild (mem_children_of_members hm)
    · exact isBelow_of_child (List.mem_singleton.1 hm ▸ hchild)

lemma forEach (n : Node) : n.LeadsAll n.forEachVisits := by
  refine ((part n .right).append fun q hq => ?_).append (part n .body)
  obtain ⟨l, hl, rfl⟩ := List.mem_map.1 hq
  refine ⟨isBelow_of_child (mem_children_of_part hl), fun onName h => .inl ?_⟩
  dsimp only at h
  split at h <;> cases h
  exact silent_assigned _

lemma target (n : Node) (f : Field) :
    n.LeadsAll (asValues ((n.part f).filter (·.kind ≠ .identifier))) :=
  values fun _ hm => isBelow_of_child (mem_children_of_part (List.mem_of_mem_filter hm))

lemma assignment (n : Node) : n.LeadsAll n.assignmentVisits := by
  refine LeadsAll.append ?_ (part n .right)
  split
  · exact patterns (silent_assigned _) fun _ hm => isBelow_of_child (mem_children_of_part hm)
  · exact target n .left

lemma value (n : Node) : n.LeadsAll n.valueVisits := by
  have hbody : n.LeadsAll (asValues ((n.part .body).flatMap (·.members .body))) := by
    refine values fun m hm => ?_
    obtain ⟨b, hb, hm⟩ := List.mem_flatMap.1 hm
    exact isBelow_of_grandchild (mem_children_of_part hb) (mem_children_of_members hm)
  have henum : n.LeadsAll
      ((n.members .members).flatMap fun m => asValues (m.part .initializer)) := by
    intro q hq
    obtain ⟨m, hm, hq⟩ := List.mem_flatMap.1 hq
    refine values (fun c hc => ?_) q hq
    exact isBelow_of_grandchild (mem_children_of_members hm) (mem_children_of_part hc)
  have hparam : n.LeadsAll (asPatterns (binding .catchClause n) (n.part .param)) :=
    patterns (silent_binding (by decide) n) fun _ hm => isBelow_of_child (mem_children_of_part hm)
  unfold valueVisits
  split
  case h_1 | h_2 | h_3 => exact members n .body
  case h_4 => exact declaration n false
  case h_5 | h_6 | h_7 => exact fun _ h => (List.not_mem_nil h).elim
  case h_8 => exact part n .declaration
  case h_9 | h_10 | h_11 => exact function n
  case h_12 | h_13 => exact (part n .superClass).append hbody
  case h_14 | h_15 | h_16 => exact (computed n .key).append (part n .value)
  case h_17 => exact henum
  case h_18 => exact part n .body
  case h_19 =>
    exact (((part n .init).append (part n .test)).append (part n .update)).append (part n .body)
  case h_20 | h_21 => exact forEach n
  case h_22 => exact hparam.append (part n .body)
  case h_23 => exact assignment n
  case h_24 => exact target n .argument
  case h_25 => exact (part n .object).append (computed n .property)
  case h_26 | h_27 | h_28 | h_29 => exact pattern n (silent_assigned none)
  case h_30 => exact values fun _ hm => isBelow_of_child hm

end LeadsAll

/-- **A visit leads further inside**, and declares variables only in the patterns of declarators. -/
lemma leadsAll_visits (n : Node) {v : View} (hv : ∀ onName, v ≠ .pattern onName) :
    n.LeadsAll (n.visits v) := by
  cases v with
  | value => exact .value n
  | head => exact .declaration n true
  | pattern onName => exact absurd rfl (hv onName)

/-- A pattern leads to the same nodes, whatever is done with its names. -/
lemma map_patternVisits (n : Node) (onName onName' : Node → String → List Event) :
    (n.patternVisits onName).map Prod.snd = (n.patternVisits onName').map Prod.snd := by
  have hpatterns (ms : List Node) :
      (asPatterns onName ms).map Prod.snd = (asPatterns onName' ms).map Prod.snd := by
    simp [asPatterns]
  have hmember (m : Node) :
      (memberVisits onName m).map Prod.snd = (memberVisits onName' m).map Prod.snd := by
    unfold memberVisits
    split
    · rw [List.map_append, List.map_append, hpatterns]
    · exact hpatterns [m]
  unfold patternVisits
  split
  · rw [List.map_flatMap, List.map_flatMap, funext hmember]
  · exact hpatterns _
  · rw [List.map_append, List.map_append, hpatterns]
  · exact hpatterns _
  · rfl

lemma isBelow_of_mem_visits {v w : View} (h : (w, m) ∈ n.visits v) : n.IsBelow m := by
  cases v with
  | value => exact (LeadsAll.value n (w, m) h).below
  | head => exact (LeadsAll.declaration n true (w, m) h).below
  | pattern onName =>
    rw [visits] at h
    split at h
    · have hsnd := List.mem_map_of_mem (f := Prod.snd) h
      rw [map_patternVisits n onName (assigned none)] at hsnd
      obtain ⟨q, hq, rfl⟩ := List.mem_map.1 hsnd
      exact (LeadsAll.pattern n (silent_assigned none) q hq).below
    · exact (LeadsAll.value n (w, m) h).below

variable {sourceType : String} {globals : List String} {root n : Node} {v : View} {es : List Event}

lemma ComesTo.contains (h : root.ComesTo v n) : root.Contains n := by
  induction h with
  | root => exact .refl root
  | next visit _ ih =>
    obtain ⟨c, hc, hm⟩ := isBelow_of_mem_visits visit
    exact ih.trans ((Tree.contains_child hc).trans hm)

/-- **The events of every visit are a piece of the events of the program**, of which those of the
program itself may be left out at both ends. -/
lemma ComesTo.exists_piece (h : root.ComesTo v n)
    (hes : Woven sourceType globals (root.visits .value) es) :
    (v = .value ∧ n = root) ∨ ∃ before own after,
      es = before ++ own ++ after ∧ v.run sourceType globals n = .ok own := by
  induction h with
  | root => exact .inl ⟨rfl, rfl⟩
  | next visit _ ih =>
    refine .inr ?_
    rcases ih with ⟨rfl, rfl⟩ | ⟨before, own, after, rfl, hrun⟩
    · exact hes.exists_piece visit
    · obtain ⟨before', own', after', rfl, hrun'⟩ :=
        (woven_run (kind_of_mem_visits visit) own hrun).exists_piece visit
      exact ⟨before ++ before', own', after' ++ after, by simp only [List.append_assoc], hrun'⟩

end Node

end RefFlow
