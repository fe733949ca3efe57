import RefFlow.Proofs.Tree.Exposed
import RefFlow.Proofs.Tree.Parts
import RefFlow.Scope.Event

/-!
# The events of a program are well nested

`Node.events` lists what happens in a program, scope by scope.  Whatever the program looks like,
this list is properly nested: every scope that is entered is left again, the scopes entered in
between belong to nodes inside its block, and the identifiers that are defined or mentioned in
between stand inside the block as well.  `Event.Nested` says this of a list of events and the node
that they belong to, and `nested_events` proves it of all programs that can be analysed.

The traversal that lists the events visits patterns, declarations, imports and loops by rules of
their own, so it has to be shown as well that it visits nothing twice.  `Event.Visits` keeps account
of that: it says in addition from which nodes the events come, where each node of the account stands
for one visit.  A node can be replaced in the account by what it exposes, and never comes back.

The events are computed from the leaves upward, by a rule that sees a node and what the nodes below
contribute.  A tree of contributions is `Sound` if every contribution in it comes from one visit to
its own node.  The proof takes the rule apart along its definition: for each construct of the
language there is a lemma that a construct whose parts are sound is visited once, and
`sound_contributions` puts them together by induction over the tree.
-/

namespace RefFlow

/-- The part holds a name that the construct binds: its own one, or that of what it imports. -/
def Kind.binds : Kind → Field → Bool
  | _, .localName => true
  | .functionDeclaration, .id | .functionExpression, .id | .classDeclaration, .id
  | .classExpression, .id | .tsEnumDeclaration, .id | .tsModuleDeclaration, .id => true
  | _, _ => false

namespace Event

open Fallible

/-! ## Nested lists of events -/

/-- The events belong to the node: they define and mention only identifiers inside it, every scope
entered is left, and a scope's own events belong to its block.  Only programs open a global
scope. -/
inductive Nested : Node → List Event → Prop
  | nil {n : Node} : Nested n []
  | append {n : Node} {es fs : List Event} : Nested n es → Nested n fs → Nested n (es ++ fs)
  | hoist {n : Node} : Nested n [.hoist]
  | declare {n : Node} {name : String} : Nested n [.declare name]
  | define {n : Node} {hoisted : Bool} {d : Definition} (inside : n.Contains d.identifier)
      (named : d.identifier.text? .name = .ok (some d.name)) : Nested n [.define hoisted d]
  | mention {n : Node} {o : Occurrence} (inside : n.Contains o.identifier)
      (isIdentifier : o.identifier.kind = .identifier)
      (named : o.identifier.text? .name = .ok (some o.name)) : Nested n [.mention o]
  | within {n block : Node} {kind : ScopeKind} {es : List Event} (inside : n.Contains block)
      (isProgram : kind = .global → block.kind = .program ∧ ¬block.shape.IsGeneric) :
      Nested block es → Nested n (within kind block es)

/-- The node is an identifier, or stands inside the first node where a construct has a name that it
binds. -/
def IsName (n m : Node) : Prop :=
  m.kind = .identifier ∨
    ∃ c f, n.Contains c ∧ c.kind.binds f = true ∧ c.child f = .ok (some m)

/-- The events belong to the node, and come from visits to the given nodes: no identifier is defined
twice or mentioned twice by one visit, and a visit to a node consists of visits to what the node
exposes.  The events of a scope come from visits to nodes right below its block. -/
inductive Visits : Node → List Node → List Event → Prop
  | nil {n : Node} : Visits n [] []
  | append {n : Node} {ns ms : List Node} {es fs : List Event} : Visits n ns es → Visits n ms fs →
      Visits n (ns ++ ms) (es ++ fs)
  | leaving {n : Node} {ns ms : List Node} {es : List Event} (rest : ms.Subperm ns) :
      Visits n ms es → Visits n ns es
  | opening {n c : Node} {ns : List Node} {es : List Event} : Visits n (c.exposed ++ ns) es →
      Visits n (c :: ns) es
  | inside {n m : Node} {ns : List Node} {es : List Event} (inside : n.Contains m) :
      Visits m ns es → Visits n ns es
  | hoist {n : Node} : Visits n [] [.hoist]
  | declare {n : Node} {name : String} : Visits n [] [.declare name]
  | define {n : Node} {hoisted : Bool} {d : Definition} (inside : n.Contains d.identifier)
      (isName : IsName n d.identifier)
      (named : d.identifier.text? .name = .ok (some d.name)) :
      Visits n [d.identifier] [.define hoisted d]
  | mention {n : Node} {o : Occurrence} (inside : n.Contains o.identifier)
      (isIdentifier : o.identifier.kind = .identifier)
      (named : o.identifier.text? .name = .ok (some o.name)) :
      Visits n [o.identifier] [.mention o]
  | initialise {n : Node} {hoisted : Bool} {d : Definition} {o : Occurrence}
      (same : o.identifier = d.identifier) (sameName : o.name = d.name)
      (inside : n.Contains d.identifier) (isIdentifier : d.identifier.kind = .identifier)
      (named : d.identifier.text? .name = .ok (some d.name)) :
      Visits n [d.identifier] [.define hoisted d, .mention o]
  | within {n : Node} {kind : ScopeKind} {ns : List Node} {es : List Event}
      (isProgram : kind = .global → n.kind = .program ∧ ¬n.shape.IsGeneric)
      (below : ∀ m ∈ ns, m ∈ n.children) : Visits n ns es → Visits n ns (within kind n es)

lemma Nested.mono {n m : Node} {es : List Event} (h : Nested m es) (hn : n.Contains m) :
    Nested n es := by
  induction h with
  | nil => exact .nil
  | append _ _ ih ih' => exact .append (ih hn) (ih' hn)
  | hoist => exact .hoist
  | declare => exact .declare
  | define inside named => exact .define (hn.trans inside) named
  | mention inside isIdentifier named => exact .mention (hn.trans inside) isIdentifier named
  | within inside isProgram h _ => exact .within (hn.trans inside) isProgram h

lemma Nested.withinIf {n : Node} {es : List Event} (h : Nested n es) (b : Bool) {kind : ScopeKind}
    (hkind : kind ≠ .global) : Nested n (withinIf b kind n es) := by
  unfold Event.withinIf
  split
  · exact .within (.refl n) (fun hk => absurd hk hkind) h
  · exact h

/-- Leaving the account aside, what comes from visits is nested. -/
lemma Visits.nested {n : Node} {ns : List Node} {es : List Event} (h : Visits n ns es) :
    Nested n es := by
  induction h with
  | nil => exact .nil
  | append _ _ ih ih' => exact .append ih ih'
  | leaving _ _ ih => exact ih
  | opening _ ih => exact ih
  | inside hm _ ih => exact ih.mono hm
  | hoist => exact .hoist
  | declare => exact .declare
  | define inside _ named => exact .define inside named
  | mention inside isIdentifier named => exact .mention inside isIdentifier named
  | @initialise n hoisted d o same sameName inside isIdentifier named =>
    have hmention : Nested n [.mention o] :=
      .mention (same ▸ inside) (same ▸ isIdentifier) (by rw [same, sameName]; exact named)
    have hdefine : Nested n [.define hoisted d] := .define inside named
    exact hdefine.append hmention
  | within isProgram _ _ ih => exact .within (.refl _) isProgram ih

/-! ## Visits to parts -/

namespace Visits

variable {n : Node} {ns : List Node} {es : List Event}

lemma none : Visits n ns [] := .leaving List.nil_subperm .nil

/-- What comes from visits to some of what the node exposes comes from a visit to the node. -/
lemma close (h : Visits n ns es) (hns : ns.Subperm n.exposed) : Visits n [n] es := by
  apply Visits.opening
  rw [List.append_nil]
  exact h.leaving hns

/-- Each node of the account may stand for what it exposes. -/
lemma openingAll {ms : List Node} (h : Visits n (ns ++ ms.flatMap Tree.exposed) es) :
    Visits n (ns ++ ms) es := by
  induction ms generalizing ns with
  | nil => exact h
  | cons m ms ih =>
    have hfirst : (ns ++ (m :: ms).flatMap Tree.exposed).Perm
        (m.exposed ++ (ns ++ ms.flatMap Tree.exposed)) := by
      rw [List.flatMap_cons, ← List.append_assoc, ← List.append_assoc]
      exact List.perm_append_comm.append_right _
    have hopened : Visits n (m :: (ns ++ ms.flatMap Tree.exposed)) es :=
      .opening (h.leaving hfirst.subperm)
    have hlast : (m :: (ns ++ ms.flatMap Tree.exposed)).Perm
        (ns ++ [m] ++ ms.flatMap Tree.exposed) := by
      rw [List.append_assoc]
      exact List.perm_middle.symm
    have hrest := ih (hopened.leaving hlast.subperm)
    rwa [List.append_assoc] at hrest

end Visits

/-- The events come from visits to the nodes in the given parts of the node. -/
def VisitsParts (n : Node) (fs : List Field) (es : List Event) : Prop :=
  Visits n (fs.flatMap n.shape.below) es

namespace VisitsParts

variable {n : Node} {fs gs : List Field} {es es' : List Event}

lemma none : VisitsParts n fs [] := Visits.none

lemma append (h : VisitsParts n fs es) (h' : VisitsParts n gs es') :
    VisitsParts n (fs ++ gs) (es ++ es') := by
  unfold VisitsParts
  rw [List.flatMap_append]
  exact Visits.append h h'

lemma within (h : VisitsParts n fs es) (kind : ScopeKind)
    (isProgram : kind = .global → n.kind = .program ∧ ¬n.shape.IsGeneric) :
    VisitsParts n fs (within kind n es) := by
  refine Visits.within isProgram (fun m hm => ?_) h
  obtain ⟨f, -, hm⟩ := List.mem_flatMap.1 hm
  exact Node.mem_children_of_mem_below hm

lemma withinIf (h : VisitsParts n fs es) (b : Bool) (kind : ScopeKind) (hkind : kind ≠ .global) :
    VisitsParts n fs (withinIf b kind n es) := by
  unfold Event.withinIf
  split
  · exact h.within kind fun hk => absurd hk hkind
  · exact h

/-- What comes from visits to different parts, none of them hidden, comes from a visit to the
node. -/
lemma close (h : VisitsParts n fs es) (hfs : fs.Nodup) (hides : ∀ f ∈ fs, n.shape.hides f = false) :
    Visits n [n] es := by
  refine Visits.close h ?_
  exact (Shape.below_flatMap_subperm_visible hfs hides).trans
    (List.sublist_append_left _ _).subperm

/-- `close` for parts that are never hidden. -/
lemma closePlain (h : VisitsParts n fs es)
    (hfs : fs.Nodup ∧ ∀ f ∈ fs, f ∉ [Field.property, .key, .specifiers]) : Visits n [n] es :=
  h.close hfs.1 fun f hf => Shape.hides_of_field (hfs.2 f hf)

end VisitsParts

/-! ## What a pattern does with its identifiers -/

/-- Whatever is done with an identifier that a pattern binds comes from one visit to it. -/
def Visiting (onName : Node → String → List Event) : Prop :=
  ∀ m name, m.kind = .identifier → m.text? .name = .ok (some name) → Visits m [m] (onName m name)

lemma visiting_binding (kind : DefinitionKind) (node : Node) : Visiting (binding kind node) :=
  fun m name isIdentifier named =>
    .define (d := { kind := kind, identifier := m, name := name, node := node }) (.refl m)
      (.inl isIdentifier) named

lemma visiting_assigned (written : Option Node) : Visiting (assigned written) :=
  fun m name isIdentifier named =>
    .mention (o := { identifier := m, name := name, access := .write, written := written })
      (.refl m) isIdentifier named

lemma visiting_declared (hoisted inLoop : Bool) (declaration declarator : Node)
    (keyword : Option String) (init : Option Node) :
    Visiting (declared hoisted inLoop declaration declarator keyword init) := by
  intro m name isIdentifier named
  let d : Definition :=
    { kind := .variable, identifier := m, name := name, node := declarator
      declaration := some declaration, keyword := keyword }
  unfold declared
  split
  · exact .initialise (d := d) rfl rfl (.refl m) isIdentifier named
  · exact .define (d := d) (.refl m) (.inl isIdentifier) named

/-! ## Sound contributions -/

/-- The contribution at the root of a tree comes from one visit to its own node. -/
structure Sound (v : Visited) : Prop where
  shape : v.label.node.shape = v.shape.map (·.label.node)
  visit : Gives v.label.visit (Visits v.label.node [v.label.node])
  bind : ∀ onName, Visiting onName →
    Gives (v.label.bind onName) (Visits v.label.node [v.label.node])

/-- The tree of contributions stands inside a node, and is sound throughout. -/
def Inside (n : Node) (v : Visited) : Prop :=
  n.Contains v.label.node ∧ ∀ w, v.Contains w → Sound w

/-- The construct has the parts of the node, and all of them are sound throughout. -/
structure Parts (n : Node) (s : Shape Visited) : Prop where
  shape : n.shape = s.map (·.label.node)
  inside : ∀ c ∈ s.children, Inside n c

/-- The node of an optional contribution. -/
def nodeOf (t : Option Visited) : List Node := t.toList.map (·.label.node)

/-- What a node has in one of its parts. -/
structure StandsIn (n : Node) (f : Field) (t : Option Visited) : Prop where
  inside : ∀ v ∈ t, Inside n v
  child : n.child f = .ok (t.map (·.label.node))

/-- What a node has in one of its parts, where this is a list. -/
structure ListedIn (n : Node) (f : Field) (ts : List (Option Visited)) : Prop where
  inside : ∀ t ∈ ts, ∀ v ∈ t, Inside n v
  below : n.shape.below f = ts.flatMap nodeOf

namespace Inside

variable {n : Node} {v : Visited}

lemma sound (h : Inside n v) : Sound v := h.2 v (.refl v)

lemma parts (h : Inside n v) : Parts v.label.node v.shape := by
  refine ⟨h.sound.shape, fun c hc => ⟨Tree.contains_child ?_, fun w hw => ?_⟩⟩
  · rw [Tree.children, h.sound.shape, Shape.children_map]
    exact List.mem_map_of_mem hc
  · exact h.2 w ((Tree.contains_child hc).trans hw)

lemma gives_visit (h : Inside n v) : Gives v.label.visit (Visits n [v.label.node]) :=
  h.sound.visit.mono fun _ hes => hes.inside h.1

lemma gives_bind (h : Inside n v) {onName : Node → String → List Event} (ho : Visiting onName) :
    Gives (v.label.bind onName) (Visits n [v.label.node]) :=
  (h.sound.bind onName ho).mono fun _ hes => hes.inside h.1

end Inside

namespace Parts

variable {n : Node} {s : Shape Visited} (h : Parts n s)

include h

lemma kind : n.kind = s.kind := by
  rw [Tree.kind, h.shape]
  rfl

lemma gives_nameOf : Gives (nameOf s) fun name => n.text? .name = .ok (some name) := by
  intro name hname
  obtain ⟨t, ht, hname⟩ := bind_ok_iff.1 hname
  rw [Tree.text?, h.shape, Shape.text?_map]
  cases t with
  | none => exact absurd hname throw_ne_ok
  | some t => exact pure_ok_iff.1 hname ▸ ht

lemma gives_flag (f : Field) : Gives (s.flag f) fun b => n.shape.flag f = .ok b := by
  intro b hb
  rw [h.shape, Shape.flag_map]
  exact hb

lemma gives_child (f : Field) : Gives (s.child f) (StandsIn n f) := by
  intro t ht
  refine ⟨?_, ?_⟩
  · rintro v rfl
    exact h.inside v (Shape.mem_children_of_child ht)
  · rw [Tree.child, h.shape, Shape.child_map, ht]
    rfl

lemma gives_items (f : Field) : Gives (s.items f) (ListedIn n f) := by
  intro ts hts
  refine ⟨?_, ?_⟩
  · rintro t ht v rfl
    exact h.inside v (Shape.mem_children_of_items hts ht)
  · rw [h.shape, Shape.below_map, Shape.below_of_items hts, List.filterMap_eq_flatMap_toList,
      List.map_flatMap]
    rfl

end Parts

/-! ## Parts of a node -/

section

variable {n : Node}

lemma gives_true {α : Type} (x : Except Fault α) : Gives x fun _ => True := fun _ _ => trivial

lemma gives_ofOption {t : Option Visited} (h : ∀ v ∈ t, Inside n v) :
    Gives (ofOption t) (Visits n (nodeOf t)) := by
  cases t with
  | none => exact gives_ok .nil
  | some v => exact (h v rfl).gives_visit

lemma gives_ofPattern {t : Option Visited} (h : ∀ v ∈ t, Inside n v)
    {onName : Node → String → List Event} (ho : Visiting onName) :
    Gives (ofPattern onName t) (Visits n (nodeOf t)) := by
  cases t with
  | none => exact gives_ok .nil
  | some v => exact (h v rfl).gives_bind ho

lemma gives_present {t : Option Visited} (h : ∀ v ∈ t, Inside n v) :
    Gives (present t) fun v => Inside n v ∧ nodeOf t = [v.label.node] := by
  cases t with
  | none => exact fun _ h => by cases h
  | some v => exact gives_ok ⟨h v rfl, rfl⟩

/-- What is done for each member of a list, one after the other. -/
lemma gives_mapM_flatten {α : Type} {f : α → Except Fault (List Event)} {g : α → List Node}
    {as : List α} (h : ∀ a ∈ as, Gives (f a) (Visits n (g a))) :
    Gives (as.mapM f) fun ess => Visits n (as.flatMap g) ess.flatten := by
  intro ess hess
  rw [mapM_ok_iff] at hess
  induction hess with
  | nil => exact .nil
  | cons hes _ ih =>
    rw [List.flatMap_cons, List.flatten_cons]
    exact .append (h _ List.mem_cons_self _ hes) (ih fun a ha => h a (List.mem_cons_of_mem _ ha))

lemma gives_flatten {α : Type} {f : α → Except Fault (List Event)} {g : α → List Node}
    {as : List α} (h : ∀ a ∈ as, Gives (f a) (Visits n (g a))) :
    Gives (do return (← as.mapM f).flatten) (Visits n (as.flatMap g)) :=
  (gives_mapM_flatten h).bind fun _ hes => gives_pure hes

lemma StandsIn.visitsParts {f : Field} {t : Option Visited} (h : StandsIn n f t) {es : List Event}
    (hes : Visits n (nodeOf t) es) : VisitsParts n [f] es := by
  unfold VisitsParts
  rw [List.flatMap_singleton]
  refine hes.leaving ?_
  have hsub := Shape.below_of_child h.child
  rw [Option.toList_map] at hsub
  exact hsub.subperm

lemma ListedIn.visitsParts {f : Field} {ts : List (Option Visited)} (h : ListedIn n f ts)
    {es : List Event} (hes : Visits n (ts.flatMap nodeOf) es) : VisitsParts n [f] es := by
  unfold VisitsParts
  rw [List.flatMap_singleton, h.below]
  exact hes

lemma gives_ofItems {f : Field} {ts : List (Option Visited)} (h : ListedIn n f ts) :
    Gives (ofItems ts) (VisitsParts n [f]) :=
  (gives_flatten fun t ht => gives_ofOption (h.inside t ht)).mono fun _ hes => h.visitsParts hes

lemma gives_patternIn {f : Field} {t : Option Visited} (h : StandsIn n f t)
    {onName : Node → String → List Event} (ho : Visiting onName) :
    Gives (ofPattern onName t) (VisitsParts n [f]) :=
  (gives_ofPattern h.inside ho).mono fun _ hes => h.visitsParts hes

lemma gives_optionIn {f : Field} {t : Option Visited} (h : StandsIn n f t) :
    Gives (ofOption t) (VisitsParts n [f]) :=
  (gives_ofOption h.inside).mono fun _ hes => h.visitsParts hes

/-- What stands where a construct has a name that it binds. -/
lemma StandsIn.isName {f : Field} {t : Visited} (h : StandsIn n f (some t))
    (hbinds : n.kind.binds f = true) : IsName n t.label.node :=
  .inr ⟨n, f, .refl n, hbinds, h.child⟩

lemma gives_definition {t : Visited} (h : Inside n t) (isName : IsName n t.label.node)
    (kind : DefinitionKind) (node : Node) (declaration : Option Node) :
    Gives (definition kind node declaration t) (Visits n [t.label.node]) := by
  refine h.parts.gives_nameOf.bind fun name named => gives_pure ?_
  exact .define (d := { kind := kind, identifier := t.label.node, name := name, node := node
                        declaration := declaration })
    h.1 isName named

lemma gives_mentioned {t : Visited} (h : Inside n t) (ht : isIdentifier t = true)
    (access : Access) (written : Option Node) :
    Gives (mentioned access written t) (Visits n [t.label.node]) := by
  refine h.parts.gives_nameOf.bind fun name named => gives_pure ?_
  exact .mention (o := { identifier := t.label.node, name := name, access := access
                         written := written })
    h.1 (h.parts.kind.trans (eq_of_beq ht)) named

end

namespace Parts

variable {n : Node} {s : Shape Visited} (h : Parts n s)

include h

lemma gives_ofPart (f : Field) : Gives (ofPart s f) (VisitsParts n [f]) :=
  (h.gives_child f).bind fun _ ht => gives_optionIn ht

lemma gives_ofChildren : Gives (ofChildren s) (Visits n n.children) := by
  have hchildren : n.children = s.children.flatMap fun c => [c.label.node] := by
    rw [Tree.children, h.shape, Shape.children_map, ← List.map_eq_flatMap]
  rw [hchildren]
  exact gives_flatten fun c hc => (h.inside c hc).gives_visit

lemma gives_definitionAt {f : Field} (hbinds : n.kind.binds f = true) (kind : DefinitionKind)
    (node : Node) : Gives (definitionAt kind node s f) (VisitsParts n [f]) := by
  refine (h.gives_child f).bind fun t ht => ?_
  cases t with
  | none => exact gives_pure .none
  | some t =>
    exact (gives_definition (ht.inside t rfl) (ht.isName hbinds) kind node none).mono
      fun es hes => ht.visitsParts hes

/-- The own name of a construct is defined inside it if the construct is of a certain kind. -/
lemma gives_ownName {k : Kind} (hk : k.binds .id = true) (kind : DefinitionKind)
    {cont : List Event → Except Fault (List Event)} {P : List Event → Prop}
    (hcont : ∀ es, VisitsParts n (if s.kind == k then [.id] else []) es → Gives (cont es) P) :
    Gives (if s.kind == k then definitionAt kind n s .id >>= cont else pure [] >>= cont) P := by
  split
  · rename_i hs
    have hbinds : n.kind.binds .id = true := by
      rw [h.kind, eq_of_beq hs]
      exact hk
    rw [if_pos hs] at hcont
    exact (h.gives_definitionAt hbinds kind n).bind hcont
  · rename_i hs
    exact (gives_pure .none).bind hcont

/-- A name that counts only if it is computed, and what counts beside it. -/
lemma gives_computed {f : Field} (hf : f = .key ∨ f = .property)
    {cont : List Event → Except Fault (List Event)} {g : Field} (hg : g = .value ∨ g = .object)
    (hcont : ∀ fs es, VisitsParts n fs es →
      Gives (cont es) fun es' => ∃ gs, gs.Perm (g :: fs) ∧ VisitsParts n gs es') :
    Gives (do if ← s.flag .computed then ofPart s f >>= cont else pure [] >>= cont)
      (Visits n [n]) := by
  have hplain : n.shape.hides g = false := by
    rcases hg with rfl | rfl <;> exact Shape.hides_of_field (by decide)
  refine (h.gives_flag .computed).bind fun computed hcomputed => ?_
  split
  · rename_i hc
    rw [hc] at hcomputed
    refine (h.gives_ofPart f).bind fun es hes => (hcont [f] es hes).mono ?_
    rintro es' ⟨gs, hperm, hgs⟩
    refine hgs.close (hperm.nodup_iff.2 ?_) fun f' hf' => ?_
    · rcases hf with rfl | rfl <;> rcases hg with rfl | rfl <;> decide
    · rcases List.mem_cons.1 (hperm.subset hf') with rfl | hf'
      · exact hplain
      · obtain rfl := List.mem_singleton.1 hf'
        exact Shape.hides_of_computed hcomputed (by rcases hf with rfl | rfl <;> decide)
  · refine (gives_pure .none).bind fun es hes => (hcont [] es hes).mono ?_
    rintro es' ⟨gs, hperm, hgs⟩
    rw [List.perm_singleton.1 hperm] at hgs
    exact hgs.close (List.nodup_singleton g) (List.forall_mem_singleton.2 hplain)

end Parts

/-! ## Constructs

One lemma for each rule: if all parts of the construct are sound, its events come from a visit to
it, or from visits to the parts that the rule looks at. -/

namespace Parts

variable {n : Node} {s : Shape Visited} (h : Parts n s)

include h

/-! ### Patterns and declarations -/

omit h in
lemma gives_ofPatternMember {t : Visited} (ht : Inside n t)
    {onName : Node → String → List Event} (ho : Visiting onName) :
    Gives (ofPatternMember onName t) (Visits n [t.label.node]) := by
  unfold ofPatternMember
  split
  · refine Gives.mono ?_ fun es (hes : Visits t.label.node _ es) => hes.inside ht.1
    refine ht.parts.gives_computed (.inl rfl) (.inl rfl) fun fs key hkey => ?_
    refine (ht.parts.gives_child .value).bind fun value hvalue => ?_
    exact (gives_patternIn hvalue ho).bind fun es hes =>
      gives_pure ⟨_, List.perm_append_singleton _ _, hkey.append hes⟩
  · exact ht.gives_bind ho

lemma gives_bindRule {visit : Except Fault (List Event)} (hvisit : Gives visit (Visits n [n]))
    {onName : Node → String → List Event} (ho : Visiting onName) :
    Gives (bindRule n s visit onName) (Visits n [n]) := by
  unfold bindRule
  split
  · rename_i hk
    exact h.gives_nameOf.bind fun name named => gives_pure (ho n name (h.kind.trans hk) named)
  · refine (h.gives_items .properties).bind fun ts hts => ?_
    refine Gives.mono ?_ fun es hes => (hts.visitsParts hes).closePlain (by decide)
    refine gives_flatten fun t ht => (gives_present (hts.inside t ht)).bind fun v hv => ?_
    rw [hv.2]
    exact gives_ofPatternMember hv.1 ho
  · refine (h.gives_items .elements).bind fun ts hts => ?_
    exact (gives_flatten fun t ht => gives_ofPattern (hts.inside t ht) ho).mono
      fun es hes => (hts.visitsParts hes).closePlain (by decide)
  · refine (h.gives_child .left).bind fun t ht => ?_
    refine (gives_patternIn ht ho).bind fun left hleft => ?_
    exact (h.gives_ofPart .right).bind fun right hright =>
      gives_pure ((hleft.append hright).closePlain (by decide))
  · exact (h.gives_child .argument).bind fun t ht =>
      (gives_patternIn ht ho).mono fun es hes => hes.closePlain (by decide)
  · exact hvisit

omit h in
/-- What a declarator binds, and then its initial value. -/
lemma gives_declarator {v : Visited} (hv : Inside n v)
    {onName : Option Visited → Node → String → List Event} (ho : ∀ init, Visiting (onName init)) :
    Gives (do
      let init ← v.child .init
      let names ← ofPattern (onName init) (← v.child .id)
      return names ++ (← ofOption init)) (Visits n [v.label.node]) := by
  refine Gives.mono ?_ fun es (hes : Visits v.label.node _ es) => hes.inside hv.1
  refine (hv.parts.gives_child .init).bind fun init hinit => ?_
  refine (hv.parts.gives_child .id).bind fun id hid => ?_
  refine (gives_patternIn hid (ho init)).bind fun names hnames => ?_
  exact (gives_optionIn hinit).bind fun value hvalue =>
    gives_pure ((hnames.append hvalue).closePlain (by decide))

lemma gives_ofDeclaration (inLoop : Bool) (node : Node) :
    Gives (ofDeclaration inLoop node s) (Visits n [n]) := by
  refine (gives_true _).bind fun keyword _ => (gives_true _).bind fun hoisted _ => ?_
  refine (h.gives_items .declarations).bind fun ts hts => ?_
  refine Gives.bind (P := fun ess => VisitsParts n [.declarations] ess.flatten) ?_ ?_
  · refine Gives.mono ?_ fun ess hess => hts.visitsParts hess
    refine gives_mapM_flatten fun t ht => (gives_present (hts.inside t ht)).bind fun v hv => ?_
    rw [hv.2]
    exact gives_declarator hv.1 fun _ => visiting_declared _ _ _ _ _ _
  · intro ess hess
    have hhoist : VisitsParts n [] (if hoisted then [Event.hoist] else []) := by
      split
      · exact .hoist
      · exact .none
    exact gives_pure ((hhoist.append hess).closePlain (by decide))

/-- What is done with the local names of an import or export. -/
lemma gives_specifiers (hides : n.shape.hides .specifiers = true)
    {f : Visited → Except Fault (List Event)}
    (hf : ∀ v, Inside n v → Gives (f v) (VisitsParts v.label.node [.localName])) :
    Gives (do
      return (← (← s.items .specifiers).mapM fun item => do f (← present item)).flatten)
      (Visits n [n]) := by
  refine (h.gives_items .specifiers).bind fun ts hts => ?_
  have hexposed : ((ts.flatMap nodeOf).flatMap (·.shape.below .localName)).Subperm n.exposed := by
    rw [Tree.exposed, if_pos hides, hts.below]
    exact (List.sublist_append_right _ _).subperm
  rw [List.flatMap_assoc] at hexposed
  refine Gives.mono ?_ fun es hes => Visits.close hes hexposed
  refine gives_flatten fun t ht => (gives_present (hts.inside t ht)).bind fun v hv => ?_
  rw [hv.2]
  exact (hf v hv.1).mono fun es hes => Visits.inside hv.1.1 hes

lemma gives_ofImport (hkind : n.kind = .importDeclaration) (node : Node) :
    Gives (ofImport node s) (Visits n [n]) := by
  have hk : n.shape.kind = .importDeclaration := hkind
  refine h.gives_specifiers (by simp [Shape.hides, hk]) fun v hv => ?_
  refine (hv.parts.gives_child .localName).bind fun l hl => ?_
  cases l with
  | none => exact gives_throw
  | some l =>
    have hbinds : v.label.node.kind.binds .localName = true := by
      cases v.label.node.kind <;> rfl
    exact (gives_definition (hl.inside l rfl) (hl.isName hbinds) _ _ _).mono
      fun es hes => hl.visitsParts hes

lemma gives_ofExport (hkind : n.kind = .exportNamedDeclaration) :
    Gives (ofExport s) (Visits n [n]) := by
  have hk : n.shape.kind = .exportNamedDeclaration := hkind
  refine (h.gives_child .declaration).bind fun d hd => ?_
  cases d with
  | some d =>
    exact (gives_optionIn hd).mono fun es hes => hes.closePlain (by decide)
  | none =>
    refine (gives_true _).bind fun source _ => ?_
    cases source with
    | some source => exact gives_pure .none
    | none =>
      refine h.gives_specifiers (by simp [Shape.hides, hk]) fun v hv => ?_
      refine (hv.parts.gives_child .localName).bind fun l hl => ?_
      cases l with
      | none => exact gives_throw
      | some l =>
        dsimp only
        split
        · rename_i hi
          exact (gives_mentioned (hl.inside l rfl) hi _ _).mono fun es hes => hl.visitsParts hes
        · exact gives_pure .none

/-! ### Scopes -/

lemma gives_ofBlock {kind : ScopeKind} (hkind : kind ≠ .global) :
    Gives (ofBlock kind n s) (Visits n [n]) :=
  (h.gives_items .body).bind fun _ hts => (gives_ofItems hts).bind fun _ hes =>
    gives_pure ((hes.within kind fun hk => absurd hk hkind).closePlain (by decide))

lemma gives_ofProgram (hkind : n.kind = .program) (sourceType : String) (globals : List String) :
    Gives (ofProgram sourceType globals n s) (Visits n [n]) := by
  have hgeneric : Gives (s.items .body) fun _ => ¬n.shape.IsGeneric := by
    rintro ts hts ⟨us, hus⟩
    have hitems : n.items .body = .ok (ts.map (Option.map (·.label.node))) := by
      rw [Tree.items, h.shape, Shape.items_map, hts]
      rfl
    rw [Tree.items, Shape.items, Shape.slot, Shape.slot?, hus] at hitems
    cases hitems
  refine ((h.gives_items .body).and hgeneric).bind fun ts hts =>
    (gives_ofItems hts.1).bind fun body hbody => ?_
  have hglobals : VisitsParts n [] (globals.map .declare) := by
    induction globals with
    | nil => exact .none
    | cons name names ih =>
      have hname : Visits n [] [.declare name] := .declare
      exact hname.append ih
  have hmodule := hbody.withinIf (sourceType == "module") .module (by decide)
  have hall := (hglobals.append hmodule).within .global fun _ => ⟨hkind, hts.2⟩
  exact gives_pure (hall.closePlain (by decide))

lemma gives_ofFunction : Gives (ofFunction n s)
    (VisitsParts n
      ((if s.kind == .functionExpression then [.id] else []) ++ [.params, .body])) := by
  refine h.gives_ownName rfl _ fun own hown => ?_
  refine (h.gives_items .params).bind fun ts hts => ?_
  refine (gives_mapM_flatten fun t ht =>
    gives_ofPattern (hts.inside t ht) (visiting_binding _ _)).bind fun params hparams => ?_
  refine (h.gives_child .body).bind fun b hb => ?_
  have hreceiver : VisitsParts n []
      (if s.kind == .arrowFunctionExpression then [] else [.declare "arguments"]) := by
    split
    · exact .none
    · exact .declare
  have hall (body : List Event) (hbody : VisitsParts n [.body] body) :=
    (((hown.append hreceiver).append (hts.visitsParts hparams)).append hbody).within .function nofun
  rw [List.append_nil, List.append_assoc] at hall
  cases b with
  | none => exact (gives_pure .none).bind fun body hbody => gives_pure (hall body hbody)
  | some b =>
    dsimp only
    split
    · -- A block as the body opens no scope of its own, and its statements are visited directly.
      refine ((hb.inside b rfl).parts.gives_items .body).bind fun _ hts => ?_
      refine (gives_ofItems hts).bind fun body hbody => gives_pure (hall body (hb.visitsParts ?_))
      exact (hbody.closePlain (by decide)).inside (hb.inside b rfl).1
    · exact (gives_optionIn hb).bind fun body hbody => gives_pure (hall body hbody)

lemma gives_ofClass : Gives (ofClass n s)
    (VisitsParts n
      (.superClass :: ((if s.kind == .classExpression then [.id] else []) ++ [.body]))) := by
  refine (h.gives_ofPart .superClass).bind fun above habove => ?_
  refine h.gives_ownName rfl _ fun own hown => ?_
  refine (h.gives_child .body).bind fun b hb => ?_
  cases b with
  | none => exact gives_throw
  | some b =>
    refine ((hb.inside b rfl).parts.gives_items .body).bind fun ts hts => ?_
    refine (gives_ofItems hts).bind fun members hmembers => ?_
    have hbody : VisitsParts n [.body] members :=
      hb.visitsParts ((hmembers.closePlain (by decide)).inside (hb.inside b rfl).1)
    exact gives_pure (habove.append ((hown.append hbody).within .classBody nofun))

omit h in
lemma gives_members {f : Field} {ts : List (Option Visited)} (h : ListedIn n f ts) :
    Gives (ts.mapM present) fun ms =>
      (∀ m ∈ ms, Inside n m) ∧ n.shape.below f = ms.map (·.label.node) := by
  obtain ⟨hinside, hbelow⟩ := h
  intro ms hms
  rw [hbelow]
  rw [mapM_ok_iff] at hms
  clear hbelow
  induction hms with
  | nil => exact ⟨by simp, rfl⟩
  | @cons t m ts ms hm _ ih =>
    obtain ⟨hmembers, hnodes⟩ := ih fun t ht => hinside t (List.mem_cons_of_mem _ ht)
    obtain ⟨hmember, hnode⟩ := gives_present (hinside t List.mem_cons_self) m hm
    rw [List.flatMap_cons, hnode, hnodes]
    exact ⟨List.forall_mem_cons.2 ⟨hmember, hmembers⟩, rfl⟩

/-- The members of an enumeration are gone through twice, first for their names and then for their
values, but each part of each of them is visited once. -/
lemma gives_ofEnum (hkind : n.kind = .tsEnumDeclaration) : Gives (ofEnum n s) (Visits n [n]) := by
  refine (h.gives_definitionAt (by rw [hkind]; rfl) .enumName n).bind fun own hown => ?_
  refine (h.gives_items .members).bind fun ts hts => ?_
  refine (gives_members hts).bind fun members hmembers => ?_
  obtain ⟨hmembers, hbelow⟩ := hmembers
  refine Gives.bind (P := fun ess => Visits n
    (members.flatMap fun m => m.label.node.shape.below .id) ess.flatten) ?_ fun names hnames => ?_
  · refine gives_mapM_flatten fun m hm => ?_
    refine ((hmembers m hm).parts.gives_child .id).bind fun t ht => ?_
    cases t with
    | none => exact gives_pure .none
    | some t =>
      dsimp only
      split
      · rename_i hi
        have hkind := (ht.inside t rfl).parts.kind.trans (eq_of_beq hi)
        refine (gives_definition (ht.inside t rfl) (.inl hkind) _ _ _).mono fun es hes => ?_
        have hpart := Visits.inside (hmembers m hm).1 (ht.visitsParts hes)
        rwa [List.flatMap_singleton] at hpart
      · exact gives_pure .none
  refine Gives.bind (P := fun ess => Visits n
    (members.flatMap fun m => m.label.node.shape.below .initializer) ess.flatten) ?_
    fun values hvalues => ?_
  · refine gives_mapM_flatten fun m hm => ?_
    refine ((hmembers m hm).parts.gives_ofPart .initializer).mono fun es hes => ?_
    have hpart := Visits.inside (hmembers m hm).1 hes
    rwa [List.flatMap_singleton] at hpart
  have hexposed : ∀ m ∈ members, (m.label.node.shape.below .id ++
      m.label.node.shape.below .initializer).Subperm m.label.node.exposed := by
    intro m _
    have hsub := Shape.below_flatMap_subperm_visible (s := m.label.node.shape)
      (show [Field.id, .initializer].Nodup by decide)
      fun f hf => Shape.hides_of_field (by revert f; decide)
    simp only [List.flatMap_cons, List.flatMap_nil, List.append_nil] at hsub
    exact hsub.trans (List.sublist_append_left _ _).subperm
  have hboth : Visits n ([] ++ members.flatMap (·.label.node.exposed))
      (names.flatten ++ values.flatten) :=
    (hnames.append hvalues).leaving
      ((List.flatMap_append_perm members _ _).subperm.trans (subperm_flatMap_of_forall hexposed))
  rw [← List.flatMap_map] at hboth
  have hpart : VisitsParts n [.members] (names.flatten ++ values.flatten) := by
    unfold VisitsParts
    rw [List.flatMap_singleton, hbelow]
    exact hboth.openingAll
  exact gives_pure ((hown.append (hpart.within .enum nofun)).closePlain (by decide))

lemma gives_ofLoop : Gives (ofLoop n s) (Visits n [n]) := by
  refine (gives_true _).bind fun init _ => (gives_true _).bind fun lexical _ => ?_
  refine (h.gives_ofPart .init).bind fun init hinit => ?_
  refine (h.gives_ofPart .test).bind fun test htest => ?_
  refine (h.gives_ofPart .update).bind fun update hupdate => ?_
  refine (h.gives_ofPart .body).bind fun body hbody => ?_
  have hall := ((hinit.append htest).append hupdate).append hbody
  exact gives_pure ((hall.withinIf lexical .loop nofun).closePlain (by decide))

lemma gives_ofForEach : Gives (ofForEach n s) (Visits n [n]) := by
  refine (h.gives_child .right).bind fun right hright => ?_
  refine (gives_optionIn hright).bind fun value hvalue => ?_
  refine (h.gives_child .left).bind fun left hleft => ?_
  cases left with
  | none => exact gives_throw
  | some left =>
    have hl := hleft.inside left rfl
    refine (gives_true _).bind fun lexical _ => ?_
    refine .ite_bind
      (fun _ => (hl.parts.gives_ofDeclaration _ _).mono fun es hes => hes.inside hl.1)
      (fun _ => hl.gives_bind (visiting_assigned _)) fun target htarget => ?_
    refine (h.gives_ofPart .body).bind fun body hbody => ?_
    have hloop := ((hleft.visitsParts htarget).append hbody).withinIf lexical .loop nofun
    exact gives_pure ((hvalue.append hloop).closePlain (by decide))

lemma gives_ofHandler : Gives (ofHandler n s) (Visits n [n]) := by
  refine (h.gives_child .param).bind fun t ht => ?_
  refine (gives_patternIn ht (visiting_binding _ _)).bind fun param hparam => ?_
  refine (h.gives_ofPart .body).bind fun body hbody => ?_
  exact gives_pure (((hparam.append hbody).within .handler nofun).closePlain (by decide))

/-! ### Expressions -/

lemma gives_ofAssignment : Gives (ofAssignment s) (Visits n [n]) := by
  refine (h.gives_child .right).bind fun right hright => ?_
  refine (h.gives_child .left).bind fun left hleft => (gives_true _).bind fun operator _ => ?_
  have hall : ∀ target, VisitsParts n [.left] target →
      Gives (do return target ++ (← ofOption right)) (Visits n [n]) := fun target htarget =>
    (gives_optionIn hright).bind fun value hvalue =>
      gives_pure ((htarget.append hvalue).closePlain (by decide))
  dsimp only
  split
  · exact (gives_patternIn hleft (visiting_assigned _)).bind hall
  · cases left with
    | none => exact (gives_pure .none).bind hall
    | some l =>
      have hl := hleft.inside l rfl
      exact .ite_bind
        (fun hi => (gives_mentioned hl hi _ _).mono fun es hes => hleft.visitsParts hes)
        (fun _ => hl.gives_visit.mono fun es hes => hleft.visitsParts hes) hall

lemma gives_ofUpdate : Gives (ofUpdate s) (Visits n [n]) := by
  refine (h.gives_child .argument).bind fun t ht => ?_
  cases t with
  | none => exact gives_pure .none
  | some t =>
    refine Gives.mono ?_ fun es hes => (ht.visitsParts hes).closePlain (by decide)
    dsimp only
    split
    · rename_i hi
      exact gives_mentioned (ht.inside t rfl) hi _ _
    · exact (ht.inside t rfl).gives_visit

lemma gives_ofMember : Gives (ofMember s) (Visits n [n]) := by
  refine (h.gives_ofPart .object).bind fun object hobject => ?_
  exact h.gives_computed (.inr rfl) (.inr rfl) fun fs key hkey =>
    gives_pure ⟨_, .refl _, hobject.append hkey⟩

lemma gives_ofProperty : Gives (ofProperty s) (Visits n [n]) := by
  refine h.gives_computed (.inl rfl) (.inl rfl) fun fs key hkey => ?_
  exact (h.gives_ofPart .value).bind fun value hvalue =>
    gives_pure ⟨_, List.perm_append_singleton _ _, hkey.append hvalue⟩

end Parts

/-! ## All nodes -/

/-- Where nothing is hidden, visits to all nodes right below make up a visit to the node. -/
lemma Visits.closeChildren {n : Node} {es : List Event} (h : Visits n n.children es)
    (hk : n.kind ∉ [Kind.memberExpression, .property, .methodDefinition, .propertyDefinition,
      .importDeclaration, .exportNamedDeclaration]) : Visits n [n] es := by
  refine h.close ?_
  rw [Tree.exposed, Shape.visible_of_hides fun f => Shape.hides_of_kind hk]
  exact (List.sublist_append_left _ _).subperm

/-- **The events of a construct come from one visit to it**, if those of its parts come from one
visit to each of them. -/
lemma Parts.gives_visitRule {n : Node} {s : Shape Visited} (h : Parts n s) (sourceType : String)
    (globals : List String) : Gives (visitRule sourceType globals n s) (Visits n [n]) := by
  have hkind := h.kind
  have hpattern : Gives (bindRule n s (.ok []) (assigned none)) (Visits n [n]) :=
    h.gives_bindRule (gives_ok .none) (visiting_assigned none)
  unfold visitRule
  split
  · rename_i hk
    exact h.gives_ofProgram (hkind.trans hk) sourceType globals
  · exact h.gives_ofBlock nofun
  · exact h.gives_ofBlock nofun
  · rename_i hk
    refine h.gives_ofChildren.bind fun es hes => gives_pure (Visits.closeChildren ?_ ?_)
    · exact .within nofun (fun _ hm => hm) hes
    · rw [hkind, hk]
      decide
  · exact h.gives_ofDeclaration false n
  · rename_i hk
    exact h.gives_ofImport (hkind.trans hk) n
  · rename_i hk
    exact h.gives_ofExport (hkind.trans hk)
  · exact gives_ok .none
  · rename_i hk
    refine (h.gives_definitionAt (by rw [hkind, hk]; rfl) .functionName n).bind fun own hown =>
      h.gives_ofFunction.bind fun es hes => gives_pure ((hown.append hes).closePlain ?_)
    rw [hk]
    decide
  · rename_i hk
    refine h.gives_ofFunction.mono fun es hes => hes.closePlain ?_
    rw [hk]
    decide
  · rename_i hk
    refine h.gives_ofFunction.mono fun es hes => hes.closePlain ?_
    rw [hk]
    decide
  · rename_i hk
    refine (h.gives_definitionAt (by rw [hkind, hk]; rfl) .className n).bind fun own hown =>
      h.gives_ofClass.bind fun es hes => gives_pure ((hown.append hes).closePlain ?_)
    rw [hk]
    decide
  · rename_i hk
    refine h.gives_ofClass.mono fun es hes => hes.closePlain ?_
    rw [hk]
    decide
  · exact h.gives_ofProperty
  · exact h.gives_ofProperty
  · exact h.gives_ofProperty
  · rename_i hk
    exact h.gives_ofEnum (hkind.trans hk)
  · rename_i hk
    exact (h.gives_definitionAt (by rw [hkind, hk]; rfl) .namespaceName n).bind fun own hown =>
      (h.gives_ofPart .body).bind fun es hes =>
        gives_pure ((hown.append hes).closePlain (by decide))
  · exact h.gives_ofLoop
  · exact h.gives_ofForEach
  · exact h.gives_ofForEach
  · exact h.gives_ofHandler
  · rename_i hk
    refine h.gives_nameOf.bind fun name named => gives_pure ?_
    exact .mention (o := { identifier := n, name := name, access := .read }) (.refl n)
      (hkind.trans hk) named
  · exact h.gives_ofAssignment
  · exact h.gives_ofUpdate
  · exact h.gives_ofMember
  · exact hpattern
  · exact hpattern
  · exact hpattern
  · exact hpattern
  · refine h.gives_ofChildren.mono fun es hes => hes.closeChildren ?_
    rw [hkind]
    simp only [List.mem_cons, List.not_mem_nil, or_false, not_or]
    refine ⟨?_, ?_, ?_, ?_, ?_, ?_⟩ <;> assumption

section

variable (sourceType : String) (globals : List String)

@[simp] lemma node_contribution (n : Node) :
    (n.annotate (contribution sourceType globals)).label.node = n := by
  rw [Tree.label_annotate]
  rfl

/-- Every contribution in the tree of contributions comes from one visit to its own node. -/
lemma sound_contributions (n : Node) (w : Visited)
    (hw : (n.annotate (contribution sourceType globals)).Contains w) : Sound w := by
  induction n using Tree.induction generalizing w with
  | step n ih =>
    set v := n.annotate (contribution sourceType globals) with hv
    have hshape : v.shape = n.shape.map (Tree.annotate (contribution sourceType globals)) :=
      Tree.shape_annotate _ n
    have hnode : v.label.node = n := node_contribution sourceType globals n
    have hchild : ∀ c ∈ v.children, ∃ m ∈ n.children,
        m.annotate (contribution sourceType globals) = c := by
      intro c hc
      rw [Tree.children, hshape, Shape.children_map] at hc
      exact List.mem_map.1 hc
    rcases Tree.contains_iff.1 hw with rfl | ⟨c, hc, hw⟩
    · have hparts : Parts n v.shape := by
        refine ⟨?_, fun c hc => ?_⟩
        · have hinverse : Function.LeftInverse (fun v : Visited => v.label.node)
              (Tree.annotate (contribution sourceType globals)) :=
            node_contribution sourceType globals
          rw [hshape]
          exact (Shape.map_map_of_leftInverse hinverse _).symm
        · obtain ⟨m, hm, rfl⟩ := hchild c hc
          refine ⟨?_, fun w hw => ih m hm w hw⟩
          rw [node_contribution]
          exact Tree.contains_child hm
      have hlabel : v.label = contribution sourceType globals n v.shape := by
        rw [hshape]
        exact Tree.label_annotate _ n
      have hvisit : Gives v.label.visit (Visits n [n]) := by
        rw [hlabel]
        exact hparts.gives_visitRule sourceType globals
      refine ⟨by rw [hnode]; exact hparts.shape, ?_, ?_⟩
      · rw [hnode]
        exact hvisit
      · intro onName ho
        rw [hnode]
        rw [hlabel] at hvisit ⊢
        exact hparts.gives_bindRule hvisit ho
    · obtain ⟨m, hm, rfl⟩ := hchild c hc
      exact ih m hm w hw

/-- A node with the contributions of what is below it. -/
lemma parts_contribution (n : Node) :
    Parts n (n.shape.map (Tree.annotate (contribution sourceType globals))) := by
  have hinside : Inside n (n.annotate (contribution sourceType globals)) :=
    ⟨by rw [node_contribution], sound_contributions sourceType globals n⟩
  have hparts := hinside.parts
  rwa [node_contribution, Tree.shape_annotate] at hparts

end

/-- **Scope analysis visits a program once.** -/
lemma visits_events {sourceType : String} {globals : List String} {root : Node} {es : List Event}
    (h : root.events sourceType globals = .ok es) : Visits root [root] es := by
  have hs := sound_contributions sourceType globals root _ (.refl _)
  have hvisits := hs.visit es h
  rwa [node_contribution] at hvisits

/-- **The events of a program are well nested.** -/
lemma nested_events {sourceType : String} {globals : List String} {root : Node} {es : List Event}
    (h : root.events sourceType globals = .ok es) : Nested root es :=
  (visits_events h).nested

end Event

end RefFlow
