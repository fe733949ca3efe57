import RefFlow.Proofs.Convert.Conforming
import RefFlow.Proofs.Convert.Unshared
import RefFlow.Proofs.Scope.Definitions

/-!
# No identifier is met twice

Patterns, declarations, imports, exports, loops and functions are traversed each in its own way, so
it takes a proof that a traversal meets no identifier twice, and never takes a label for a use.
That a traversal keeps an account of its visits is shown in `Proofs/Scope/Nested`.  Here the account
is read.  Whatever sort of identifiers is picked out of the events, uses or definitions
(`Event.Picks`), what is picked is a piece of the nodes of the tree (`Visits.picked_subperm`), and
the traversal gets to it (`Visits.picked_reaches`).

For a tree that comes from the conversion, this gives `Graph.identifiers_met_once`.
-/

namespace RefFlow

open Fallible

/-- All definitions of a program. -/
def Graph.definitions (g : Graph) : List Definition :=
  g.scopes.flatMap fun s => s.declared.flatMap (·.definitions)

lemma Graph.definitions_eq (g : Graph) : g.definitions = g.held.flatten.map (·.2) := by
  simp [definitions, held, Scope.held, List.map_flatten, List.flatMap_def, Function.comp_def]

/-! ## Picking identifiers -/

namespace Event

/-- What an event mentions. -/
def mentions (e : Event) : List Node := e.uses.map (·.identifier)

/-- What an event gives a definition. -/
def introduces (e : Event) : List Node := e.defines.map (·.2.identifier)

/-- Identifiers are picked out of mentions only, or out of definitions only. -/
structure Picks (pick : Event → List Node) : Prop where
  enter : ∀ kind block, pick (.enter kind block) = []
  leave : pick .leave = []
  hoist : pick .hoist = []
  declare : ∀ name, pick (.declare name) = []
  define : ∀ hoisted d, (pick (.define hoisted d)).Sublist [d.identifier]
  mention : ∀ o, (pick (.mention o)).Sublist [o.identifier]
  one : ∀ hoisted d o, pick (.define hoisted d) = [] ∨ pick (.mention o) = []

lemma picks_mentions : Picks mentions where
  enter _ _ := rfl
  leave := rfl
  hoist := rfl
  declare _ := rfl
  define _ _ := List.nil_sublist _
  mention _ := .refl _
  one _ _ _ := .inl rfl

lemma picks_introduces : Picks introduces where
  enter _ _ := rfl
  leave := rfl
  hoist := rfl
  declare _ := rfl
  define _ _ := .refl _
  mention _ := List.nil_sublist _
  one _ _ _ := .inr rfl

variable {pick : Event → List Node} {n : Node} {ns : List Node} {es : List Event}

/-- Initialising a variable defines and mentions one identifier, of which only one is picked. -/
lemma Picks.initialise (hp : Picks pick) {hoisted : Bool} {d : Definition} {o : Occurrence}
    (same : o.identifier = d.identifier) :
    (pick (.define hoisted d) ++ pick (.mention o)).Sublist [d.identifier] := by
  rcases hp.one hoisted d o with hnone | hnone
  · rw [hnone, List.nil_append, ← same]
    exact hp.mention o
  · rw [hnone, List.append_nil]
    exact hp.define hoisted d

lemma Picks.within (hp : Picks pick) (kind : ScopeKind) (block : Node) (es : List Event) :
    (within kind block es).flatMap pick = es.flatMap pick := by
  simp [Event.within, hp.enter, hp.leave]

lemma subperm_nodes {x : Node} {xs : List Node} (h : xs.Sublist [x]) :
    xs.Subperm ([x].flatMap Node.nodes) := by
  rw [List.flatMap_singleton, Node.nodes_eq]
  exact (h.trans ((List.nil_sublist _).cons_cons x)).subperm

/-- What is picked out of the events that come from visits is a piece of what the visited trees
consist of, in which no node is met more often than in the trees. -/
lemma Visits.picked_subperm (hp : Picks pick) (h : Visits n ns es) :
    (es.flatMap pick).Subperm (ns.flatMap Node.nodes) := by
  induction h with
  | nil => exact .refl _
  | append _ _ ih ih' =>
    rw [List.flatMap_append, List.flatMap_append]
    exact ih.append ih'
  | leaving rest _ ih => exact ih.trans (subperm_flatMap rest _)
  | @opening n c ns es _ ih =>
    refine ih.trans ?_
    rw [List.flatMap_append, List.flatMap_cons, Node.nodes_eq c, List.cons_append]
    exact ((List.subperm_append_right _).2 (Node.subperm_exposed c)).cons_right c
  | inside _ _ ih => exact ih
  | hoist => simp [hp.hoist]
  | declare => simp [hp.declare]
  | define _ _ _ => exact subperm_nodes (by simpa using hp.define _ _)
  | mention _ _ _ => exact subperm_nodes (by simpa using hp.mention _)
  | initialise same _ _ _ _ => exact subperm_nodes (by simpa using hp.initialise same)
  | within _ _ _ ih => rwa [hp.within]

/-- The traversal gets to what is picked out of its events. -/
lemma Visits.picked_reaches (hp : Picks pick) (h : Visits n ns es) {x : Node}
    (hx : x ∈ es.flatMap pick) : ∃ m ∈ ns, m.Reaches x := by
  have hself {y : Node} {xs : List Node} (hxs : xs.Sublist [y]) (hx : x ∈ xs) :
      ∃ m ∈ [y], m.Reaches x := by
    obtain rfl := List.mem_singleton.1 (hxs.subset hx)
    exact ⟨x, List.mem_singleton_self x, .refl⟩
  induction h with
  | nil => cases hx
  | append _ _ ih ih' =>
    rw [List.flatMap_append] at hx
    rcases List.mem_append.1 hx with hx | hx
    · obtain ⟨m, hm, hx⟩ := ih hx
      exact ⟨m, List.mem_append_left _ hm, hx⟩
    · obtain ⟨m, hm, hx⟩ := ih' hx
      exact ⟨m, List.mem_append_right _ hm, hx⟩
  | leaving rest _ ih =>
    obtain ⟨m, hm, hx⟩ := ih hx
    exact ⟨m, rest.subset hm, hx⟩
  | @opening n c ns es _ ih =>
    obtain ⟨m, hm, hx⟩ := ih hx
    rcases List.mem_append.1 hm with hm | hm
    · exact ⟨c, List.mem_cons_self, .head hm hx⟩
    · exact ⟨m, List.mem_cons_of_mem c hm, hx⟩
  | inside _ _ ih => exact ih hx
  | hoist => simp [hp.hoist] at hx
  | declare => simp [hp.declare] at hx
  | define _ _ _ => exact hself (hp.define _ _) (by simpa using hx)
  | mention _ _ _ => exact hself (hp.mention _) (by simpa using hx)
  | initialise same _ _ _ _ => exact hself (hp.initialise same) (by simpa using hx)
  | within _ _ _ ih =>
    rw [hp.within] at hx
    exact ih hx

/-- What is defined stands in the node, as an identifier or where a construct has a name, and bears
the name under which it is defined. -/
lemma Visits.defined (h : Visits n ns es) {name : String} {d : Definition}
    (hd : (name, d) ∈ es.flatMap defines) : name = d.name ∧ n.Contains d.identifier ∧
      IsName n d.identifier ∧ d.identifier.text? .name = .ok (some d.name) := by
  induction h with
  | append _ _ ih ih' =>
    rw [List.flatMap_append] at hd
    exact (List.mem_append.1 hd).elim ih ih'
  | leaving _ _ ih => exact ih hd
  | opening _ ih => exact ih hd
  | @inside n m ns es hm _ ih =>
    obtain ⟨hname, hin, hisName, hnamed⟩ := ih hd
    refine ⟨hname, hm.trans hin, ?_, hnamed⟩
    exact hisName.imp_right fun ⟨c, f, hc, hbinds, hchild⟩ => ⟨c, f, hm.trans hc, hbinds, hchild⟩
  | define inside isName named =>
    obtain ⟨rfl, rfl⟩ := Prod.mk.inj (List.mem_singleton.1 hd)
    exact ⟨rfl, inside, isName, named⟩
  | initialise _ _ inside isIdentifier named =>
    obtain ⟨rfl, rfl⟩ := Prod.mk.inj (List.mem_singleton.1 (by simpa [defines] using hd))
    exact ⟨rfl, inside, .inl isIdentifier, named⟩
  | within _ _ _ ih => exact ih (by simpa [Event.within, defines] using hd)
  | nil | hoist | declare | mention => cases hd

end Event

/-! ## Names -/

/-- What a construct may have where it binds a name. -/
lemma Kind.mem_kinds_of_binds {k : Kind} {f : Field} (h : k.binds f = true) {a : Arity}
    (ha : (f, a) ∈ k.parts) :
    a ∈ [.exactly [.identifier], .exactly [.identifier, .literal], .atMost [.identifier]] := by
  unfold binds at h
  split at h
  case h_1 =>
    cases k <;> simp [parts] at ha
    all_goals simp [ha]
  case h_8 => cases h
  all_goals simp [parts] at ha
  all_goals simp [ha]

namespace Tree

variable {α : Type} {c m : Tree α}

/-- Where a construct binds a name, it has an identifier, unless it has a literal. -/
lemma kind_of_binds (hc : c.shape.Conforms) {f : Field} (hbinds : c.kind.binds f = true)
    (hchild : c.child f = .ok (some m)) : m.kind = .identifier ∨ m.kind = .literal := by
  obtain ⟨v, hv, hm⟩ := bind_ok_iff.1 hchild
  have hf : f ≠ .nodes := by
    rintro rfl
    cases hk : c.kind <;> rw [hk] at hbinds <;> cases hbinds
  obtain ⟨a, ha, hfits⟩ := hc.exists_arity hf hv
  have hmem := Kind.mem_kinds_of_binds hbinds ha
  cases v with
  | node t =>
    obtain rfl : t = m := Option.some.inj (pure_ok_iff.1 hm)
    simp only [List.mem_cons, List.not_mem_nil, or_false] at hmem
    rcases hmem with rfl | rfl | rfl
    · exact .inl (by simpa [Slot.Fits] using hfits)
    · simpa [Slot.Fits] using hfits
    · exact .inl (by simpa [Slot.Fits] using hfits)
  | _ => cases pure_ok_iff.1 hm

/-- A literal has no name. -/
lemma kind_ne_literal (hm : m.shape.Conforms) {name : Option String}
    (hname : m.text? .name = .ok name) : m.kind ≠ .literal := by
  intro hk
  obtain ⟨v, hv, -⟩ := bind_ok_iff.1 hname
  obtain ⟨a, ha, -⟩ := hm.exists_arity (by decide) hv
  have hk : m.shape.kind = .literal := hk
  rw [hk] at ha
  simp [Kind.parts] at ha

end Tree

lemma Node.Labels.contains {n c : Node} (h : n.Labels c) : n.Contains c := by
  cases h with
  | member _ _ child => exact Tree.contains_of_child child
  | key _ _ child => exact Tree.contains_of_child child
  | imported _ items mem child =>
    exact (Tree.contains_of_item items mem).trans (Tree.contains_of_child child)
  | exported _ items mem child =>
    exact (Tree.contains_of_item items mem).trans (Tree.contains_of_child child)

namespace Node

variable {sourceType : String} {globals : List String} {root : Node} {g : Graph}

/-- The references of a program are the uses in its events, and its definitions are those of the
events, in some order. -/
lemma exists_events (h : root.scopeGraph sourceType globals = .ok g) :
    ∃ es, Event.Visits root [root] es ∧
      g.references.map (·.identifier) = es.flatMap Event.mentions ∧
      g.held.flatten.Perm (es.flatMap Event.defines) := by
  obtain ⟨es, b, hes, hb, rfl⟩ := exists_run h
  refine ⟨es, Event.visits_events hes, ?_, ?_⟩
  · have hrun : b.graph.references.map (·.toOccurrence) = es.flatMap Event.uses :=
      Analysis.occurrences_run hb
    have hmap := congrArg (List.map (·.identifier)) hrun
    rwa [List.map_map, List.map_flatMap] at hmap
  · exact Analysis.held_run Analysis.invariant_initial hb

/-- In a tree with distinct numbers, no identifier is met twice. -/
lemma Distinct.nodup_picked (hroot : root.Distinct) {pick : Event → List Node}
    (hp : Event.Picks pick) {es : List Event} (h : Event.Visits root [root] es) :
    ((es.flatMap pick).map Node.id).Nodup := by
  have hsub := h.picked_subperm hp
  rw [List.flatMap_singleton] at hsub
  obtain ⟨xs, hperm, hxs⟩ := hsub
  exact (hperm.map Node.id).nodup_iff.1 (List.Nodup.sublist (hxs.map Node.id) hroot)

end Node

/-- **No identifier is met twice, and no label is taken for a use.**  In a program that comes from
the conversion and can be analysed, no node is the identifier of two references, in whatever scopes,
or of two definitions, of whatever variables.  All of these are identifiers of the program.  The
identifier of a reference is never the name of a member or the key of a property, a method or a
field, unless it is computed, nor a name by which something is imported from another module or
exported to other modules. -/
theorem Graph.identifiers_met_once {i : Convert.Input} {tree : Concrete Unit} {root : Node}
    {sourceType : String} {globals : List String} {g : Graph}
    (hroot : Convert.build i tree = .ok root) (h : root.scopeGraph sourceType globals = .ok g) :
    (g.references.map (·.identifier.id)).Nodup ∧ (g.definitions.map (·.identifier.id)).Nodup ∧
      (∀ r ∈ g.references, root.Contains r.identifier ∧ r.identifier.kind = .identifier) ∧
      (∀ d ∈ g.definitions, root.Contains d.identifier ∧ d.identifier.kind = .identifier) ∧
      ∀ r ∈ g.references, ∀ n c : Node, root.Contains n → n.Labels c → r.identifier.id ≠ c.id := by
  have hdistinct := Convert.distinct_build hroot
  have hconforming := Convert.conforming_build hroot
  obtain ⟨es, hvisits, hrefs, hheld⟩ := Node.exists_events h
  have hdefs : (g.definitions.map (·.identifier)).Perm (es.flatMap Event.introduces) := by
    have hperm := hheld.map (·.2.identifier)
    rw [List.map_flatMap] at hperm
    rwa [definitions_eq, List.map_map]
  refine ⟨?_, ?_, ?_, ?_, ?_⟩
  · have hnodup := hdistinct.nodup_picked Event.picks_mentions hvisits
    rwa [← hrefs, List.map_map] at hnodup
  · have hnodup := hdistinct.nodup_picked Event.picks_introduces hvisits
    rwa [← (hdefs.map Node.id).nodup_iff, List.map_map] at hnodup
  · intro r hr
    obtain ⟨hin, hkind, -⟩ := Node.named_of_mem_references h hr
    exact ⟨hin, hkind⟩
  · intro d hd
    rw [definitions_eq] at hd
    obtain ⟨⟨name, d⟩, hmem, rfl⟩ := List.mem_map.1 hd
    obtain ⟨-, hin, hisName, hnamed⟩ := hvisits.defined (hheld.subset hmem)
    refine ⟨hin, ?_⟩
    rcases hisName with hkind | ⟨c, f, hc, hbinds, hchild⟩
    · exact hkind
    · rcases Tree.kind_of_binds (hconforming c hc).1 hbinds hchild with hkind | hkind
      · exact hkind
      · exact absurd hkind (Tree.kind_ne_literal (hconforming _ hin).1 hnamed)
  · intro r hr n c hn hlabels heq
    have hmem : r.identifier ∈ es.flatMap Event.mentions := by
      rw [← hrefs]
      exact List.mem_map_of_mem hr
    obtain ⟨m, hm, hreaches⟩ := hvisits.picked_reaches Event.picks_mentions hmem
    obtain rfl := List.mem_singleton.1 hm
    have hsame := hdistinct.eq_of_id_eq hreaches.contains (hn.trans hlabels.contains) heq
    exact hdistinct.not_labels hn hreaches (hsame ▸ hlabels)

/-- The concrete tree of a module that imports a name under another one, exports it under a third
one, and takes a member of it apart. -/
def Concrete.renaming : Concrete Unit :=
  let imported := node "import_specifier" none 8 14
    [identifier (some "name") 8 9, identifier (some "alias") 13 14]
  let exported := node "export_specifier" none 33 39
    [identifier (some "name") 33 34, identifier (some "alias") 38 39]
  let pattern := node "object_pattern" (some "name") 47 52
    [node "pair_pattern" none 48 51
      [node "property_identifier" (some "key") 48 49 [], identifier (some "value") 50 51]]
  let member := node "member_expression" (some "value") 53 56
    [identifier (some "object") 53 54,
     node "property_identifier" (some "property") 55 56 []]
  node "program" none 0 56
    [node "import_statement" none 0 25
      [node "import_clause" none 7 15 [node "named_imports" none 7 15 [imported]],
       node "string" (some "source") 21 24 []],
     node "export_statement" none 25 41 [node "export_clause" none 32 40 [exported]],
     node "lexical_declaration" none 41 56
      [token "const" (some "kind") 41 46,
       node "variable_declarator" none 47 56 [pattern, member]]]

/-- The source of `Concrete.renaming`. -/
def Source.renaming : Source :=
  ⟨"import \x7bm as k\x7d from 'v';export \x7bk as e\x7d;const \x7ba:b\x7d=k.c".toUTF8.toList⟩

/-- Of the eight identifiers, the import is defined once and used twice, the constant is defined and
initialised, and the others are labels. -/
theorem Graph.identifiers_met_once_renaming : ∃ root g,
    Convert.build ⟨.renaming, "module"⟩ .renaming = .ok root ∧
      root.scopeGraph "module" [] = .ok g ∧
      g.references.map (·.name) = ["k", "b", "k"] ∧ g.definitions.map (·.name) = ["k", "b"] ∧
      (g.references.map (·.identifier.id)).Nodup ∧ (g.definitions.map (·.identifier.id)).Nodup ∧
      ∀ r ∈ g.references, ∀ n c : Node, root.Contains n → n.Labels c → r.identifier.id ≠ c.id := by
  have hall : (Convert.build ⟨.renaming, "module"⟩ .renaming).toOption.any fun root =>
      (root.scopeGraph "module" []).toOption.any fun g =>
        g.references.map (·.name) == ["k", "b", "k"] &&
          g.definitions.map (·.name) == ["k", "b"] := by
    decide +kernel
  obtain ⟨root, hroot, hall⟩ := exists_ok_of_any hall
  obtain ⟨g, h, hall⟩ := exists_ok_of_any hall
  simp only [Bool.and_eq_true, beq_iff_eq] at hall
  obtain ⟨hrefs, hdefs, -, -, hlabels⟩ := Graph.identifiers_met_once hroot h
  exact ⟨root, g, hroot, h, hall.1, hall.2, hrefs, hdefs, hlabels⟩

end RefFlow
