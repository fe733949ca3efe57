import RefFlow.Proofs.Scope.Identifiers

/-!
# Names in markup mention no variable

The name of a tag or of an attribute is written like an identifier or like a member of one, and yet
it means no variable.  Therefore the conversion has a reading of its own for names, which makes a
name of whatever is below a name (`Tree.IsMarkupName`), and it leaves the name of a tag out where it
reads the attributes.  That all nodes keep to this is part of `Convert.conforming_build`.

Here the consequence for scopes is drawn (`Graph.markup_names_unmentioned`).  The identifiers that
are used or defined are no names in markup (`Graph.mentioned_spec`), and those inside a tag or an
attribute stand apart from its name (`Tree.Conforming.apart_of_contains`).
-/

namespace RefFlow

open Fallible

/-- The identifiers of all references and all definitions of a program. -/
def Graph.mentioned (g : Graph) : List Node :=
  g.references.map (·.identifier) ++ g.definitions.map (·.identifier)

variable {k : Ranging} {sourceType : String} {globals : List String} {root n x : Node} {g : Graph}

/-- What the analysis mentions belongs to the program, and neither is a name in markup nor has
one. -/
lemma Graph.mentioned_spec (hconforming : root.Conforming k)
    (h : root.scopeGraph sourceType globals = .ok g) (hx : x ∈ g.mentioned) :
    root.Contains x ∧ x.kind ∉ Kind.markupNames ∧ x.kind ∉ Kind.markupNamed := by
  have hidentifier : Kind.identifier ∉ Kind.markupNames ∧ Kind.identifier ∉ Kind.markupNamed := by
    decide
  have hliteral : Kind.literal ∉ Kind.markupNames ∧ Kind.literal ∉ Kind.markupNamed := by decide
  rcases List.mem_append.1 hx with hx | hx
  · obtain ⟨r, hr, rfl⟩ := List.mem_map.1 hx
    obtain ⟨hin, hkind, -⟩ := Node.named_of_mem_references h hr
    exact ⟨hin, hkind ▸ hidentifier⟩
  · obtain ⟨es, hvisits, -, hheld⟩ := Node.exists_events h
    rw [definitions_eq, List.map_map] at hx
    obtain ⟨⟨name, d⟩, hmem, rfl⟩ := List.mem_map.1 hx
    obtain ⟨-, hin, hisName, -⟩ := hvisits.defined (hheld.subset hmem)
    refine ⟨hin, ?_⟩
    rcases hisName with hkind | ⟨c, f, hc, hbinds, hchild⟩
    · exact hkind ▸ hidentifier
    · rcases Tree.kind_of_binds (hconforming c hc).1 hbinds hchild with hkind | hkind
      · exact hkind ▸ hidentifier
      · exact hkind ▸ hliteral

/-- Whatever a tag or an attribute contains is part of a name, or apart from its name. -/
lemma Tree.Conforming.apart_of_contains (hconforming : n.Conforming k)
    (hkind : n.kind ∈ Kind.markupNamed) (hnested : k.nested) (hordered : k.ordered) {name : Node}
    (hname : n.child .name = .ok (some name)) (hx : n.Contains x) (hne : n ≠ x) :
    x.kind ∈ Kind.markupNames ∨ x.span.Apart name.span := by
  obtain ⟨d, hd, hdx⟩ := (Tree.contains_iff.1 hx).resolve_left hne
  rcases (hconforming n (.refl n)).2.beside hkind hnested hordered name hname d hd with h | h
  · exact .inl (h x hdx)
  · have hbelow : d.Conforming k := fun u hu => hconforming u ((Tree.contains_child hd).trans hu)
    exact .inr (h.mono (hbelow.span_within hnested hdx) (.refl _))

/-- **Names in markup mention no variable.**  In a program that comes from the conversion and can be
analysed, let a tag or an attribute have a name.  All of the name, however it is nested, consists of
names in markup, and nothing in it is the identifier of a reference or of a definition.  Nor is the
name read a second time, as an attribute: where the ranges of the concrete tree are nested and
siblings follow one another, the identifiers inside the tag or the attribute that are used or
defined do not overlap the name. -/
theorem Graph.markup_names_unmentioned {i : Convert.Input} {tree : Concrete Unit}
    (hroot : Convert.build i tree = .ok root) (h : root.scopeGraph sourceType globals = .ok g)
    {name : Node} (hn : root.Contains n) (hkind : n.kind ∈ Kind.markupNamed)
    (hname : n.child .name = .ok (some name)) :
    (∀ m : Node, name.Contains m →
        m.kind ∈ Kind.markupNames ∧ ∀ x ∈ g.mentioned, x.id ≠ m.id) ∧
      (tree.NestedRanges → tree.OrderedRanges →
        ∀ x ∈ g.mentioned, n.Contains x → x.span.Apart name.span) := by
  have hconforming := Convert.conforming_build hroot
  refine ⟨fun m hm => ?_, fun hnested hordered x hx hnx => ?_⟩
  · have hmarkup : m.kind ∈ Kind.markupNames := (hconforming n hn).2.names hkind name hname m hm
    refine ⟨hmarkup, fun x hx heq => ?_⟩
    obtain ⟨hin, hnot, -⟩ := mentioned_spec hconforming h hx
    have hname : n.Contains name := Tree.contains_child (Shape.mem_children_of_child hname)
    have hsame : x = m :=
      (Convert.distinct_build hroot).eq_of_id_eq hin (hn.trans (hname.trans hm)) heq
    exact hnot (hsame ▸ hmarkup)
  · obtain ⟨-, hnot, hnotTag⟩ := mentioned_spec hconforming h hx
    have hne : n ≠ x := fun heq => hnotTag (heq ▸ hkind)
    have hbelow : n.Conforming tree.ranging := fun u hu => hconforming u (hn.trans hu)
    exact (hbelow.apart_of_contains hkind hnested hordered hname hnx hne).resolve_left hnot

/-- The concrete tree of `<a.b.c d:e={x=>x}><f/></a.b.c>`. -/
def Concrete.markup : Concrete Unit :=
  let name (start : Nat) : Concrete Unit :=
    .node "member_expression" (some "name") start (start + 5)
      [.node "member_expression" (some "object") start (start + 3)
        [.identifier (some "object") start (start + 1),
         .node "property_identifier" (some "property") (start + 2) (start + 3) []],
       .node "property_identifier" (some "property") (start + 4) (start + 5) []]
  let handler : Concrete Unit := .node "jsx_attribute" none 7 17
    [.node "jsx_namespace_name" none 7 10
      [.identifier none 7 8, .identifier none 9 10],
     .node "jsx_expression" none 11 17
      [.node "arrow_function" none 12 16
        [.identifier (some "parameter") 12 13,
         .identifier (some "body") 15 16]]]
  .node "program" none 0 30
    [.node "expression_statement" none 0 30
      [.node "jsx_element" none 0 30
        [.node "jsx_opening_element" (some "open_tag") 0 18 [name 1, handler],
         .node "jsx_self_closing_element" none 18 22 [.identifier (some "name") 19 20],
         .node "jsx_closing_element" (some "close_tag") 22 30 [name 24]]]]

/-- The source of `Concrete.markup`. -/
def Source.markup : Source :=
  ⟨"<a.b.c d:e=\x7bx=>x\x7d><f/></a.b.c>".toUTF8.toList⟩

/-- Of all that looks like an identifier, only the parameter is defined and used, and it does not
overlap the five nodes of the name of the opening tag. -/
theorem Graph.markup_names_unmentioned_markup :
    ∃ root g, ∃ n name : Node, Convert.build ⟨.markup, "module"⟩ .markup = .ok root ∧
      root.scopeGraph "module" [] = .ok g ∧
      g.references.map (·.name) = ["x"] ∧ g.definitions.map (·.name) = ["x"] ∧
      root.Contains n ∧ n.kind = .jsxOpeningElement ∧ n.child .name = .ok (some name) ∧
      name.nodes.length = 5 ∧
      (∀ m : Node, name.Contains m →
        m.kind ∈ Kind.markupNames ∧ ∀ x ∈ g.mentioned, x.id ≠ m.id) ∧
      ∀ x ∈ g.mentioned, n.Contains x → x.span.Apart name.span := by
  have hranges : Concrete.markup.NestedRanges ∧ Concrete.markup.OrderedRanges := by decide +kernel
  have hall : (Convert.build ⟨.markup, "module"⟩ .markup).toOption.any fun root =>
      (root.scopeGraph "module" []).toOption.any fun g =>
        (g.references.map (·.name) == ["x"] && g.definitions.map (·.name) == ["x"]) &&
          root.nodes.any fun n : Node => n.kind == .jsxOpeningElement &&
            (n.child .name).toOption.any fun o =>
              o.any fun name : Node => name.nodes.length == 5 := by
    decide +kernel
  obtain ⟨root, hroot, hall⟩ := exists_ok_of_any hall
  obtain ⟨g, h, hall⟩ := exists_ok_of_any hall
  obtain ⟨hnames, hall⟩ := Bool.and_eq_true_iff.1 hall
  obtain ⟨n, hn, hall⟩ := List.any_eq_true.1 hall
  obtain ⟨hkind, hall⟩ := Bool.and_eq_true_iff.1 hall
  obtain ⟨o, hchild, hall⟩ := exists_ok_of_any hall
  obtain ⟨name, rfl, hlength⟩ := (Option.any_eq_true _ _).1 hall
  simp only [Bool.and_eq_true, beq_iff_eq] at hnames hkind hlength
  have hin := Node.mem_nodes_iff.1 hn
  obtain ⟨hunmentioned, hapart⟩ :=
    Graph.markup_names_unmentioned hroot h hin (by rw [hkind]; decide) hchild
  exact ⟨root, g, n, name, hroot, h, hnames.1, hnames.2, hin, hkind, hchild, hlength, hunmentioned,
    hapart hranges.1 hranges.2⟩

end RefFlow
