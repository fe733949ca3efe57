import RefFlow.Proofs.Property.Unrepeated

/-!
# What is found for a pattern

The extraction of property reads for a pattern, measured by the rules of where a value goes.  The
value gets to the places that `Reaches` says, and a fresh extractor

* has a result if and only if there is no fault at any of them;
* says that the reads cannot be known if and only if one of them is untrackable;
* otherwise lists under each name the reads of this name that are made at these places, and no read
  twice unless a type operator that the conversion does not know has two operands.

This is `ofPattern_exact`.  `ofPattern_using` shows that there are faults: a declaration that the
conversion does not know has no initial value to be asked for, and a value that gets there is not
reported as one whose reads cannot be known.
-/

namespace RefFlow

open Fallible

namespace Found

lemma get?_foldl_set (rs : List PropertyRead) (t : Table String (List Node)) (name : String) :
    (rs.foldl (fun t r => t.set r.name ((t.get? r.name).getD [] ++ [r.node])) t).get? name =
      if (rs.filter (·.name == name)).isEmpty then t.get? name
      else some ((t.get? name).getD [] ++ (rs.filter (·.name == name)).map (·.node)) := by
  induction rs generalizing t with
  | nil => rfl
  | cons r rs ih =>
    rw [List.foldl_cons, ih, Table.get?_set]
    by_cases hname : r.name = name
    · subst hname
      cases hempty : (rs.filter (·.name == r.name)).isEmpty <;>
        simp_all [List.isEmpty_iff]
    · simp [hname]

/-- Under a name there are the nodes of the reads that have this name. -/
lemma get?_properties (f : Found) (name : String) :
    f.properties.get? name = if (f.reads.filter (·.name == name)).isEmpty then none
      else some ((f.reads.filter (·.name == name)).map (·.node)) := by
  rw [properties, get?_foldl_set]
  rfl

end Found

namespace Property

open Trace (Carrier)

variable {p : Program} {t : Node} {f : Found} {m' : Memo}

lemma keeps_empty {P : Carrier → Found → Prop} : Memo.Keeps p {} P := by
  intro c f _ hf
  cases c <;> cases hf

/-- What is found for a pattern is what the rules say. -/
lemma Runs.exact (h : Runs p [.target t] {} [f] m') (ht : p.Has t) :
    (f.isAny = true ↔ ∃ c, Reaches p (.target t) c ∧ Untrackable p c) ∧
    (f.isAny = false → ∀ r, r ∈ f.reads ↔ ∃ c, Reaches p (.target t) c ∧ Contributes p c r) := by
  have hin : Carrier.In p (.target t) := ht
  obtain ⟨hjustified, -⟩ := h.justified (List.forall_mem_singleton.2 hin) keeps_empty
  have hjustified := (List.forall₂_cons.1 hjustified).1
  refine ⟨⟨hjustified.any, ?_⟩, fun hany r => ⟨hjustified.reads r, ?_⟩⟩
  · rintro ⟨c, hreaches, hc⟩
    simpa using (h.covers hin hreaches).any hc
  · rintro ⟨c, hreaches, hc⟩
    simpa [hany] using (h.covers hin hreaches).reads r hc

/-- **The property reads of a pattern.**  Consider the places that the value of a pattern gets to.
A fresh extractor has a result for the pattern if and only if there is no fault at any of them.  The
result is that the reads cannot be known if and only if one of the places is untrackable.  Otherwise
the nodes that are listed under a name, and where the value of the property goes from them, are
given by a list of all reads of this name that are made at these places, which has each of them once
if type operators have one operand. -/
theorem ofPattern_exact (p : Program) {t : Node} (ht : p.Has t) :
    ((∃ f, ((ofPattern p (some t)).run.run {}).1 = .ok f) ↔
      ∀ c, Reaches p (.target t) c → ¬Faulty p c) ∧
    ∀ f, ((ofPattern p (some t)).run.run {}).1 = .ok f →
      (f.isAny = true ↔ ∃ c, Reaches p (.target t) c ∧ Untrackable p c) ∧
      (f.isAny = false → ∀ name, ∃ rs : List PropertyRead,
        (∀ r, r ∈ rs ↔ r.name = name ∧ ∃ c, Reaches p (.target t) c ∧ Contributes p c r) ∧
        (OneOperand p → (rs.map (·.node)).Nodup) ∧
        f.properties.get? name = (if rs.isEmpty then none else some (rs.map (·.node))) ∧
        f.nests name = rs.map (·.nest)) := by
  have hperforms := performs_ofPattern ht
  rcases hrun : (ofPattern p (some t)).run.run {} with ⟨e | f, m'⟩
  · obtain ⟨d, hreaches, hfaulty⟩ := hperforms.error e m' hrun
    refine ⟨⟨?_, fun hfaultless => absurd hfaulty (hfaultless d hreaches)⟩, ?_⟩
    · rintro ⟨f, hf⟩
      cases hf
    · intro f hf
      cases hf
  · have hruns := hperforms.ok f m' hrun
    refine ⟨⟨fun _ c hreaches => (hruns.covers ht hreaches).faultless, fun _ => ⟨f, rfl⟩⟩, ?_⟩
    intro g hg
    cases hg
    obtain ⟨hany, hreads⟩ := hruns.exact ht
    refine ⟨hany, fun hknown name => ⟨f.reads.filter (·.name == name), ?_, ?_, ?_, rfl⟩⟩
    · intro r
      rw [List.mem_filter, beq_iff_eq, hreads hknown, and_comm]
    · intro hone
      exact (hruns.nodup hone ht).sublist (List.filter_sublist.map _)
    · exact f.get?_properties name

/-- The program `let o=s;o o.x`, with `o o` as the operands of a type operator. -/
def doubled : Except Fault Program :=
  Program.analyze ⟨"let o=s;o o.x".toUTF8.toList⟩ {} <|
    .node "program" none 0 13
      [.node "lexical_declaration" none 0 8
        [.token "let" (some "kind") 0 3,
         .node "variable_declarator" none 4 7
          [.identifier (some "name") 4 5, .identifier (some "value") 6 7]],
       .node "expression_statement" none 8 13
        [.node "member_expression" none 8 13
          [.node "t_s_as_expression" (some "object") 8 11
            [.identifier none 8 9, .identifier none 10 11],
           .node "property_identifier" (some "property") 12 13 []]]]

/-- Both operands lead to the same member, which is listed twice. -/
example : doubled.toOption.any fun p => p.places.any fun q =>
    ((ofPattern p (some q.node)).run.run {}).1.toOption.any fun f =>
      (f.properties.get? "x").any fun ns => ns.map (·.id) == [6, 6] := by decide +kernel

/-! ### A circle of variables -/

/-- The program `let a=s,b=a;a=b;b.x;const {y}=a`, in which two variables are assigned to each
other. -/
def circle : Except Fault Program :=
  Program.analyze ⟨"let a=s,b=a;a=b;b.x;const {y}=a".toUTF8.toList⟩ {} <|
    .node "program" none 0 31
      [.node "lexical_declaration" none 0 12
        [.token "let" (some "kind") 0 3,
         .node "variable_declarator" none 4 7
          [.identifier (some "name") 4 5, .identifier (some "value") 6 7],
         .node "variable_declarator" none 8 11
          [.identifier (some "name") 8 9, .identifier (some "value") 10 11]],
       .node "expression_statement" none 12 16
        [.node "assignment_expression" none 12 15
          [.identifier (some "left") 12 13, .identifier (some "right") 14 15]],
       .node "expression_statement" none 16 20
        [.node "member_expression" none 16 19
          [.identifier (some "object") 16 17,
           .node "property_identifier" (some "property") 18 19 []]],
       .node "lexical_declaration" none 20 31
        [.token "const" (some "kind") 20 25,
         .node "variable_declarator" none 26 31
          [.node "object_pattern" (some "name") 26 29
            [.node "shorthand_property_identifier_pattern" none 27 28 []],
           .identifier (some "value") 30 31]]]

/-- A program without type operators has none with two operands. -/
lemma oneOperand_of_all (h : p.places.all fun q =>
    q.node.kind != .tsAsExpression && q.node.kind != .tsNonNullExpression) : OneOperand p := by
  intro q hq hwrapper _
  obtain ⟨way, hplace⟩ := hq.exists_place
  have hkinds := List.all_eq_true.1 h _ (List.mem_of_getElem? hplace)
  rcases hwrapper with hkind | hkind <;> simp [hkind] at hkinds

/-- In the circle the value of `a` gets to the member `b.x` and to the pattern `{y}`, and nowhere
where its reads cannot be known. -/
theorem ofPattern_circle : ∃ p t f, circle = .ok p ∧ p.Has t ∧ t.id = 3 ∧ OneOperand p ∧
    ((ofPattern p (some t)).run.run {}).1 = .ok f ∧
    (∀ c, Reaches p (.target t) c → ¬Faulty p c ∧ ¬Untrackable p c) ∧
    ∀ name ∈ ["x", "y"], ∃ ns n, f.properties.get? name = some ns ∧ n ∈ ns ∧
      ∃ c r, Reaches p (.target t) c ∧ Contributes p c r ∧ r.node = n := by
  have hall : circle.toOption.any fun p =>
      (p.places.all fun q =>
        q.node.kind != .tsAsExpression && q.node.kind != .tsNonNullExpression) &&
      p.places.any fun q => q.node.id == 3 &&
        ((ofPattern p (some q.node)).run.run {}).1.toOption.any fun f => !f.isAny &&
          ["x", "y"].all fun name => (f.properties.get? name).any fun ns => !ns.isEmpty := by
    decide +kernel
  obtain ⟨p, hp, hall⟩ := exists_ok_of_any hall
  obtain ⟨hkinds, hall⟩ := Bool.and_eq_true_iff.1 hall
  obtain ⟨q, hq, hall⟩ := List.any_eq_true.1 hall
  obtain ⟨hid, hall⟩ := Bool.and_eq_true_iff.1 hall
  obtain ⟨f, hf, hall⟩ := exists_ok_of_any hall
  obtain ⟨hany, hnames⟩ := Bool.and_eq_true_iff.1 hall
  have hhas := Program.has_of_mem_places hq
  have hany : f.isAny = false := by simpa using hany
  obtain ⟨hfaultless, hresult⟩ := ofPattern_exact p hhas
  obtain ⟨huntrackable, hreads⟩ := hresult f hf
  refine ⟨p, q.node, f, hp, hhas, beq_iff_eq.1 hid, oneOperand_of_all hkinds, hf, ?_, ?_⟩
  · intro c hreaches
    refine ⟨hfaultless.1 ⟨f, hf⟩ c hreaches, fun hc => ?_⟩
    rw [huntrackable.2 ⟨c, hreaches, hc⟩] at hany
    cases hany
  · intro name hname
    obtain ⟨ns, hns, hsome⟩ := (Option.any_eq_true _ _).1 (List.all_eq_true.1 hnames name hname)
    obtain ⟨rs, hrs, -, hproperties, -⟩ := hreads hany name
    rw [hproperties] at hns
    split at hns
    · cases hns
    · cases hns
      cases rs with
      | nil => cases hsome
      | cons r rs =>
        obtain ⟨-, c, hreaches, hcontributes⟩ := (hrs r).1 List.mem_cons_self
        exact ⟨_, r.node, by rw [hproperties]; rfl, List.mem_cons_self, c, r, hreaches,
          hcontributes, rfl⟩

/-! ### A declaration that is not known -/

/-- The program `const o=s;using y=o;`.  Its second statement is converted without the parts that a
declaration has. -/
def usingAlias : Except Fault Program :=
  Program.analyze ⟨"const o=s;using y=o;".toUTF8.toList⟩ {} <|
    .node "program" none 0 20
      [.node "lexical_declaration" none 0 10
        [.token "const" (some "kind") 0 5,
         .node "variable_declarator" none 6 9
          [.identifier (some "name") 6 7, .identifier (some "value") 8 9]],
       .node "using_declaration" none 10 20
        [.token "using" (some "kind") 10 15,
         .node "variable_declarator" none 16 19
          [.identifier (some "name") 16 17, .identifier (some "value") 18 19]]]

/-- The value of `o` is used in a way that is not known, and there is no result that says so. -/
theorem ofPattern_using : ∃ p t, usingAlias = .ok p ∧ p.Has t ∧ t.kind = .identifier ∧
    ((ofPattern p (some t)).run.run {}).1 =
      .error (.missingField .variableDeclarator .init) := by
  have hall : usingAlias.toOption.any fun p => p.places.any fun q =>
      q.node.kind == .identifier && match ((ofPattern p (some q.node)).run.run {}).1 with
      | .error f => f == .missingField .variableDeclarator .init
      | .ok _ => false := by decide +kernel
  obtain ⟨p, hp, hall⟩ := exists_ok_of_any hall
  obtain ⟨q, hq, hall⟩ := List.any_eq_true.1 hall
  obtain ⟨hkind, hfails⟩ := Bool.and_eq_true_iff.1 hall
  refine ⟨p, q.node, hp, Program.has_of_mem_places hq, beq_iff_eq.1 hkind, ?_⟩
  split at hfails
  · rename_i f hf
    rw [hf, beq_iff_eq.1 hfails]
  · cases hfails

end Property

end RefFlow
