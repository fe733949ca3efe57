import Mathlib.Data.List.Pairwise
import RefFlow.Proofs.Convert.Making
import RefFlow.Proofs.Convert.Symbols

/-!
# The conversion gives every node its parts

A node that the conversion produces has the parts of its kind, or it stands for a construct without
a rule of its own (`Convert.conforming_build`).  So a part that an analysis asks for is missing only
where broken code bears the name of a known kind.  And where the ranges of the concrete tree are
nested, so are the spans of the nodes; where they are not empty, neither are the spans.

The proof follows the conversion.  A reading conforms if every node that it contains does and lies
inside a given span, and the rules are checked one by one: where the components of a construct have
conforming readings, so has the construct.  Rules look at the components of components too, so a
concrete tree conforms if the readings of all its nodes do (`Parsed.Conforming`).  Every rule ends
in `Convert.make`, and `conforming_make` asks for the parts of the kind one after the other
(`Filled`).

A program covers its whole source, so that its span may be larger than its range.  It can lie inside
another construct only if nothing is said about ranges.
-/

namespace RefFlow

open Fallible
open Making hiding bind_ok_iff map_ok_iff

/-- What is the case about the ranges, the root and the symbols of a concrete tree. -/
def Concrete.ranging {α : Type} (c : Concrete α) : Ranging :=
  ⟨c.NestedRanges, c.NonemptyRanges, c.SoleProgram, c.OrderedRanges, c.Grammatical⟩

/-! ## Conforming readings -/

variable {k : Ranging}

/-- The node and all below it conform, and it may stand inside a node with the given span. -/
structure Tree.LiesIn {α : Type} (k : Ranging) (s : Span) (t : Tree α) : Prop where
  conforming : t.Conforming k
  inner : t.Inner k s

lemma Tree.LiesIn.mono {α : Type} {t : Tree α} {s s' : Span} (h : t.LiesIn k s)
    (hs : k.nested → s.Within s') : t.LiesIn k s' :=
  ⟨h.conforming, fun hk => (h.inner.within hk).trans (hs hk), h.inner.generic⟩

/-- Whatever a construct reads as has the parts of its kinds and lies inside the span. -/
structure Reading.Conforms (k : Ranging) (s : Span) (r : Reading) : Prop where
  value : Makes r.value fun o => ∀ d ∈ o, d.LiesIn k s
  target : Makes r.target fun o => ∀ d ∈ o, d.LiesIn k s
  name : Makes r.name fun d => d.LiesIn k s ∧ d.IsMarkupName
  operands : Makes r.operands fun ds => ∀ d ∈ ds, d.LiesIn k s

lemma Reading.Conforms.mono {s s' : Span} {r : Reading} (h : r.Conforms k s)
    (hs : k.nested → s.Within s') : r.Conforms k s' where
  value := h.value.mono fun _ ho d hd => (ho d hd).mono hs
  target := h.target.mono fun _ ho d hd => (ho d hd).mono hs
  name := h.name.mono fun _ hd => ⟨hd.1.mono hs, hd.2⟩
  operands := h.operands.mono fun _ hds d hd => (hds d hd).mono hs

/-- The construct stands for the rest of what a pattern takes apart. -/
def Parsed.IsRest (c : Parsed) : Prop := c.symbol = "rest_pattern" ∨ c.symbol = "spread_element"

/-- The construct lies inside the span, and the readings of it and of all constructs below it
conform. -/
inductive Parsed.Conforming (k : Ranging) : Span → Parsed → Prop
  | intro {s : Span} {c : Parsed} (reading : c.label.Conforms k c.span)
      (rest : c.IsRest → Makes c.label.target fun o => ∀ d ∈ o, d.kind = .restElement)
      (within : k.nested → c.span.Within s) (nonempty : k.nonempty → c.span.start < c.span.stop)
      (ordered : k.ordered → c.layer.children.Pairwise Concrete.Precedes)
      (grammatical : k.grammatical → IsGrammatical c.symbol)
      (children : ∀ d ∈ c.layer.children, Parsed.Conforming k c.span d) : Parsed.Conforming k s c

/-- The readings of all constructs below the layer conform. -/
structure Layer.Conforming (k : Ranging) (y : Layer Parsed) : Prop where
  nonempty : k.nonempty → y.span.start < y.span.stop
  ordered : k.ordered → y.children.Pairwise Concrete.Precedes
  grammatical : k.grammatical → IsGrammatical y.symbol
  children : ∀ c ∈ y.children, Parsed.Conforming k y.span c

namespace Parsed.Conforming

variable {s : Span} {c : Parsed} (h : Conforming k s c)

include h

/-- The construct lies inside its own range. -/
lemma self : Conforming k c.span c := by
  cases h with
  | intro reading rest _ nonempty ordered grammatical children =>
    exact .intro reading rest (fun _ => .refl _) nonempty ordered grammatical children

lemma within : k.nested → c.span.Within s := by
  cases h
  assumption

lemma reading : c.label.Conforms k s := by
  cases h with
  | intro reading _ within _ _ _ _ => exact reading.mono within

lemma rest (hc : c.IsRest) : Makes c.label.target fun o => ∀ d ∈ o, d.kind = .restElement := by
  cases h with
  | intro _ rest _ _ _ _ _ => exact rest hc

lemma layer : c.layer.Conforming k := by
  cases h with
  | intro _ _ _ nonempty ordered grammatical children =>
    exact ⟨nonempty, ordered, grammatical, children⟩

end Parsed.Conforming

namespace Layer.Conforming

variable {y : Layer Parsed} (hy : y.Conforming k) {c : Parsed}

include hy

lemma child {role : String} (h : y.child? role = some c) : Parsed.Conforming k y.span c :=
  hy.children c (mem_of_child? h)

lemma constructs (h : c ∈ y.constructs) : Parsed.Conforming k y.span c :=
  hy.children c (mem_of_constructs h)

lemma parts (h : c ∈ y.parts) : Parsed.Conforming k y.span c := hy.children c (mem_of_parts h)

lemma first (h : y.first? = some c) : Parsed.Conforming k y.span c :=
  hy.children c (mem_of_first? h)

/-- The name under which something is known elsewhere, which is its own unless there is another. -/
lemma otherName {role : String} (hc : Parsed.Conforming k y.span c) :
    Parsed.Conforming k y.span ((y.child? role).getD c) := by
  cases h : y.child? role with
  | none => exact hc
  | some a => exact hy.child h

lemma construct {symbol : String} (h : y.construct? symbol = some c) :
    Parsed.Conforming k y.span c :=
  hy.children c (mem_of_construct? h)

/-- Components that do not start at the same place are apart. -/
lemma apart (hk : k.ordered) {d : Parsed} (hc : c ∈ y.children) (hd : d ∈ y.children)
    (hne : c.span.start ≠ d.span.start) : c.span.Apart d.span := by
  have hpairwise : y.children.Pairwise fun c d => c.span.Apart d.span :=
    (hy.ordered hk).imp fun h => .inl h
  have : Std.Symm fun c d : Parsed => c.span.Apart d.span := ⟨fun _ _ h => h.symm⟩
  exact hpairwise.forall hc hd fun heq => hne (heq ▸ rfl)

end Layer.Conforming

namespace Convert

/-! ### Parts and nodes -/

/-- The part is of the given sort, and what stands in it conforms and lies inside the span. -/
def Fitting (k : Ranging) (s : Span) (a : Arity) (v : Slot Draft) : Prop :=
  v.Fits a ∧ ∀ d ∈ v.children, d.LiesIn k s

section Fitting

variable {s s' : Span} {a : Arity} {v : Slot Draft}

lemma Fitting.mono (h : Fitting k s a v) (hs : k.nested → s.Within s') : Fitting k s' a v :=
  ⟨h.1, fun d hd => (h.2 d hd).mono hs⟩

@[simp] lemma fitting_blank_one : Fitting k s .one .blank := ⟨trivial, by simp [Slot.children]⟩

@[simp] lemma fitting_node {d : Draft} : Fitting k s .one (.node d) ↔ d.LiesIn k s := by
  simp [Fitting, Slot.Fits, Slot.children]

@[simp] lemma fitting_ofOption {o : Option Draft} :
    Fitting k s .one (.ofOption o) ↔ ∀ d ∈ o, d.LiesIn k s := by
  cases o <;> simp [Slot.ofOption]

lemma fitting_exactly {kinds : List Kind} {d : Draft} (h : d.LiesIn k s) (hd : d.kind ∈ kinds) :
    Fitting k s (.exactly kinds) (.node d) :=
  ⟨hd, by simpa [Slot.children] using h⟩

lemma fitting_atMost {kinds : List Kind} {o : Option Draft}
    (h : ∀ d ∈ o, d.LiesIn k s ∧ d.kind ∈ kinds) : Fitting k s (.atMost kinds) (.ofOption o) := by
  cases o with
  | none => exact ⟨trivial, by simp [Slot.ofOption, Slot.children]⟩
  | some d => exact ⟨(h d rfl).2, by simpa [Slot.ofOption, Slot.children] using (h d rfl).1⟩

lemma fitting_blank_atMost {kinds : List Kind} : Fitting k s (.atMost kinds) .blank :=
  ⟨trivial, by simp [Slot.children]⟩

@[simp] lemma fitting_sparse {ts : List (Option Draft)} :
    Fitting k s .sparse (.list ts) ↔ ∀ d, some d ∈ ts → d.LiesIn k s := by
  simp [Fitting, Slot.Fits, Slot.children]

@[simp] lemma fitting_ofList {ds : List Draft} :
    Fitting k s .many (.ofList ds) ↔ ∀ d ∈ ds, d.LiesIn k s := by
  simp [Fitting, Slot.Fits, Slot.ofList, Slot.children, List.filterMap_map]

@[simp] lemma fitting_nil : Fitting k s .many (.list []) :=
  ⟨by simp [Slot.Fits], by simp [Slot.children]⟩

lemma Fitting.sparse (h : Fitting k s .many v) : Fitting k s .sparse v := by
  cases v with
  | list ts => exact ⟨trivial, h.2⟩
  | _ => cases h.1

@[simp] lemma fitting_blank_datum : Fitting k s .datum .blank :=
  ⟨trivial, by simp [Slot.children]⟩

@[simp] lemma fitting_flag {b : Bool} : Fitting k s .datum (.flag b) :=
  ⟨trivial, by simp [Slot.children]⟩

@[simp] lemma fitting_text {t : String} : Fitting k s .datum (.text t) :=
  ⟨trivial, by simp [Slot.children]⟩

@[simp] lemma fitting_numeral {n : Numeral} : Fitting k s .datum (.numeral n) :=
  ⟨trivial, by simp [Slot.children]⟩

end Fitting

/-- The parts are the given ones, in their order. -/
inductive Filled (k : Ranging) (s : Span) :
    List (Field × Arity) → List (Field × Slot Draft) → Prop
  | nil : Filled k s [] []
  | cons {f : Field} {a : Arity} {v : Slot Draft} {parts : List (Field × Arity)}
      {fields : List (Field × Slot Draft)} (head : Fitting k s a v)
      (tail : Filled k s parts fields) :
      Filled k s ((f, a) :: parts) ((f, v) :: fields)

namespace Filled

variable {s : Span} {f : Field} {parts : List (Field × Arity)} {fields : List (Field × Slot Draft)}

lemma flag {b : Bool} (tail : Filled k s parts fields) :
    Filled k s ((f, .datum) :: parts) ((f, .flag b) :: fields) :=
  .cons fitting_flag tail

lemma text {t : String} (tail : Filled k s parts fields) :
    Filled k s ((f, .datum) :: parts) ((f, .text t) :: fields) :=
  .cons fitting_text tail

lemma blank (tail : Filled k s parts fields) :
    Filled k s ((f, .one) :: parts) ((f, .blank) :: fields) :=
  .cons fitting_blank_one tail

lemma node {d : Draft} (h : d.LiesIn k s) (tail : Filled k s parts fields) :
    Filled k s ((f, .one) :: parts) ((f, .node d) :: fields) :=
  .cons (fitting_node.2 h) tail

lemma exactly {d : Draft} {kinds : List Kind} (h : d.LiesIn k s) (hd : d.kind ∈ kinds)
    (tail : Filled k s parts fields) :
    Filled k s ((f, .exactly kinds) :: parts) ((f, .node d) :: fields) :=
  .cons (fitting_exactly h hd) tail

lemma option {o : Option Draft} (h : ∀ d ∈ o, d.LiesIn k s) (tail : Filled k s parts fields) :
    Filled k s ((f, .one) :: parts) ((f, .ofOption o) :: fields) :=
  .cons (fitting_ofOption.2 h) tail

lemma list {ds : List Draft} (h : ∀ d ∈ ds, d.LiesIn k s) (tail : Filled k s parts fields) :
    Filled k s ((f, .many) :: parts) ((f, .ofList ds) :: fields) :=
  .cons (fitting_ofList.2 h) tail

end Filled

lemma Filled.names {s : Span} {parts : List (Field × Arity)} {fields : List (Field × Slot Draft)}
    (h : Filled k s parts fields) : fields.map Prod.fst = parts.map Prod.fst := by
  induction h with
  | nil => rfl
  | cons _ _ ih => rw [List.map_cons, List.map_cons, ih]

/-- A node with the parts of its kind conforms. -/
lemma conforming_mk {label : Nat} {span : Span} {kind : Kind} {fields : List (Field × Slot Draft)}
    (hspan : k.nonempty → span.start < span.stop) (h : Filled k span kind.parts fields)
    (hmembers : kind = .objectPattern →
      ∀ d ∈ fields.flatMap (·.2.children), d.kind ∈ Kind.patternMembers)
    (hnames : kind ∈ Kind.markupNamed → ∀ c, Shape.child ⟨kind, span, fields⟩ .name = .ok (some c) →
      c.IsMarkupName ∧ (k.nested → k.ordered →
        ∀ d ∈ fields.flatMap (·.2.children), d.IsMarkupName ∨ d.span.Apart c.span)) :
    Tree.Conforming k (.mk label ⟨kind, span, fields⟩ : Draft) := by
  have key : ∀ {parts fields}, Filled k span parts fields →
      List.Forall₂ (fun part e => e.1 = part.1 ∧ e.2.Fits part.2) parts fields ∧
        ∀ d ∈ fields.flatMap (·.2.children), d.LiesIn k span := by
    intro parts fields h
    induction h with
    | nil => exact ⟨.nil, by simp⟩
    | cons head _ ih =>
      refine ⟨.cons ⟨rfl, head.1⟩ ih.1, fun d hd => ?_⟩
      rcases List.mem_append.1 hd with hd | hd
      · exact head.2 d hd
      · exact ih.2 d hd
  have hknown : kind ∈ Kind.unguarded → fields.map Prod.fst ≠ [.nodes] := by
    rw [h.names]
    exact (by decide : ∀ kind ∈ Kind.unguarded, kind.parts.map Prod.fst ≠ [.nodes]) kind
  refine Tree.conforming_iff.2 ⟨⟨.inl (key h).1, hspan, ?_, fun hk => .inr (hmembers hk),
    fun hk c hc => (hnames hk c hc).1, fun hk hn ho c hc => (hnames hk c hc).2 hn ho, ?_⟩, ?_⟩
  · exact fun c hc => ((key h).2 c hc).inner
  · rintro - hkind ⟨ts, hts⟩
    exact hknown hkind (congrArg (List.map Prod.fst) hts)
  · exact fun c hc => ((key h).2 c hc).conforming

end Convert

/-- The parts of a kind whose nodes stand below a root and may have members of any kind.  This is
not so for programs, object patterns and what has a name in markup, and nothing fills what is listed
for them here. -/
def Kind.innerParts : Kind → List (Field × Arity)
  | .program => [(.body, .exactly [])]
  | .objectPattern => [(.properties, .exactly [])]
  | .jsxOpeningElement | .jsxClosingElement | .jsxAttribute => [(.name, .exactly [])]
  | kind => kind.parts

lemma Convert.not_filled_exactly_nil {s : Span} {f : Field} {fields : List (Field × Slot Draft)} :
    ¬Filled k s [(f, .exactly [])] fields := by
  have hnot (v : Slot Draft) : ¬v.Fits (.exactly []) := by
    cases v <;> simp [Slot.Fits]
  intro h
  cases h with
  | cons head _ => exact hnot _ head.1

lemma Convert.Filled.of_innerParts {kind : Kind} {s : Span} {fields : List (Field × Slot Draft)}
    (h : Filled k s kind.innerParts fields) :
    kind ≠ .program ∧ kind ≠ .objectPattern ∧ kind ∉ Kind.markupNamed ∧
      Filled k s kind.parts fields := by
  unfold Kind.innerParts at h
  split at h
  · exact absurd h not_filled_exactly_nil
  · exact absurd h not_filled_exactly_nil
  · exact absurd h not_filled_exactly_nil
  · exact absurd h not_filled_exactly_nil
  · exact absurd h not_filled_exactly_nil
  · rename_i hprogram hpattern hopening hclosing hattribute
    exact ⟨hprogram, hpattern, by
      simpa [Kind.markupNamed] using ⟨hopening, hclosing, hattribute⟩, h⟩

/-- A node of such a kind lies where the construct lies that it is made for. -/
lemma Layer.Conforming.make {y : Layer Parsed} (hy : y.Conforming k) {kind : Kind}
    {fields : List (Field × Slot Draft)} (h : Convert.Filled k y.span kind.innerParts fields) :
    Makes (Convert.make y.span kind fields) (Tree.LiesIn k y.span) := by
  obtain ⟨hprogram, hpattern, hnamed, h⟩ := h.of_innerParts
  exact makes_make fun _ => ⟨Convert.conforming_mk hy.nonempty h (fun hk => absurd hk hpattern)
    fun hk => absurd hk hnamed, fun _ => .refl y.span, fun _ hk => absurd hk hprogram⟩

/-- A node with a name in markup conforms, if what stands beside the name is apart from it. -/
lemma Layer.Conforming.makeNamed {y : Layer Parsed} (hy : y.Conforming k) {kind : Kind}
    (hkind : kind ∈ Kind.markupNamed) {v : Slot Draft} {fields : List (Field × Slot Draft)}
    (h : Convert.Filled k y.span kind.parts ((.name, v) :: fields))
    (hnames : ∀ c ∈ v.children, c.IsMarkupName)
    (hapart : k.nested → k.ordered →
      ∀ c ∈ v.children, ∀ d ∈ fields.flatMap (·.2.children), d.span.Apart c.span) :
    Makes (Convert.make y.span kind ((.name, v) :: fields)) (Tree.LiesIn k y.span) := by
  have hmem {c : Draft} (hc : Shape.child ⟨kind, y.span, (.name, v) :: fields⟩ .name =
      .ok (some c)) : c ∈ v.children := by
    cases v with
    | node t =>
      cases hc
      exact List.mem_singleton_self _
    | _ => cases hc
  refine makes_make fun _ => ⟨Convert.conforming_mk hy.nonempty h ?_
    fun _ c hc => ⟨hnames c (hmem hc), ?_⟩, fun _ => .refl y.span, ?_⟩
  · rintro rfl
    exact absurd hkind (by decide)
  · intro hn ho d hd
    rcases List.mem_append.1 hd with hd | hd
    · exact .inl (hnames d hd)
    · exact .inr (hapart hn ho c (hmem hc) d hd)
  · rintro - rfl
    exact absurd hkind (by decide)

/-- A node that covers a component lies where the component lies. -/
lemma Parsed.Conforming.make {c : Parsed} {s : Span} (hc : Parsed.Conforming k s c) {kind : Kind}
    {fields : List (Field × Slot Draft)} (h : Convert.Filled k c.span kind.innerParts fields) :
    Makes (Convert.make c.span kind fields) (Tree.LiesIn k s) :=
  (hc.layer.make h).mono fun _ hd => hd.mono hc.within

/-- What a component reads as lies where the component lies. -/
lemma Parsed.Conforming.makes {c : Parsed} {s : Span} (hc : Parsed.Conforming k s c)
    {x : Making Draft} (h : Makes x (Tree.LiesIn k c.span)) : Makes x (Tree.LiesIn k s) :=
  h.mono fun _ hd => hd.mono hc.within

namespace Convert

/-! ### Components -/

section Rules

variable {i : Input} {y : Layer Parsed} {s : Span} {c : Parsed}

lemma makes_value {o : Option Parsed} (h : ∀ c ∈ o, Parsed.Conforming k s c) :
    Makes (value o) fun d => ∀ t ∈ d, t.LiesIn k s := by
  cases o with
  | none => exact makes_pure (by simp)
  | some c => exact (h c rfl).reading.value

lemma makes_target {o : Option Parsed} (h : ∀ c ∈ o, Parsed.Conforming k s c) :
    Makes (target o) fun d => ∀ t ∈ d, t.LiesIn k s := by
  cases o with
  | none => exact makes_pure (by simp)
  | some c => exact (h c rfl).reading.target

/-- Where every member of a list reads as a node with a property or as nothing, all nodes have the
property. -/
lemma makes_mapM_filterMap {P : Draft → Prop} {f : Parsed → Making (Option Draft)}
    {cs : List Parsed} (h : ∀ c ∈ cs, Makes (f c) fun o => ∀ d ∈ o, P d) :
    Makes (cs.mapM f) fun os => ∀ d ∈ os.filterMap id, P d :=
  (makes_mapM h).mono fun os hos d hd => by
    obtain ⟨o, ho, hd⟩ := List.mem_filterMap.1 hd
    exact hos o ho d hd

lemma makes_values {cs : List Parsed} (h : ∀ c ∈ cs, Parsed.Conforming k s c) :
    Makes (values cs) fun ds => ∀ d ∈ ds, d.LiesIn k s :=
  (makes_mapM_filterMap fun c hc => (h c hc).reading.value).bind fun _ hds => makes_pure hds

/-- A construct that reads as one node. -/
lemma makes_some {x : Making Draft} {P : Draft → Prop} (h : Makes x P) :
    Makes (some <$> x) fun o => ∀ d ∈ o, P d :=
  h.map fun d hd e he => by
    cases he
    exact hd

lemma makes_slotFor {f : Parsed → Making Draft} {o : Option Parsed} {kinds : List Kind}
    (h : ∀ c ∈ o, Makes (f c) fun d => d.LiesIn k s ∧ d.kind ∈ kinds) :
    Makes (slotFor f o) (Fitting k s (.atMost kinds)) := by
  cases o with
  | none => exact makes_pure fitting_blank_atMost
  | some c => exact (h c rfl).map fun d hd => fitting_atMost (o := some d) (by simpa using hd)

/-- A node is of the kind that it is made of. -/
lemma makes_kind {span : Span} {kind : Kind} {fields : List (Field × Slot Draft)}
    {kinds : List Kind} (h : kind ∈ kinds) :
    Makes (make span kind fields) fun d => d.kind ∈ kinds :=
  makes_make fun _ => h

lemma makes_identifier (hc : Parsed.Conforming k s c) :
    Makes (identifier i c) fun d => d.LiesIn k s ∧ d.kind ∈ [Kind.identifier] :=
  (hc.make (.text .nil)).and (makes_kind List.mem_cons_self)

lemma makes_identifierAt (hy : y.Conforming k) {role : String} :
    Makes (identifierAt i y role) (Fitting k y.span (.atMost [.identifier])) :=
  makes_slotFor fun _ hc => makes_identifier (hy.child hc)

lemma filled_stringLiteral {span : Span} :
    Filled k span Kind.literal.parts [(.value, .text (unquote (i.source.chars span))),
      (.raw, .text (String.ofList (i.source.chars span)))] :=
  .text (.text .nil)

lemma filled_numberLiteral {span : Span} :
    Filled k span Kind.literal.parts [(.value, match Numeral.read? (i.source.chars span) with
        | some n => .numeral n
        | none => .text (String.ofList (i.source.chars span))),
      (.raw, .text (String.ofList (i.source.chars span)))] := by
  refine .cons ?_ (.text .nil)
  split
  · exact fitting_numeral
  · exact fitting_text

lemma makes_moduleName (hc : Parsed.Conforming k s c) :
    Makes (moduleName i c) fun d => d.LiesIn k s ∧ d.kind ∈ [Kind.identifier, .literal] := by
  unfold moduleName
  split
  · exact (hc.make filled_stringLiteral).and
      (makes_kind (List.mem_cons_of_mem _ List.mem_cons_self))
  · exact (hc.make (.text .nil)).and (makes_kind List.mem_cons_self)

lemma makes_moduleSource (hy : y.Conforming k) :
    Makes (moduleSource i y) (Fitting k y.span (.atMost [.literal])) :=
  makes_slotFor fun _ hc =>
    ((hy.child hc).make filled_stringLiteral).and (makes_kind List.mem_cons_self)

lemma makes_required (hy : y.Conforming k) {role : String} :
    Makes (required y role) (Parsed.Conforming k y.span) := by
  unfold required
  split
  · rename_i h
    exact makes_pure (hy.child h)
  · exact makes_throw

lemma makes_valueAt (hy : y.Conforming k) (role : String) :
    Makes (valueAt y role) (Fitting k y.span .one) :=
  (makes_value fun _ h => hy.child h).bind fun _ h => makes_pure (fitting_ofOption.2 h)

lemma makes_targetAt (hy : y.Conforming k) (role : String) :
    Makes (targetAt y role) (Fitting k y.span .one) :=
  (makes_target fun _ h => hy.child h).bind fun _ h => makes_pure (fitting_ofOption.2 h)

lemma makes_firstValue (hy : y.Conforming k) : Makes (firstValue y) (Fitting k y.span .one) :=
  (makes_value fun _ h => hy.first h).bind fun _ h => makes_pure (fitting_ofOption.2 h)

lemma makes_partValues (hy : y.Conforming k) :
    Makes (values y.parts) fun ds => ∀ d ∈ ds, d.LiesIn k y.span :=
  makes_values fun _ h => hy.parts h

/-- A node that has nothing but a list of nodes is as it must be, whatever its kind is, if that is
not one of those whose parts are asked for without a further look. -/
lemma liesIn_generic {kind : Kind} {ds : List Draft} (hy : y.Conforming k)
    (hkind : k.grammatical → kind ∉ Kind.unguarded) (hds : ∀ d ∈ ds, d.LiesIn k y.span)
    (label : Nat) : Tree.LiesIn k y.span (.mk label ⟨kind, y.span, [(.nodes, .ofList ds)]⟩) := by
  have hchildren : (⟨kind, y.span, [(.nodes, .ofList ds)]⟩ : Shape Draft).children = ds := by
    simp [Shape.children]
  refine ⟨Tree.conforming_iff.2 ⟨⟨.inr ⟨_, rfl⟩, hy.nonempty, ?_, fun _ => .inl ⟨_, rfl⟩, ?_, ?_,
    ?_⟩, ?_⟩, fun _ => .refl y.span, fun _ _ => ⟨_, rfl⟩⟩
  · exact fun d hd => (hds d (hchildren ▸ hd)).inner
  · intro _ c hc
    cases hc
  · intro _ _ _ c hc
    cases hc
  · exact fun hk hunguarded => absurd hunguarded (hkind hk)
  · exact fun d hd => (hds d (hchildren ▸ hd)).conforming

lemma makes_generic (hy : y.Conforming k) (hrule : (rules i).lookup y.symbol = none) :
    Makes (generic y) (Tree.LiesIn k y.span) := by
  have hkind (hk : k.grammatical) : kindOfSymbol y.symbol ∉ Kind.unguarded :=
    kindOfSymbol_of_grammatical (hy.grammatical hk) hrule
  exact (makes_partValues hy).bind fun _ hds => makes_make fun label =>
    liesIn_generic hy hkind hds label

/-! ### Expressions -/

lemma makes_template (hy : y.Conforming k) : Makes (template i y) (Tree.LiesIn k y.span) := by
  refine (makes_values fun c h => hy.constructs (List.mem_of_mem_filter h)).bind fun ds hds =>
    hy.make (.list hds (.cons ?_ .nil))
  split
  · exact fitting_text
  · exact fitting_blank_datum

lemma makes_member (hy : y.Conforming k) : Makes (member y) (Tree.LiesIn k y.span) :=
  (makes_valueAt hy _).bind fun _ ho => (makes_valueAt hy _).bind fun _ hp =>
    hy.make (.cons ho (.cons hp (.flag (.flag .nil))))

lemma makes_subscript (hy : y.Conforming k) : Makes (subscript y) (Tree.LiesIn k y.span) :=
  (makes_valueAt hy _).bind fun _ ho => (makes_valueAt hy _).bind fun _ hp =>
    hy.make (.cons ho (.cons hp (.flag (.flag .nil))))

lemma makes_arguments (hy : y.Conforming k) : Makes (arguments y) (Fitting k y.span .many) := by
  unfold arguments
  split
  · rename_i a ha
    exact (makes_partValues (hy.child ha).layer).bind fun ds hds =>
      makes_pure (fitting_ofList.2 fun d hd => (hds d hd).mono (hy.child ha).within)
  · exact makes_pure (by simp)

lemma makes_call (hy : y.Conforming k) : Makes (call i y) (Tree.LiesIn k y.span) := by
  refine (makes_valueAt hy _).bind fun callee hcallee => ?_
  split
  · rename_i t ht
    have ht := hy.child (Option.filter_eq_some_iff.1 ht).1
    exact (ht.makes (makes_template ht.layer)).bind fun quasi hquasi =>
      hy.make (.cons hcallee (.node hquasi .nil))
  · exact (makes_arguments hy).bind fun args hargs =>
      hy.make (.cons hcallee (.cons hargs (.flag .nil)))

lemma makes_construction (hy : y.Conforming k) : Makes (construction y) (Tree.LiesIn k y.span) :=
  (makes_valueAt hy _).bind fun _ hc => (makes_arguments hy).bind fun _ ha =>
    hy.make (.cons hc (.cons ha .nil))

lemma makes_assignment (hy : y.Conforming k) : Makes (assignment y) (Tree.LiesIn k y.span) :=
  (makes_targetAt hy _).bind fun _ hl => (makes_valueAt hy _).bind fun _ hr =>
    hy.make (.text (.cons hl (.cons hr .nil)))

lemma makes_combiningAssignment (hy : y.Conforming k) :
    Makes (combiningAssignment i y) (Tree.LiesIn k y.span) :=
  makes_true.bind fun _ _ =>
    (makes_targetAt hy _).bind fun _ hl => (makes_valueAt hy _).bind fun _ hr =>
      hy.make (.text (.cons hl (.cons hr .nil)))

lemma makes_update (hy : y.Conforming k) : Makes (update i y) (Tree.LiesIn k y.span) :=
  (makes_required hy).bind fun _ _ => (makes_required hy).bind fun _ ha =>
    ha.reading.value.bind fun _ hv =>
      hy.make (.text (.flag (.option hv .nil)))

lemma makes_binary (hy : y.Conforming k) : Makes (binary i y) (Tree.LiesIn k y.span) := by
  refine makes_true.bind fun operator _ =>
    (makes_valueAt hy _).bind fun _ hl => (makes_valueAt hy _).bind fun _ hr => ?_
  split <;> exact hy.make (.cons hl (.text (.cons hr .nil)))

lemma makes_unary (hy : y.Conforming k) : Makes (unary i y) (Tree.LiesIn k y.span) :=
  makes_true.bind fun _ _ =>
    (makes_valueAt hy _).bind fun _ ha =>
      hy.make (.text (.flag (.cons ha .nil)))

lemma makes_conditional (hy : y.Conforming k) : Makes (conditional y) (Tree.LiesIn k y.span) :=
  (makes_valueAt hy _).bind fun _ ht => (makes_valueAt hy _).bind fun _ hc =>
    (makes_valueAt hy _).bind fun _ ha =>
      hy.make (.cons ht (.cons hc (.cons ha .nil)))

lemma makes_sequenceOperands (hy : y.Conforming k) :
    Makes (sequenceOperands y) fun ds => ∀ d ∈ ds, d.LiesIn k y.span :=
  (makes_mapM fun _ h => (hy.parts h).reading.operands).bind fun _ hos =>
    makes_pure fun d hd => by
      obtain ⟨ds, hds, hd⟩ := List.mem_flatten.1 hd
      exact hos ds hds d hd

lemma makes_sequence (hy : y.Conforming k) : Makes (sequence y) (Tree.LiesIn k y.span) :=
  (makes_sequenceOperands hy).bind fun _ hds =>
    hy.make (.list hds .nil)

lemma makes_await (hy : y.Conforming k) : Makes (await y) (Tree.LiesIn k y.span) :=
  (makes_firstValue hy).bind fun _ h => hy.make (.cons h .nil)

lemma makes_yield (hy : y.Conforming k) : Makes (yield y) (Tree.LiesIn k y.span) :=
  (makes_firstValue hy).bind fun _ h => hy.make (.cons h (.flag .nil))

lemma makes_spread (hy : y.Conforming k) : Makes (spread y) (Tree.LiesIn k y.span) :=
  (makes_firstValue hy).bind fun _ h => hy.make (.cons h .nil)

lemma makes_ascription (hy : y.Conforming k) : Makes (ascription y) (Tree.LiesIn k y.span) :=
  (makes_firstValue hy).bind fun _ h => hy.make (.cons h .nil)

lemma makes_presence (hy : y.Conforming k) : Makes (presence y) (Tree.LiesIn k y.span) :=
  (makes_firstValue hy).bind fun _ h => hy.make (.cons h .nil)

/-! ### Statements -/

/-- A program conforms wherever it stands, but need not lie inside its range. -/
lemma makes_program (hy : y.Conforming k) : Makes (program i y) (Tree.Conforming k) := by
  have hspan : y.span.Within ⟨0, max i.source.size y.span.stop⟩ :=
    ⟨Nat.zero_le _, Nat.le_max_right ..⟩
  refine (makes_partValues hy).bind fun ds h => makes_make fun _ => conforming_mk ?_ ?_ ?_ ?_
  · intro hk
    have hlt := hy.nonempty hk
    exact Nat.lt_of_lt_of_le (Nat.zero_lt_of_lt hlt) (Nat.le_max_right ..)
  · exact .list (fun d hd => (h d hd).mono fun _ => hspan) (.text .nil)
  · intro hk
    cases hk
  · exact fun hk => absurd hk (by decide)

lemma makes_expressionStatement (hy : y.Conforming k) :
    Makes (expressionStatement y) (Tree.LiesIn k y.span) :=
  (makes_firstValue hy).bind fun _ h => hy.make (.cons h .nil)

lemma makes_block (hy : y.Conforming k) : Makes (block y) (Tree.LiesIn k y.span) :=
  (makes_partValues hy).bind fun _ h => hy.make (.list h .nil)

lemma makes_returnStatement (hy : y.Conforming k) :
    Makes (returnStatement y) (Tree.LiesIn k y.span) :=
  (makes_firstValue hy).bind fun _ h => hy.make (.cons h .nil)

lemma makes_declaration (hy : y.Conforming k) : Makes (declaration i y) (Tree.LiesIn k y.span) := by
  have hds : Makes ((y.constructs.filter (·.symbol == "variable_declarator")).mapM declarator)
      fun ds => ∀ d ∈ ds, d.LiesIn k y.span :=
    makes_mapM fun c h => by
      have hc := hy.constructs (List.mem_of_mem_filter h)
      exact (makes_targetAt hc.layer _).bind fun _ hid =>
        (makes_valueAt hc.layer _).bind fun _ hinit =>
          hc.make (.cons hid (.cons hinit .nil))
  exact hds.bind fun _ h => hy.make (.text (.list h .nil))

lemma makes_ifStatement (hy : y.Conforming k) : Makes (ifStatement y) (Tree.LiesIn k y.span) :=
  (makes_valueAt hy _).bind fun _ ht => (makes_valueAt hy _).bind fun _ hc =>
    (makes_valueAt hy _).bind fun _ ha =>
      hy.make (.cons ht (.cons hc (.cons ha .nil)))

lemma makes_loopClause (hy : y.Conforming k) {role : String} :
    Makes (loopClause y role) (Fitting k y.span .one) := by
  unfold loopClause
  split
  · exact makes_pure (by simp)
  · rename_i c hc
    split
    · exact makes_pure (by simp)
    · exact (makes_firstValue (hy.child hc).layer).mono fun _ h => h.mono (hy.child hc).within
    · exact makes_valueAt hy _

lemma makes_forStatement (hy : y.Conforming k) : Makes (forStatement y) (Tree.LiesIn k y.span) :=
  (makes_loopClause hy).bind fun _ hi => (makes_loopClause hy).bind fun _ ht =>
    (makes_valueAt hy _).bind fun _ hu => (makes_valueAt hy _).bind fun _ hb =>
      hy.make (.cons hi (.cons ht (.cons hu (.cons hb .nil))))

lemma makes_loopTarget (hy : y.Conforming k) : Makes (loopTarget i y) (Fitting k y.span .one) := by
  unfold loopTarget
  split
  · exact makes_targetAt hy _
  · exact (makes_required hy).bind fun left hleft => hleft.self.reading.target.bind fun _ ht =>
      Makes.bind (hleft.self.make (.option ht (.blank .nil))) fun _ hd =>
        Makes.map (hleft.make (.text (.list (List.forall_mem_singleton.2 hd) .nil))) fun _ =>
          fitting_node.2

lemma makes_forEachStatement (hy : y.Conforming k) :
    Makes (forEachStatement i y) (Tree.LiesIn k y.span) := by
  refine (makes_loopTarget hy).bind fun _ hl => (makes_valueAt hy _).bind fun _ hr =>
    (makes_valueAt hy _).bind fun _ hb => ?_
  split
  · split <;> exact hy.make (.cons hl (.cons hr (.cons hb .nil)))
  · exact hy.make (.cons hl (.cons hr (.cons hb .nil)))

lemma makes_whileStatement (hy : y.Conforming k) :
    Makes (whileStatement y) (Tree.LiesIn k y.span) :=
  (makes_valueAt hy _).bind fun _ ht => (makes_valueAt hy _).bind fun _ hb =>
    hy.make (.cons ht (.cons hb .nil))

lemma makes_doStatement (hy : y.Conforming k) : Makes (doStatement y) (Tree.LiesIn k y.span) :=
  (makes_valueAt hy _).bind fun _ hb => (makes_valueAt hy _).bind fun _ ht =>
    hy.make (.cons hb (.cons ht .nil))

lemma makes_tryStatement (hy : y.Conforming k) : Makes (tryStatement y) (Tree.LiesIn k y.span) := by
  refine (makes_valueAt hy _).bind fun _ hb => (makes_valueAt hy _).bind fun _ hh => ?_
  split
  · rename_i f hf
    exact (makes_valueAt (hy.child hf).layer _).bind fun _ hv =>
      hy.make (.cons hb (.cons hh (.cons (hv.mono (hy.child hf).within) .nil)))
  · exact hy.make (.cons hb (.cons hh (.blank .nil)))

lemma makes_catchClause (hy : y.Conforming k) : Makes (catchClause y) (Tree.LiesIn k y.span) :=
  (makes_targetAt hy _).bind fun _ hp => (makes_valueAt hy _).bind fun _ hb =>
    hy.make (.cons hp (.cons hb .nil))

/-! ### Functions and classes -/

lemma makes_parameter (hc : Parsed.Conforming k s c) :
    Makes (parameter c) fun o => ∀ d ∈ o, d.LiesIn k s := by
  unfold parameter
  dsimp only
  split
  · split
    · exact makes_pure (by simp)
    · rename_i p hp
      have hp := (hc.layer.child hp).reading
      split
      · exact makes_pure (by simp)
      · split
        · exact hp.target.mono fun _ h d hd => (h d hd).mono hc.within
        · rename_i v hv
          exact hp.target.bind fun l hl => (hc.layer.child hv).reading.value.bind fun r hr =>
            makes_some (hc.make (.option hl (.option hr .nil)))
  · exact hc.reading.target

lemma makes_parameters (hy : y.Conforming k) : Makes (parameters y) (Fitting k y.span .many) := by
  unfold parameters
  split
  · exact makes_pure (by simp)
  · rename_i ps hps
    exact (makes_mapM_filterMap fun _ h => makes_parameter ((hy.child hps).layer.parts h)).bind
      fun _ hds => makes_pure (fitting_ofList.2 fun d hd => (hds d hd).mono (hy.child hps).within)

lemma makes_function (hy : y.Conforming k) {kind : Kind} {generator : Bool}
    (hk : kind = .functionDeclaration ∨ kind = .functionExpression) :
    Makes (function i kind generator y) (Tree.LiesIn k y.span) := by
  refine (makes_identifierAt hy).bind fun _ hid => (makes_parameters hy).bind fun _ hp =>
    (makes_valueAt hy _).bind fun _ hb => ?_
  rcases hk with rfl | rfl <;> exact hy.make (.cons hid (.cons hp (.cons hb (.flag (.flag .nil)))))

lemma makes_arrowFunction (hy : y.Conforming k) :
    Makes (arrowFunction y) (Tree.LiesIn k y.span) := by
  have hrest {params : Slot Draft} {isExpression : Bool}
      (hp : Fitting k y.span .sparse params) : Makes (do
        make y.span .arrowFunctionExpression
          [(.id, .blank), (.params, params), (.body, ← valueAt y "body"),
           (.expression, .flag isExpression), (.isAsync, .flag (y.hasToken "async"))])
        (Tree.LiesIn k y.span) :=
    (makes_valueAt hy _).bind fun _ hb =>
      hy.make (.blank (.cons hp (.cons hb (.flag (.flag .nil)))))
  unfold arrowFunction
  dsimp only
  split
  · rename_i p hp
    exact (hy.child hp).reading.target.bind fun o ho => hrest (by simpa [eq_comm] using ho)
  · exact (makes_parameters hy).bind fun _ hp => hrest hp.sparse

lemma makes_methodFunction (hy : y.Conforming k) :
    Makes (methodFunction y) (Tree.LiesIn k y.span) :=
  (makes_parameters hy).bind fun _ hp => (makes_valueAt hy _).bind fun _ hb =>
    hy.make (.cons fitting_blank_atMost (.cons hp (.cons hb (.flag (.flag .nil)))))

lemma makes_key (hc : Parsed.Conforming k s c) :
    Makes (key i c) fun e => ∀ d ∈ e.node, d.LiesIn k s := by
  unfold key
  split
  · exact (makes_value fun _ h => hc.layer.first h).bind fun _ h =>
      makes_pure fun d hd => (h d hd).mono hc.within
  · exact hc.reading.value.bind fun _ h => makes_pure h
  · exact hc.reading.value.bind fun _ h => makes_pure h
  · exact (hc.make (.text .nil)).bind fun d hd => makes_pure (by rintro _ ⟨⟩; exact hd)
  · exact (makes_identifier hc).bind fun d hd => makes_pure (by rintro _ ⟨⟩; exact hd.1)

lemma makes_keyAt (hy : y.Conforming k) {role : String} :
    Makes (keyAt i y role) fun e => ∀ d ∈ e.node, d.LiesIn k y.span :=
  (makes_required hy).bind fun _ hc => makes_key hc

lemma makes_property (hc : Parsed.Conforming k s c) {e : Key} {value : Slot Draft}
    {shorthand method : Bool} {kind : String} (he : ∀ d ∈ e.node, d.LiesIn k c.span)
    (hv : Fitting k c.span .one value) :
    Makes (property c.span e value shorthand method kind)
      fun d => d.LiesIn k s ∧ d.kind ∈ Kind.patternMembers :=
  Makes.and (hc.make (.option he (.cons hv (.flag (.flag (.flag (.text .nil)))))))
    (makes_kind List.mem_cons_self)

lemma makes_shorthandProperty (hc : Parsed.Conforming k s c) :
    Makes (shorthandProperty i c) fun d => d.LiesIn k s ∧ d.kind ∈ Kind.patternMembers :=
  (makes_identifier hc.self).bind fun d hd => (makes_identifier hc.self).bind fun e he =>
    makes_property hc (by rintro _ ⟨⟩; exact hd.1) (fitting_node.2 he.1)

lemma makes_methodDefinition (hy : y.Conforming k) :
    Makes (methodDefinition i y) (Tree.LiesIn k y.span) :=
  (makes_keyAt hy).bind fun _ hk => (makes_methodFunction hy).bind fun _ hf =>
    hy.make (.option hk (.flag (.node hf (.text (.flag .nil)))))

lemma makes_fieldDefinition (hy : y.Conforming k) :
    Makes (fieldDefinition i y) (Tree.LiesIn k y.span) := by
  have hrest {e : Key} (hk : ∀ d ∈ e.node, d.LiesIn k y.span) : Makes (do
      make y.span .propertyDefinition
        [(.key, .ofOption e.node), (.computed, .flag e.computed), (.value, ← valueAt y "value"),
         (.static, .flag (y.hasToken "static"))]) (Tree.LiesIn k y.span) :=
    (makes_valueAt hy _).bind fun _ hv =>
      hy.make (.option hk (.flag (.cons hv (.flag .nil))))
  unfold fieldDefinition
  dsimp only
  split
  · rename_i c hc
    exact (makes_key (hy.child hc)).bind fun _ hk => hrest hk
  · exact (makes_keyAt hy).bind fun _ hk => hrest hk

lemma makes_staticBlock (hy : y.Conforming k) : Makes (staticBlock y) (Tree.LiesIn k y.span) := by
  unfold staticBlock
  dsimp only
  split
  · rename_i b hb
    exact (makes_partValues (hy.child hb).layer).bind fun _ h =>
      hy.make (.list (fun d hd => (h d hd).mono (hy.child hb).within) .nil)
  · exact hy.make (.list (by simp) .nil)

lemma makes_classMember (hc : Parsed.Conforming k s c) :
    Makes (classMember i c) fun o => ∀ d ∈ o, d.LiesIn k s := by
  unfold classMember
  split
  · exact makes_some (hc.makes (makes_methodDefinition hc.layer))
  · exact makes_some (hc.makes (makes_fieldDefinition hc.layer))
  · exact makes_some (hc.makes (makes_fieldDefinition hc.layer))
  · exact makes_some (hc.makes (makes_staticBlock hc.layer))
  · exact hc.reading.value

lemma makes_heritageValue (hc : Parsed.Conforming k s c) :
    Makes (heritageValue c) fun o => ∀ d ∈ o, d.LiesIn k s := by
  unfold heritageValue
  split
  · have hwithin : ∀ o : Option Draft, (∀ d ∈ o, d.LiesIn k c.span) → ∀ d ∈ o, d.LiesIn k s :=
      fun _ h d hd => (h d hd).mono hc.within
    split
    · rename_i v hv
      exact (hc.layer.child hv).reading.value.mono hwithin
    · exact (makes_value fun _ h => hc.layer.first h).mono hwithin
  · exact hc.reading.value

lemma makes_superClass (hy : y.Conforming k) : Makes (superClass y) (Fitting k y.span .one) := by
  unfold superClass
  split
  · exact makes_pure (by simp)
  · rename_i h hh
    refine (makes_mapM fun c hc => makes_heritageValue ((hy.construct hh).layer.parts hc)).bind
      fun os hos => makes_pure (fitting_ofOption.2 ?_)
    cases hlast : os.getLast? with
    | none => simp
    | some o =>
      exact fun d hd => (hos o (List.mem_of_getLast? hlast) d hd).mono (hy.construct hh).within

lemma makes_classBody (hy : y.Conforming k) : Makes (classBody i y) (Tree.LiesIn k y.span) := by
  unfold classBody
  split
  · rename_i b hb
    exact (makes_mapM_filterMap fun c hc => makes_classMember ((hy.child hb).layer.parts hc)).bind
      fun _ h => (hy.child hb).make (.list h .nil)
  · exact hy.make (.cons fitting_nil .nil)

lemma makes_classNode (hy : y.Conforming k) {kind : Kind}
    (hk : kind = .classDeclaration ∨ kind = .classExpression) :
    Makes (classNode i kind y) (Tree.LiesIn k y.span) := by
  refine (makes_superClass hy).bind fun _ ha => (makes_classBody hy).bind fun _ hb =>
    (makes_identifierAt hy).bind fun _ hid => ?_
  rcases hk with rfl | rfl <;> exact hy.make (.cons hid (.cons ha (.node hb .nil)))

/-! ### Objects and patterns -/

lemma makes_objectMember (hc : Parsed.Conforming k s c) :
    Makes (objectMember i c) fun o => ∀ d ∈ o, d.LiesIn k s := by
  have hleft {x : Making Draft} (h : Makes x fun d => d.LiesIn k s ∧ d.kind ∈ Kind.patternMembers) :
      Makes (some <$> x) fun o => ∀ d ∈ o, d.LiesIn k s :=
    makes_some (h.mono fun _ hd => hd.1)
  unfold objectMember
  split
  · exact (makes_keyAt hc.layer).bind fun e he => (makes_valueAt hc.layer _).bind fun v hv =>
      hleft (makes_property hc he hv)
  · exact hleft (makes_shorthandProperty hc)
  · exact (makes_keyAt hc.layer).bind fun e he => (makes_methodFunction hc.layer).bind fun f hf =>
      hleft (makes_property hc he (fitting_node.2 hf))
  · exact hc.reading.value

lemma makes_object (hy : y.Conforming k) : Makes (object i y) (Tree.LiesIn k y.span) :=
  (makes_mapM_filterMap fun _ hc => makes_objectMember (hy.parts hc)).bind fun _ h =>
    hy.make (.list h .nil)

lemma makes_array (hy : y.Conforming k) : Makes (array y) (Tree.LiesIn k y.span) :=
  (makes_partValues hy).bind fun _ h => hy.make (.list h .nil)

lemma makes_assignmentPattern (hy : y.Conforming k) :
    Makes (assignmentPattern y) (Tree.LiesIn k y.span) :=
  (makes_targetAt hy _).bind fun _ hl => (makes_valueAt hy _).bind fun _ hr =>
    hy.make (.cons hl (.cons hr .nil))

lemma makes_patternMember (hc : Parsed.Conforming k s c) :
    Makes (patternMember i c) fun o => ∀ d ∈ o, d.LiesIn k s ∧ d.kind ∈ Kind.patternMembers := by
  have hpair : Makes (do
      let e ← keyAt i c.layer "key"
      some <$> property c.span e (← targetAt c.layer "value") false false "init")
      fun o => ∀ d ∈ o, d.LiesIn k s ∧ d.kind ∈ Kind.patternMembers :=
    (makes_keyAt hc.layer).bind fun e he => (makes_targetAt hc.layer _).bind fun v hv =>
      makes_some (makes_property hc he hv)
  have hrest (h : c.IsRest) : Makes c.label.target
      fun o => ∀ d ∈ o, d.LiesIn k s ∧ d.kind ∈ Kind.patternMembers := by
    refine (hc.reading.target.and (hc.rest h)).mono fun o ho d hd => ⟨ho.1 d hd, ?_⟩
    rw [ho.2 d hd]
    decide
  have hdefault {key : Option Draft} (hkey : ∀ d ∈ key, d.LiesIn k c.span) : Makes (do
      some <$> property c.span ⟨key, false⟩ (.node (← assignmentPattern c.layer)) true false "init")
      fun o => ∀ d ∈ o, d.LiesIn k s ∧ d.kind ∈ Kind.patternMembers :=
    (makes_assignmentPattern hc.layer).bind fun v hv =>
      makes_some (makes_property hc hkey (fitting_node.2 hv))
  unfold patternMember
  split
  · exact hpair
  · exact hpair
  · exact makes_some (makes_shorthandProperty hc)
  · exact makes_some (makes_shorthandProperty hc)
  · refine (makes_required hc.layer).bind fun left hleft => ?_
    dsimp only
    split
    · exact (makes_some (makes_identifier hleft)).bind fun o ho =>
        hdefault fun d hd => (ho d hd).1
    · exact hdefault (by simp)
  · rename_i h
    exact hrest (.inl h)
  · rename_i h
    exact hrest (.inr h)
  · exact makes_pure (by simp)

lemma makes_objectPattern (hy : y.Conforming k) :
    Makes (objectPattern i y) (Tree.LiesIn k y.span) := by
  refine (makes_mapM_filterMap fun _ hc => makes_patternMember (hy.parts hc)).bind
    fun os hmembers => makes_make fun _ => ?_
  refine ⟨conforming_mk hy.nonempty (.list (fun d hd => (hmembers d hd).1) .nil)
    (fun _ d hd => ?_) (fun hk => absurd hk (by decide)), fun _ => .refl y.span,
    fun _ hk => by cases hk⟩
  exact (hmembers d (by simpa [Slot.ofList, Slot.children, List.filterMap_map] using hd)).2

lemma makes_arrayPattern (hy : y.Conforming k) : Makes (arrayPattern y) (Tree.LiesIn k y.span) :=
  (makes_mapM fun _ hc => (hy.parts hc).reading.target).bind fun _ hos =>
    hy.make (.cons (fitting_sparse.2 fun d hd => hos (some d) hd d rfl) .nil)

lemma makes_restElement (hy : y.Conforming k) : Makes (restElement y) (Tree.LiesIn k y.span) :=
  (makes_target fun _ h => hy.first h).bind fun _ h =>
    hy.make (.option h .nil)

lemma makes_readTarget (hy : y.Conforming k) {value : Making (Option Draft)}
    (hv : Makes value fun o => ∀ d ∈ o, d.LiesIn k y.span) :
    Makes (readTarget i y value) fun o => ∀ d ∈ o, d.LiesIn k y.span := by
  have hname : Makes (some <$> make y.span .identifier [(.name, .text (i.source.text y.span))])
      fun o => ∀ d ∈ o, d.LiesIn k y.span :=
    makes_some (hy.make (.text .nil))
  unfold readTarget
  split
  case h_1 | h_2 | h_3 | h_4 => exact hname
  case h_5 | h_6 => exact makes_some (makes_objectPattern hy)
  case h_7 | h_8 => exact makes_some (makes_arrayPattern hy)
  case h_9 | h_10 => exact makes_some (makes_assignmentPattern hy)
  case h_11 | h_12 => exact makes_some (makes_restElement hy)
  case h_13 => exact makes_target fun _ h => hy.first h
  case h_14 => exact hv

/-! ### Modules -/

lemma makes_importSpecifier (hc : Parsed.Conforming k s c) :
    Makes (importSpecifier i c) (Tree.LiesIn k s) :=
  (makes_required hc.layer).bind fun _ hname => (makes_moduleName hname).bind fun _ himported =>
    (makes_identifier (hc.layer.otherName hname)).bind fun _ hlocal =>
      hc.make (.exactly himported.1 himported.2 (.exactly hlocal.1 hlocal.2 .nil))

lemma makes_importSpecifiers (hc : Parsed.Conforming k s c) :
    Makes (importSpecifiers i c) fun ds => ∀ d ∈ ds, d.LiesIn k s := by
  unfold importSpecifiers
  split
  · exact (makes_identifier hc.self).bind fun _ h => Makes.bind (hc.make (.exactly h.1 h.2 .nil))
      fun _ hd => makes_pure (List.forall_mem_singleton.2 hd)
  · split
    · rename_i l hl
      exact (makes_identifier (hc.layer.first hl)).bind fun _ h =>
        Makes.bind (hc.make (.exactly h.1 h.2 .nil))
          fun _ hd => makes_pure (List.forall_mem_singleton.2 hd)
    · exact makes_throw
  · refine (makes_mapM fun d hd => makes_importSpecifier
      (hc.layer.constructs (List.mem_of_mem_filter hd))).mono fun ds hds d hd => ?_
    exact (hds d hd).mono hc.within
  · exact makes_pure (by simp)

lemma makes_importStatement (hy : y.Conforming k) :
    Makes (importStatement i y) (Tree.LiesIn k y.span) := by
  have hnames {ds : List Draft} (hds : ∀ d ∈ ds, d.LiesIn k y.span) : Makes (do
      make y.span .importDeclaration
        [(.specifiers, .ofList ds), (.source, ← moduleSource i y)]) (Tree.LiesIn k y.span) :=
    (makes_moduleSource hy).bind fun _ hs => hy.make (.list hds (.cons hs .nil))
  unfold importStatement
  dsimp only
  split
  · rename_i c hc
    refine (makes_mapM fun d hd => makes_importSpecifiers
      ((hy.construct hc).layer.constructs hd)).bind fun dss hdss => hnames fun d hd => ?_
    obtain ⟨ds, hds, hd⟩ := List.mem_flatten.1 hd
    exact (hdss ds hds d hd).mono (hy.construct hc).within
  · exact hnames (by simp)

lemma makes_exportSpecifier (hc : Parsed.Conforming k s c) :
    Makes (exportSpecifier i c) (Tree.LiesIn k s) :=
  (makes_required hc.layer).bind fun _ hname => (makes_moduleName hname).bind fun _ hlocal =>
    (makes_moduleName (hc.layer.otherName hname)).bind fun _ hexported =>
      hc.make (.exactly hlocal.1 hlocal.2 (.exactly hexported.1 hexported.2 .nil))

lemma makes_exportStatement (hy : y.Conforming k) :
    Makes (exportStatement i y) (Tree.LiesIn k y.span) := by
  have hnames {ds : List Draft} (hds : ∀ d ∈ ds, d.LiesIn k y.span) : Makes (do
      make y.span .exportNamedDeclaration
        [(.declaration, ← valueAt y "declaration"), (.specifiers, .ofList ds),
         (.source, ← moduleSource i y)]) (Tree.LiesIn k y.span) :=
    (makes_valueAt hy _).bind fun _ hd => (makes_moduleSource hy).bind fun _ hs =>
      hy.make (.cons hd (.list hds (.cons hs .nil)))
  unfold exportStatement
  dsimp only
  split
  · refine (makes_value fun c hc => ?_).bind fun _ h => hy.make (.option h .nil)
    cases hd : y.child? "declaration" with
    | none => exact hy.child (by simpa [hd] using hc)
    | some d => exact hy.child (hd.trans (by simpa [hd] using hc))
  · split
    · exact (makes_moduleSource hy).bind fun _ hs => hy.make (.cons hs .nil)
    · split
      · rename_i c hc
        exact (makes_mapM fun d hd => makes_exportSpecifier
          ((hy.construct hc).layer.constructs (List.mem_of_mem_filter hd))).bind
            fun _ hds => hnames fun d hd => (hds d hd).mono (hy.construct hc).within
      · exact hnames (by simp)

lemma makes_enumMember (hc : Parsed.Conforming k s c) :
    Makes (enumMember i c) (Tree.LiesIn k s) := by
  unfold enumMember
  split
  · split
    · exact makes_throw
    · rename_i n hn
      have hn : Parsed.Conforming k c.span n := by
        cases hname : c.layer.child? "name" with
        | none => exact hc.layer.first (by simpa [hname] using hn)
        | some m => exact hc.layer.child (hname.trans (by simpa [hname] using hn))
      exact (makes_key hn).bind fun _ hk => (makes_valueAt hc.layer _).bind fun _ hv =>
        hc.make (.option hk (.cons hv .nil))
  · exact (makes_key hc.self).bind fun _ hk => hc.make (.option hk (.blank .nil))

lemma makes_enumDeclaration (hy : y.Conforming k) :
    Makes (enumDeclaration i y) (Tree.LiesIn k y.span) := by
  have hmembers {ds : List Draft} (hds : ∀ d ∈ ds, d.LiesIn k y.span) : Makes (do
      make y.span .tsEnumDeclaration
        [(.id, ← identifierAt i y "name"), (.members, .ofList ds),
         (.isConst, .flag (y.hasToken "const"))]) (Tree.LiesIn k y.span) :=
    (makes_identifierAt hy).bind fun _ hid => hy.make (.cons hid (.list hds (.flag .nil)))
  unfold enumDeclaration
  dsimp only
  split
  · rename_i b hb
    exact (makes_mapM fun d hd => makes_enumMember ((hy.child hb).layer.parts hd)).bind fun _ h =>
      hmembers fun d hd => (h d hd).mono (hy.child hb).within
  · exact hmembers (by simp)

lemma makes_namespaceDeclaration (hy : y.Conforming k) :
    Makes (namespaceDeclaration i y) (Tree.LiesIn k y.span) := by
  refine (makes_slotFor fun c hc => ?_).bind fun _ hid => (makes_valueAt hy _).bind fun _ hb =>
    hy.make (.cons hid (.cons hb .nil))
  exact makes_identifier (hy.child (Option.filter_eq_some_iff.1 hc).1)

/-! ### Markup elements -/

lemma makes_nameEnds (hy : y.Conforming k) : Makes (nameEnds y) fun e =>
    Parsed.Conforming k y.span e.1 ∧ Parsed.Conforming k y.span e.2 := by
  unfold nameEnds
  split
  · rename_i a b ha hb
    exact makes_pure ⟨hy.parts (List.mem_of_head? ha), hy.parts (List.mem_of_getLast? hb)⟩
  · exact makes_throw

/-- The draft is that of a name in a markup element. -/
def IsNameIn (k : Ranging) (s : Span) (d : Draft) : Prop :=
  d.LiesIn k s ∧ d.IsMarkupName

/-- What is made of two names is a name. -/
lemma makes_pairName (hy : y.Conforming k) {kind : Kind} (hkind : kind ∈ Kind.markupNames)
    {f g : Field} {a b : Draft} (ha : IsNameIn k y.span a) (hb : IsNameIn k y.span b)
    (hparts : kind.innerParts = [(f, .exactly Kind.markupNames), (g, .exactly Kind.markupNames)]) :
    Makes (make y.span kind [(f, .node a), (g, .node b)]) (IsNameIn k y.span) := by
  refine Makes.and (hy.make ?_) (makes_make fun _ => Tree.isMarkupName_iff.2 ⟨hkind, ?_⟩)
  · rw [hparts]
    exact .exactly ha.1 ha.2.kind_mem (.exactly hb.1 hb.2.kind_mem .nil)
  · intro c hc
    rcases List.mem_pair.1 hc with rfl | rfl
    · exact ha.2
    · exact hb.2

lemma makes_memberName {a b : Parsed} (hy : y.Conforming k) (ha : Parsed.Conforming k y.span a)
    (hb : Parsed.Conforming k y.span b) : Makes (do
      make y.span .jsxMemberExpression
        [(.object, .node (← a.label.name)), (.property, .node (← b.label.name))])
      (IsNameIn k y.span) := by
  have hkind : Kind.jsxMemberExpression ∈ Kind.markupNames := by decide
  exact ha.reading.name.bind fun _ ho => hb.reading.name.bind fun _ hp =>
    makes_pairName hy hkind ho hp rfl

lemma makes_nestedName (hy : y.Conforming k) :
    Makes (match y.child? "object", y.child? "property" with
      | some a, some b => do
        make y.span .jsxMemberExpression
          [(.object, .node (← a.label.name)), (.property, .node (← b.label.name))]
      | _, _ => do
        let (a, b) ← nameEnds y
        make y.span .jsxMemberExpression
          [(.object, .node (← a.label.name)), (.property, .node (← b.label.name))])
      (IsNameIn k y.span) := by
  split
  · rename_i a b ha hb
    exact makes_memberName hy (hy.child ha) (hy.child hb)
  · exact (makes_nameEnds hy).bind fun _ he => makes_memberName hy he.1 he.2

lemma makes_readName (hy : y.Conforming k) : Makes (readName i y) (IsNameIn k y.span) := by
  have hspace : Kind.jsxNamespacedName ∈ Kind.markupNames := by decide
  have hplain : Kind.jsxIdentifier ∈ Kind.markupNames := by decide
  unfold readName
  dsimp only
  split
  · exact makes_nestedName hy
  · exact makes_nestedName hy
  · exact (makes_nameEnds hy).bind fun _ he => he.1.reading.name.bind fun _ ho =>
      he.2.reading.name.bind fun _ hp => makes_pairName hy hspace ho hp rfl
  · exact Makes.and (hy.make (.text .nil))
      (makes_make fun _ => Tree.isMarkupName_iff.2 ⟨hplain, nofun⟩)

/-- The part holds a name, which lies inside the construct that it is read from. -/
structure IsNameSlot (k : Ranging) (s : Span) (o : Option Parsed) (v : Slot Draft) : Prop where
  fitting : Fitting k s (.atMost Kind.markupNames) v
  names : ∀ c ∈ v.children, c.IsMarkupName
  source : k.nested → ∀ c ∈ v.children, ∃ p ∈ o, c.span.Within p.span

lemma makes_nameSlot {o : Option Parsed} (h : ∀ c ∈ o, Parsed.Conforming k s c) :
    Makes (nameSlot o) (IsNameSlot k s o) := by
  cases o with
  | none => exact makes_pure ⟨fitting_blank_atMost, nofun, nofun⟩
  | some p =>
    refine (h p rfl).self.reading.name.bind fun d hd => makes_pure ⟨?_, ?_, ?_⟩
    · exact fitting_atMost (o := some d)
        (by simpa using ⟨hd.1.mono (h p rfl).within, hd.2.kind_mem⟩)
    · exact List.forall_mem_singleton.2 hd.2
    · exact fun hk => List.forall_mem_singleton.2 ⟨p, rfl, hd.1.inner.within hk⟩

/-- The draft stands beside a name, and does not overlap it. -/
structure IsBeside (k : Ranging) (s : Span) (v : Slot Draft) (d : Draft) : Prop where
  liesIn : d.LiesIn k s
  apart : k.nested → k.ordered → ∀ e ∈ v.children, d.span.Apart e.span

/-- What is read from a component apart from the name is apart from the name. -/
lemma IsNameSlot.makes_value {o : Option Parsed} {v : Slot Draft} (hv : IsNameSlot k s o v)
    (hc : Parsed.Conforming k s c) (hapart : k.ordered → ∀ p ∈ o, c.span.Apart p.span) :
    Makes c.label.value fun o => ∀ d ∈ o, IsBeside k s v d := by
  refine hc.self.reading.value.mono fun _ ho d hd => ⟨(ho d hd).mono hc.within, ?_⟩
  intro hnested hordered e he
  obtain ⟨p, hp, hwithin⟩ := hv.source hnested e he
  exact (hapart hordered p hp).mono ((ho d hd).inner.within hnested) hwithin

/-- Attributes do not start where the name does, so that none of them overlaps it. -/
lemma makes_attributes (hy : y.Conforming k) {v : Slot Draft}
    (hv : IsNameSlot k y.span (y.child? "name") v) :
    Makes (attributes y) fun ds => ∀ d ∈ ds, IsBeside k y.span v d := by
  refine (makes_mapM_filterMap fun c hc => ?_).bind fun _ h => makes_pure h
  obtain ⟨hc, hstart⟩ := List.mem_filter.1 hc
  refine hv.makes_value (hy.parts hc) fun hordered p hp => ?_
  have hne : c.span.start ≠ p.span.start := by
    rw [Option.mem_def.1 hp] at hstart
    simpa using hstart
  exact hy.apart hordered (Layer.mem_of_parts hc)
    (List.mem_of_find?_eq_some hp) hne

lemma makes_openingTag (hy : y.Conforming k) {selfClosing : Bool} :
    Makes (openingTag selfClosing y) (Tree.LiesIn k y.span) := by
  refine (makes_nameSlot fun _ h => hy.child h).bind fun v hv =>
    (makes_attributes hy hv).bind fun ds hds => ?_
  refine hy.makeNamed (by decide) (.cons hv.fitting (.list (fun d hd => (hds d hd).1) (.flag .nil)))
    hv.names fun hk hordered e he d hd => (hds d ?_).apart hk hordered e he
  simpa [Slot.ofList, Slot.children, List.filterMap_map] using hd

lemma makes_closingTag (hy : y.Conforming k) : Makes (closingTag y) (Tree.LiesIn k y.span) :=
  (makes_nameSlot fun _ h => hy.child h).bind fun _ hv =>
    hy.makeNamed (by decide) (.cons hv.fitting .nil) hv.names nofun

lemma makes_emptyElement (hy : y.Conforming k) : Makes (emptyElement y) (Tree.LiesIn k y.span) :=
  (makes_openingTag hy).bind fun _ ho =>
    hy.make (.node ho (.cons fitting_nil (.blank .nil)))

/-- The components of an element that have been read so far conform. -/
structure ElementParts.Conforming (k : Ranging) (s : Span) (e : ElementParts) : Prop where
  opening : Fitting k s .one e.opening
  content : ∀ d ∈ e.content, d.LiesIn k s
  closing : Fitting k s .one e.closing

lemma makes_add (hc : Parsed.Conforming k s c) {e : ElementParts} (he : e.Conforming k s) :
    Makes (e.add c) (ElementParts.Conforming k s) := by
  unfold ElementParts.add
  split
  · exact (hc.makes (makes_openingTag hc.layer)).bind fun _ h =>
      makes_pure ⟨fitting_node.2 h, he.2, he.3⟩
  · exact (hc.makes (makes_closingTag hc.layer)).bind fun _ h =>
      makes_pure ⟨he.1, he.2, fitting_node.2 h⟩
  · refine hc.reading.value.bind fun o ho => makes_pure ⟨he.1, fun d hd => ?_, he.3⟩
    rcases List.mem_append.1 hd with hd | hd
    · exact he.2 d hd
    · exact ho d (Option.mem_toList.1 hd)

lemma makes_element (hy : y.Conforming k) : Makes (element y) (Tree.LiesIn k y.span) :=
  (makes_foldlM (fun _ _ hc he => makes_add (hy.parts hc) he) ⟨by simp, by simp, by simp⟩).bind
    fun _ he => hy.make (.cons he.1 (.list he.2 (.cons he.3 .nil)))

lemma makes_elementAttribute (hy : y.Conforming k) :
    Makes (elementAttribute y) (Tree.LiesIn k y.span) := by
  refine (makes_nameSlot fun _ h => hy.parts (List.mem_of_head? h)).bind fun v hv =>
    Makes.bind (P := fun o => ∀ d ∈ o, IsBeside k y.span v d) ?_ fun o ho => ?_
  · cases hvalue : y.parts[1]? with
    | none => exact makes_pure (by simp)
    | some c =>
      refine hv.makes_value (hy.parts (List.mem_of_getElem? hvalue)) fun hordered p hp => ?_
      have hpairwise : y.parts.Pairwise Concrete.Precedes :=
        ((hy.ordered hordered).filter _).filter _
      obtain ⟨rest, hrest⟩ := List.head?_eq_some_iff.1 hp
      rw [hrest] at hvalue hpairwise
      have hmem : c ∈ rest := List.mem_of_getElem? (i := 0) hvalue
      exact .inr (List.rel_of_pairwise_cons hpairwise hmem)
  · refine hy.makeNamed (by decide) (.cons hv.fitting (.option (fun d hd => (ho d hd).1) .nil))
      hv.names fun hk hordered e he d hd => (ho d ?_).apart hk hordered e he
    cases o with
    | none => cases hd
    | some d => exact (List.mem_singleton.1 hd) ▸ rfl

lemma makes_braces (hy : y.Conforming k) : Makes (braces y) (Tree.LiesIn k y.span) := by
  unfold braces
  split
  · rename_i s hs
    have hs := hy.first (Option.filter_eq_some_iff.1 hs).1
    exact (makes_firstValue hs.layer).bind fun _ h =>
      hy.make (.cons (h.mono hs.within) .nil)
  · exact (makes_firstValue hy).bind fun _ h =>
      hy.make (.cons h .nil)

/-! ### All rules -/

/-- The rule reads constructs with conforming components as conforming nodes inside them. -/
def Rule.Conforms (k : Ranging) (rule : Rule) : Prop :=
  ∀ y : Layer Parsed, y.Conforming k → Makes (rule y) fun o => ∀ d ∈ o, d.LiesIn k y.span

lemma conforms_always {f : Layer Parsed → Making Draft}
    (h : ∀ y : Layer Parsed, y.Conforming k → Makes (f y) (Tree.LiesIn k y.span)) :
    Rule.Conforms k (always f) :=
  fun y hy => makes_some (h y hy)

lemma conforms_transparent : Rule.Conforms k transparent :=
  fun _ hy => makes_value fun _ h => hy.first h

/-- The rule for a leaf, given its parts. -/
lemma conforms_leaf {kind : Kind} {fields : Layer Parsed → List (Field × Slot Draft)}
    (h : ∀ y, Filled k y.span kind.innerParts (fields y)) :
    Rule.Conforms k (always fun y => make y.span kind (fields y)) :=
  conforms_always fun y hy => hy.make (h y)

lemma conforms_nameRule : Rule.Conforms k (nameRule i) := conforms_leaf fun _ => .text .nil

/-- Every rule but that for programs. -/
lemma conforms_rules {e : String × Rule} (h : e ∈ (rules i).tail) : e.2.Conforms k := by
  revert e
  simp only [rules, List.tail_cons, List.forall_mem_cons]
  refine ⟨conforms_always fun _ => makes_expressionStatement,
    conforms_always fun _ => makes_declaration, conforms_always fun _ => makes_declaration,
    conforms_nameRule, conforms_nameRule, conforms_nameRule, conforms_nameRule,
    conforms_leaf fun _ => .text .nil,
    conforms_leaf fun _ => .nil,
    conforms_leaf fun _ => .nil,
    conforms_leaf fun _ => filled_stringLiteral,
    conforms_leaf fun _ => filled_numberLiteral,
    conforms_leaf fun _ => .flag (.text .nil),
    conforms_leaf fun _ => .flag (.text .nil),
    conforms_leaf fun _ => .cons fitting_blank_datum (.text .nil),
    conforms_leaf fun _ => .cons fitting_blank_datum (.text .nil),
    conforms_always fun _ => makes_template,
    conforms_transparent, conforms_transparent, conforms_transparent,
    conforms_always fun _ => makes_member, conforms_always fun _ => makes_subscript,
    conforms_always fun _ => makes_call, conforms_always fun _ => makes_construction,
    conforms_always fun _ => makes_assignment, conforms_always fun _ => makes_combiningAssignment,
    conforms_always fun _ => makes_update, conforms_always fun _ => makes_binary,
    conforms_always fun _ => makes_unary, conforms_always fun _ => makes_conditional,
    conforms_always fun _ => makes_sequence, conforms_always fun _ => makes_await,
    conforms_always fun _ => makes_yield, conforms_always fun _ => makes_object,
    conforms_always fun _ => makes_array, conforms_always fun _ => makes_spread,
    conforms_always fun _ hy => makes_function hy (.inl rfl),
    conforms_always fun _ hy => makes_function hy (.inl rfl),
    conforms_always fun _ hy => makes_function hy (.inr rfl),
    conforms_always fun _ hy => makes_function hy (.inr rfl),
    conforms_always fun _ hy => makes_function hy (.inr rfl),
    conforms_always fun _ => makes_arrowFunction, conforms_always fun _ => makes_block,
    conforms_always fun _ => makes_returnStatement, conforms_always fun _ => makes_ifStatement,
    conforms_always fun _ => makes_forStatement, conforms_always fun _ => makes_forEachStatement,
    conforms_always fun _ => makes_whileStatement, conforms_always fun _ => makes_doStatement,
    conforms_always fun _ => makes_tryStatement, conforms_always fun _ => makes_catchClause,
    conforms_always fun _ hy => makes_classNode hy (.inl rfl),
    conforms_always fun _ hy => makes_classNode hy (.inl rfl),
    conforms_always fun _ hy => makes_classNode hy (.inr rfl),
    conforms_always fun _ => makes_importStatement, conforms_always fun _ => makes_exportStatement,
    conforms_always fun _ => makes_ascription, conforms_always fun _ => makes_ascription,
    conforms_always fun _ => makes_presence, conforms_always fun _ => makes_enumDeclaration,
    conforms_always fun _ => makes_namespaceDeclaration,
    conforms_always fun _ => makes_namespaceDeclaration,
    conforms_always fun _ => makes_element, conforms_always fun _ => makes_emptyElement,
    conforms_always fun _ hy => makes_openingTag hy, conforms_always fun _ => makes_closingTag,
    conforms_always fun _ => makes_elementAttribute, conforms_always fun _ => makes_braces,
    conforms_leaf fun _ => .text .nil, by simp⟩

/-- As a value, a construct other than a program lies inside its range. -/
lemma makes_readValue (hy : y.Conforming k) (h : y.symbol ≠ "program") :
    Makes (readValue i y) fun o => ∀ d ∈ o, d.LiesIn k y.span := by
  unfold readValue
  have hlookup : (rules i).lookup y.symbol = (rules i).tail.lookup y.symbol := by
    rw [rules, List.lookup_cons, beq_false_of_ne h]
    rfl
  cases hrule : (rules i).lookup y.symbol with
  | none => exact makes_some (makes_generic hy hrule)
  | some rule =>
    rw [hlookup] at hrule
    obtain ⟨l₁, l₂, hl, -⟩ := List.lookup_eq_some_iff.1 hrule
    exact conforms_rules (hl ▸ List.mem_append_right l₁ List.mem_cons_self) y hy

/-- As a value, every construct reads as conforming nodes. -/
lemma makes_readValue_conforming (hy : y.Conforming k) :
    Makes (readValue i y) fun o => ∀ d ∈ o, d.Conforming k := by
  by_cases h : y.symbol = "program"
  · have hrule : (rules i).lookup y.symbol = some (always (program i)) := by
      rw [h]
      rfl
    unfold readValue
    rw [hrule]
    exact (makes_program hy).map fun d hd e he => by
      cases he
      exact hd
  · exact (makes_readValue hy h).mono fun o ho d hd => (ho d hd).conforming

/-- What stands for the rest of what a pattern takes apart is read as such. -/
lemma makes_target_rest (h : y.symbol = "rest_pattern" ∨ y.symbol = "spread_element") :
    Makes (read i y).target fun o => ∀ d ∈ o, d.kind = .restElement := by
  have hrest : Makes (some <$> restElement y) fun o => ∀ d ∈ o, d.kind = .restElement :=
    makes_some (makes_true.bind fun _ _ => makes_make fun _ => rfl)
  unfold read
  split
  · exact makes_pure (by simp)
  · dsimp only
    unfold readTarget
    rcases h with h | h <;> rw [h] <;> exact hrest

lemma conforms_read (hy : y.Conforming k) (h : k.nested ∨ k.sole → y.symbol ≠ "program") :
    (read i y).Conforms k y.span := by
  have hvalue : Makes (readValue i y) fun o => ∀ d ∈ o, d.LiesIn k y.span := by
    by_cases hsymbol : y.symbol = "program"
    · have hnot : ¬(k.nested ∨ k.sole) := fun hk => h hk hsymbol
      exact (makes_readValue_conforming hy).mono fun o ho d hd =>
        ⟨ho d hd, fun hk => absurd (.inl hk) hnot, fun hk => absurd (.inr hk) hnot⟩
    · exact makes_readValue hy hsymbol
  unfold read
  split
  · exact ⟨makes_pure (by simp), makes_pure (by simp), makes_readName hy, makes_pure (by simp)⟩
  · refine ⟨hvalue, makes_readTarget hy hvalue, makes_readName hy, ?_⟩
    unfold readOperands
    split
    · exact makes_sequenceOperands hy
    · exact hvalue.map fun o ho d hd => ho d (Option.mem_toList.1 hd)

end Rules

lemma span_annotate {i : Input} (c : Concrete Unit) : (c.annotate (read i)).span = c.span := by
  rw [Concrete.span, Concrete.layer_annotate]
  rfl

/-- A concrete tree with its readings conforms, in what stands below its root, to what its ranges
allow. -/
lemma conforming_layer {i : Input} (c : Concrete Unit) (hnested : k.nested → c.NestedRanges)
    (hnonempty : k.nonempty → c.NonemptyRanges) (hsole : k.sole → c.SoleProgram)
    (hordered : k.ordered → c.OrderedRanges) (hgrammar : k.grammatical → c.Grammatical) :
    Layer.Conforming k (c.layer.map (Concrete.annotate (read i))) := by
  induction c using Concrete.induction with
  | step c ih =>
    refine ⟨fun hk => hnonempty hk c .refl, fun hk => ?_, fun hk => hgrammar hk c .refl,
      fun d hd => ?_⟩
    · exact List.pairwise_map.2 ((hordered hk c .refl).imp fun {d e} h => by
        rwa [Concrete.Precedes, span_annotate, span_annotate])
    obtain ⟨e, he, rfl⟩ := List.mem_map.1 hd
    have hbelow {u : Concrete Unit} (hu : e.Contains u) : c.Contains u := .head he hu
    have hy := ih e he (fun hk u hu => hnested hk u (hbelow hu))
      (fun hk u hu => hnonempty hk u (hbelow hu)) (fun hk u hu => hsole hk u (hbelow hu))
      (fun hk u hu => hordered hk u (hbelow hu)) fun hk u hu => hgrammar hk u (hbelow hu)
    have hspan : (e.annotate (read i)).span = e.span := span_annotate e
    refine .intro ?_ ?_ ?_ ?_ ?_ ?_ ?_
    · rw [Concrete.label_annotate, hspan]
      refine conforms_read hy fun hk => ?_
      rcases hk with hk | hk
      · exact (hnested hk c .refl e he).2
      · exact hsole hk c .refl e he
    · intro hrest
      rw [Parsed.IsRest, Concrete.symbol, Concrete.layer_annotate] at hrest
      rw [Concrete.label_annotate]
      exact makes_target_rest hrest
    · rw [hspan]
      exact fun hk => (hnested hk c .refl e he).1
    · rw [hspan]
      exact hy.nonempty
    · rw [Concrete.layer_annotate]
      exact hy.ordered
    · rw [Concrete.symbol, Concrete.layer_annotate]
      exact hy.grammatical
    · rw [Concrete.layer_annotate, hspan]
      exact hy.children

/-- **Every node that the conversion produces has the parts of its kind**, and covers what is below
it if the ranges of the concrete tree do. -/
theorem conforming_build {i : Input} {c : Concrete Unit} {n : Node} (h : build i c = .ok n) :
    n.Conforming c.ranging := by
  obtain ⟨d, hd, rfl⟩ := map_ok_iff.1 h
  rw [Tree.numbered, Tree.conforming_annotate_iff]
  obtain ⟨m, hd⟩ := draft_ok_iff.1 hd
  have hy : Layer.Conforming c.ranging (c.layer.map (Concrete.annotate (read i))) :=
    conforming_layer c id id id id id
  rw [Concrete.label_annotate, read] at hd
  split at hd
  · cases hd
  · exact makes_readValue_conforming hy 0 _ hd d rfl

/-- A concrete program is converted to a program. -/
lemma kind_build {i : Input} {c : Concrete Unit} {n : Node} (h : build i c = .ok n)
    (hc : c.symbol = "program") : n.kind = .program := by
  obtain ⟨d, hd, rfl⟩ := map_ok_iff.1 h
  obtain ⟨m, hd⟩ := draft_ok_iff.1 hd
  have hsymbol : (c.layer.map (Concrete.annotate (read i))).symbol = "program" := hc
  have hrule : (rules i).lookup "program" = some (always (program i)) := rfl
  have hprogram : Makes (always (program i) (c.layer.map (Concrete.annotate (read i))))
      fun o => ∀ d ∈ o, d.kind = .program :=
    makes_some (makes_true.bind fun _ _ => makes_make fun _ => rfl)
  rw [Concrete.label_annotate, read, hsymbol, if_neg (by decide), readValue, hsymbol, hrule] at hd
  rw [Tree.numbered, Tree.kind_annotate]
  exact hprogram 0 _ hd d rfl

end Convert

end RefFlow
