import RefFlow.Proofs.Tree.Places

/-!
# Which parts a node has

A kind does not say by itself what parts its nodes carry, so the analyses ask for a part and reckon
with its absence.  There are only two possibilities, though.  Every kind has a list of *parts*, each
of which holds one node, a list of nodes, or no node at all (`Kind.parts`).  A node *conforms* if it
carries exactly the parts of its kind, in their order, or if it stands for a construct that was not
understood, and then its only part is the list of the nodes below it (`Shape.Conforms`).

Where the ranges of a concrete tree are in order, so are the spans of the tree that it is converted
to, and where only its root is a program, no other node is one (`Shape.Covers`).  What is known
about the concrete tree is a parameter, `Ranging`.  In any case the members of an object pattern are
properties, or stand for the rest of what is taken apart, and a name in markup is a name throughout
(`Tree.IsMarkupName`).  Where children do not overlap, it has its range for itself.

That the conversion produces only such nodes is shown in `Proofs/Convert/Conforming`.  Here it is
shown that the question does not depend on labels (`Tree.conforming_annotate_iff`).
-/

namespace RefFlow

/-! ## The parts of a kind -/

/-- What a part may hold. -/
inductive Arity where
  /-- At most one node. -/
  | one
  /-- Exactly one node, of one of the given kinds. -/
  | exactly (kinds : List Kind)
  /-- At most one node, of one of the given kinds. -/
  | atMost (kinds : List Kind)
  /-- A list of nodes. -/
  | many
  /-- A list of nodes, in which places may be left empty. -/
  | sparse
  /-- No node, but a plain value. -/
  | datum
deriving DecidableEq

/-- What stands in the part is of the given sort. -/
def Slot.Fits {α : Type} : Slot (Tree α) → Arity → Prop
  | .blank, .one | .node _, .one | .blank, .atMost _ | .list _, .sparse => True
  | .node t, .exactly ks | .node t, .atMost ks => t.kind ∈ ks
  | .list ts, .many => none ∉ ts
  | .blank, .datum | .flag _, .datum | .text _, .datum | .numeral _, .datum => True
  | _, _ => False

/-- The kinds of the names of markup elements. -/
def Kind.markupNames : List Kind := [.jsxIdentifier, .jsxMemberExpression, .jsxNamespacedName]

/-- The parts of a kind, in their order.  A kind that no rule of the conversion produces has none
but the list of the nodes below. -/
def Kind.parts : Kind → List (Field × Arity)
  | .program => [(.body, .many), (.sourceType, .datum)]
  | .expressionStatement => [(.expression, .one)]
  | .blockStatement => [(.body, .many)]
  | .returnStatement => [(.argument, .one)]
  | .ifStatement => [(.test, .one), (.consequent, .one), (.alternate, .one)]
  | .forStatement => [(.init, .one), (.test, .one), (.update, .one), (.body, .one)]
  | .forInStatement | .forOfStatement => [(.left, .one), (.right, .one), (.body, .one)]
  | .whileStatement => [(.test, .one), (.body, .one)]
  | .doWhileStatement => [(.body, .one), (.test, .one)]
  | .tryStatement => [(.block, .one), (.handler, .one), (.finalizer, .one)]
  | .catchClause => [(.param, .one), (.body, .one)]
  | .variableDeclaration => [(.kind, .datum), (.declarations, .many)]
  | .variableDeclarator => [(.id, .one), (.init, .one)]
  | .functionDeclaration | .functionExpression =>
    [(.id, .atMost [.identifier]), (.params, .many), (.body, .one), (.generator, .datum),
     (.isAsync, .datum)]
  | .arrowFunctionExpression =>
    [(.id, .one), (.params, .sparse), (.body, .one), (.expression, .datum), (.isAsync, .datum)]
  | .classDeclaration | .classExpression =>
    [(.id, .atMost [.identifier]), (.superClass, .one), (.body, .one)]
  | .classBody | .staticBlock => [(.body, .many)]
  | .methodDefinition =>
    [(.key, .one), (.computed, .datum), (.value, .one), (.kind, .datum), (.static, .datum)]
  | .propertyDefinition =>
    [(.key, .one), (.computed, .datum), (.value, .one), (.static, .datum)]
  | .importDeclaration => [(.specifiers, .many), (.source, .atMost [.literal])]
  | .importSpecifier =>
    [(.imported, .exactly [.identifier, .literal]), (.localName, .exactly [.identifier])]
  | .importDefaultSpecifier | .importNamespaceSpecifier => [(.localName, .exactly [.identifier])]
  | .exportNamedDeclaration =>
    [(.declaration, .one), (.specifiers, .many), (.source, .atMost [.literal])]
  | .exportDefaultDeclaration => [(.declaration, .one)]
  | .exportAllDeclaration => [(.source, .atMost [.literal])]
  | .exportSpecifier =>
    [(.localName, .exactly [.identifier, .literal]), (.exported, .exactly [.identifier, .literal])]
  | .identifier | .privateIdentifier | .jsxIdentifier => [(.name, .datum)]
  | .thisExpression | .superExpression => []
  | .literal => [(.value, .datum), (.raw, .datum)]
  | .templateLiteral => [(.expressions, .many), (.cooked, .datum)]
  | .taggedTemplateExpression => [(.tag, .one), (.quasi, .one)]
  | .memberExpression =>
    [(.object, .one), (.property, .one), (.computed, .datum), (.optional, .datum)]
  | .callExpression => [(.callee, .one), (.arguments, .many), (.optional, .datum)]
  | .newExpression => [(.callee, .one), (.arguments, .many)]
  | .assignmentExpression => [(.operator, .datum), (.left, .one), (.right, .one)]
  | .updateExpression | .unaryExpression =>
    [(.operator, .datum), (.beforeOperand, .datum), (.argument, .one)]
  | .binaryExpression | .logicalExpression =>
    [(.left, .one), (.operator, .datum), (.right, .one)]
  | .conditionalExpression => [(.test, .one), (.consequent, .one), (.alternate, .one)]
  | .sequenceExpression => [(.expressions, .many)]
  | .awaitExpression | .spreadElement | .restElement | .jsxSpreadAttribute => [(.argument, .one)]
  | .yieldExpression => [(.argument, .one), (.delegate, .datum)]
  | .arrayExpression => [(.elements, .many)]
  | .arrayPattern => [(.elements, .sparse)]
  | .objectExpression | .objectPattern => [(.properties, .many)]
  | .property =>
    [(.key, .one), (.value, .one), (.computed, .datum), (.shorthand, .datum), (.method, .datum),
     (.kind, .datum)]
  | .assignmentPattern => [(.left, .one), (.right, .one)]
  | .tsAsExpression | .tsNonNullExpression | .jsxExpressionContainer => [(.expression, .one)]
  | .tsEnumDeclaration =>
    [(.id, .atMost [.identifier]), (.members, .many), (.isConst, .datum)]
  | .tsEnumMember => [(.id, .one), (.initializer, .one)]
  | .tsModuleDeclaration => [(.id, .atMost [.identifier]), (.body, .one)]
  | .jsxElement => [(.openingElement, .one), (.nodes, .many), (.closingElement, .one)]
  | .jsxOpeningElement =>
    [(.name, .atMost markupNames), (.attributes, .many), (.selfClosing, .datum)]
  | .jsxClosingElement => [(.name, .atMost markupNames)]
  | .jsxAttribute => [(.name, .atMost markupNames), (.value, .one)]
  | .jsxText => [(.value, .datum)]
  | .jsxMemberExpression => [(.object, .exactly markupNames), (.property, .exactly markupNames)]
  | .jsxNamespacedName => [(.namespaceName, .exactly markupNames), (.name, .exactly markupNames)]
  | .switchBody | .chainExpression | .other _ => [(.nodes, .many)]

/-- The only part of the node is the list of the nodes below it, as for a construct without a rule
of its own. -/
def Shape.IsGeneric {τ : Type} (s : Shape τ) : Prop := ∃ ts, s.fields = [(.nodes, .list ts)]

/-- The parts of the node are those of its kind, or it stands for a construct without a rule. -/
def Shape.Conforms {α : Type} (s : Shape (Tree α)) : Prop :=
  List.Forall₂ (fun part e => e.1 = part.1 ∧ e.2.Fits part.2) s.kind.parts s.fields ∨ s.IsGeneric

/-- One of the spans stops before the other one starts. -/
def Span.Apart (s t : Span) : Prop := s.stop ≤ t.start ∨ t.stop ≤ s.start

lemma Span.Apart.symm {s t : Span} (h : s.Apart t) : t.Apart s := Or.symm h

/-- What lies inside spans that are apart is apart. -/
lemma Span.Apart.mono {s s' t t' : Span} (h : s.Apart t) (hs : s'.Within s) (ht : t'.Within t) :
    s'.Apart t' := by
  rcases h with h | h
  · exact .inl (Nat.le_trans hs.2 (Nat.le_trans h ht.1))
  · exact .inr (Nat.le_trans ht.2 (Nat.le_trans h hs.1))

/-- What is known about the ranges, the root and the symbols of a concrete tree. -/
structure Ranging where
  /-- Every range lies inside that of the parent, and only the root is a program. -/
  nested : Prop
  /-- No range is empty. -/
  nonempty : Prop
  /-- Only the root is a program. -/
  sole : Prop
  /-- No node starts before its siblings on the left stop. -/
  ordered : Prop
  /-- All symbols are ones that a grammar can have. -/
  grammatical : Prop

/-- The node lies inside the span, and is no program, though it may stand for a construct without a
rule that bears this name, as far as the concrete tree allows. -/
structure Tree.Inner {α : Type} (k : Ranging) (s : Span) (t : Tree α) : Prop where
  within : k.nested → t.span.Within s
  generic : k.sole → t.kind = .program → t.shape.IsGeneric

/-- The kinds of the members of an object pattern. -/
def Kind.patternMembers : List Kind := [.property, .restElement]

/-- The kinds of what bears a name in markup: the tags of elements, and attributes. -/
def Kind.markupNamed : List Kind := [.jsxOpeningElement, .jsxClosingElement, .jsxAttribute]

/-- The kinds of nodes that are asked for their parts on the way up from a node below. -/
def Kind.unguarded : List Kind := [.callExpression, .spreadElement, .objectExpression, .property]

/-- The node and all below it are names of markup elements. -/
def Tree.IsMarkupName {α : Type} (t : Tree α) : Prop :=
  ∀ u, t.Contains u → u.kind ∈ Kind.markupNames

/-- The node covers something and the nodes right below it stand inside it, as far as the concrete
tree allows, and it has no members and no name but those of its kind. -/
structure Shape.Covers {α : Type} (k : Ranging) (s : Shape (Tree α)) : Prop where
  nonempty : k.nonempty → s.span.start < s.span.stop
  inner : ∀ c ∈ s.children, c.Inner k s.span
  members : s.kind = .objectPattern → s.IsGeneric ∨ ∀ c ∈ s.children, c.kind ∈ Kind.patternMembers
  names : s.kind ∈ Kind.markupNamed → ∀ c, s.child .name = .ok (some c) → c.IsMarkupName
  beside : s.kind ∈ Kind.markupNamed → k.nested → k.ordered → ∀ c, s.child .name = .ok (some c) →
    ∀ d ∈ s.children, d.IsMarkupName ∨ d.span.Apart c.span
  known : k.grammatical → s.kind ∈ Kind.unguarded → ¬s.IsGeneric

lemma Kind.nodup_parts (k : Kind) : (k.parts.map Prod.fst).Nodup := by
  cases k with
  | other name => exact List.pairwise_singleton _ _
  | _ => decide

namespace Shape

variable {α : Type} {s : Shape (Tree α)} {c : Tree α}

/-- Where parts have different names, each of them is found under its name. -/
lemma exists_part_of_forall₂ {parts : List (Field × Arity)} {fields : List (Field × Slot (Tree α))}
    (h : List.Forall₂ (fun part e => e.1 = part.1 ∧ e.2.Fits part.2) parts fields)
    (hnodup : (parts.map Prod.fst).Nodup) {e : Field × Slot (Tree α)} (he : e ∈ fields) :
    ∃ part ∈ parts, e.2.Fits part.2 ∧ fields.lookup part.1 = some e.2 := by
  induction h with
  | nil => cases he
  | @cons part d parts fields hd _ ih =>
    obtain ⟨f, v⟩ := d
    obtain rfl : f = part.1 := hd.1
    obtain ⟨hfresh, hnodup⟩ := List.nodup_cons.1 hnodup
    rcases List.mem_cons.1 he with rfl | he
    · exact ⟨part, List.mem_cons_self, hd.2, List.lookup_cons_self⟩
    · obtain ⟨other, hother, hfits, hlookup⟩ := ih hnodup he
      have hne : other.1 ≠ part.1 := fun heq => hfresh (heq ▸ List.mem_map_of_mem hother)
      exact ⟨other, List.mem_cons_of_mem part hother, hfits,
        by rw [List.lookup_cons, beq_false_of_ne hne]; exact hlookup⟩

/-- Where parts have different names, what is found under the name of a part fits it. -/
lemma exists_lookup_of_forall₂ {parts : List (Field × Arity)}
    {fields : List (Field × Slot (Tree α))}
    (h : List.Forall₂ (fun part e => e.1 = part.1 ∧ e.2.Fits part.2) parts fields)
    (hnodup : (parts.map Prod.fst).Nodup) {part : Field × Arity} (hpart : part ∈ parts) :
    ∃ v, fields.lookup part.1 = some v ∧ v.Fits part.2 := by
  induction h with
  | nil => cases hpart
  | @cons first d parts fields hd _ ih =>
    obtain ⟨f, v⟩ := d
    obtain rfl : f = first.1 := hd.1
    obtain ⟨hfresh, hnodup⟩ := List.nodup_cons.1 hnodup
    rcases List.mem_cons.1 hpart with rfl | hpart
    · exact ⟨v, List.lookup_cons_self, hd.2⟩
    · have hne : part.1 ≠ first.1 := fun heq => hfresh (heq ▸ List.mem_map_of_mem hpart)
      obtain ⟨w, hw, hfits⟩ := ih hnodup hpart
      exact ⟨w, by rw [List.lookup_cons, beq_false_of_ne hne]; exact hw, hfits⟩

/-- A node has no two parts of one name. -/
lemma Conforms.nodup_fields (h : s.Conforms) : (s.fields.map Prod.fst).Nodup := by
  rcases h with h | ⟨ts, hts⟩
  · have hnames : s.fields.map Prod.fst = s.kind.parts.map Prod.fst := by
      generalize s.kind.parts = parts, s.fields = fields at h
      induction h with
      | nil => rfl
      | cons head _ ih => rw [List.map_cons, List.map_cons, head.1, ih]
    exact hnames ▸ s.kind.nodup_parts
  · rw [hts]
    exact List.pairwise_singleton _ _

/-- A node has each part of its kind, or stands for a construct without a rule. -/
lemma Conforms.part (h : s.Conforms) {f : Field} {a : Arity} (hf : (f, a) ∈ s.kind.parts) :
    (∃ v, s.slot f = .ok v ∧ v.Fits a) ∨ s.IsGeneric := by
  rcases h with h | h
  · obtain ⟨v, hv, hfits⟩ := exists_lookup_of_forall₂ h s.kind.nodup_parts hf
    exact .inl ⟨v, by rw [slot, slot?, hv], hfits⟩
  · exact .inr h

/-- A part that a node has is one of its kind. -/
lemma Conforms.exists_arity (h : s.Conforms) {f : Field} {v : Slot (Tree α)} (hf : f ≠ .nodes)
    (hv : s.slot f = .ok v) : ∃ a, (f, a) ∈ s.kind.parts ∧ v.Fits a := by
  unfold slot slot? at hv
  rcases h with h | ⟨ts, hts⟩
  · split at hv
    · rename_i w hw
      obtain rfl : w = v := Except.ok.inj hv
      obtain ⟨l₁, l₂, hl, -⟩ := List.lookup_eq_some_iff.1 hw
      have hmem : (f, w) ∈ s.fields := by
        rw [hl]
        exact List.mem_append_right l₁ List.mem_cons_self
      obtain ⟨i, hi, hget⟩ := List.mem_iff_getElem.1 hmem
      have hpart := h.get (by rw [h.length_eq]; exact hi) hi
      rw [List.get_eq_getElem, List.get_eq_getElem, hget] at hpart
      obtain ⟨hfield, hfits⟩ : f = _ ∧ w.Fits _ := hpart
      exact ⟨_, hfield ▸ List.getElem_mem _, hfits⟩
    · cases hv
  · rw [hts, List.lookup_cons, beq_false_of_ne hf] at hv
    cases hv

/-- A node that has one of the parts of its kind has all nodes below it in those parts. -/
lemma Conforms.exists_part (h : s.Conforms) {f : Field} {v : Slot (Tree α)} (hf : f ≠ .nodes)
    (hv : s.slot f = .ok v) (hc : c ∈ s.children) :
    (∃ g a, (g, a) ∈ s.kind.parts ∧ a ≠ .datum ∧ s.child g = .ok (some c)) ∨
      ∃ g a ts, (g, a) ∈ s.kind.parts ∧ (a = .many ∨ a = .sparse) ∧ s.items g = .ok ts ∧
        some c ∈ ts := by
  rcases h with h | ⟨ts, hts⟩
  · obtain ⟨⟨_, w⟩, he, hcw⟩ := List.mem_flatMap.1 hc
    obtain ⟨⟨g, a⟩, hpart, hfits, hlookup⟩ := exists_part_of_forall₂ h s.kind.nodup_parts he
    have hslot : s.slot g = .ok w := by rw [slot, slot?, hlookup]
    cases w with
    | node t =>
      obtain rfl : c = t := by simpa [Slot.children] using hcw
      have ha : a ≠ .datum := by
        rintro rfl
        cases hfits
      exact .inl ⟨g, a, hpart, ha, by rw [child, hslot]; rfl⟩
    | list ts =>
      have ha : a = .many ∨ a = .sparse := by
        cases a with
        | many => exact .inl rfl
        | sparse => exact .inr rfl
        | _ => cases hfits
      exact .inr ⟨g, a, ts, hpart, ha, by rw [items, hslot]; rfl,
        by simpa [Slot.children] using hcw⟩
    | _ => cases hcw
  · rw [slot, slot?, hts, List.lookup_cons, beq_false_of_ne hf] at hv
    cases hv

end Shape

namespace Tree

variable {α β : Type}

/-- Every node of the tree has the parts of its kind, and covers what is below it. -/
def Conforming (k : Ranging) (t : Tree α) : Prop :=
  ∀ u, t.Contains u → u.shape.Conforms ∧ u.shape.Covers k

variable {k : Ranging}

lemma conforming_iff {t : Tree α} : t.Conforming k ↔
    (t.shape.Conforms ∧ t.shape.Covers k) ∧ ∀ c ∈ t.children, c.Conforming k := by
  constructor
  · exact fun h => ⟨h t (.refl t), fun c hc u hu => h u ((contains_child hc).trans hu)⟩
  · rintro ⟨ht, hc⟩ u hu
    rcases contains_iff.1 hu with rfl | ⟨c, hct, hu⟩
    · exact ht
    · exact hc c hct u hu

lemma IsMarkupName.kind_mem {t : Tree α} (h : t.IsMarkupName) : t.kind ∈ Kind.markupNames :=
  h t (.refl t)

lemma isMarkupName_iff {t : Tree α} :
    t.IsMarkupName ↔ t.kind ∈ Kind.markupNames ∧ ∀ c ∈ t.children, c.IsMarkupName := by
  constructor
  · exact fun h => ⟨h.kind_mem, fun c hc u hu => h u ((contains_child hc).trans hu)⟩
  · rintro ⟨ht, hc⟩ u hu
    rcases contains_iff.1 hu with rfl | ⟨c, hct, hu⟩
    · exact ht
    · exact hc c hct u hu

/-- Where ranges are nested, whatever a node contains lies inside it. -/
lemma Conforming.span_within {t u : Tree α} (h : t.Conforming k) (hk : k.nested)
    (hu : t.Contains u) : u.span.Within t.span := by
  induction hu with
  | refl => exact .refl _
  | @tail v w hv hw ih => exact (((h v hv).2.inner w hw).within hk).trans ih

/-! ### Labels do not matter -/

lemma fits_map {g : Tree α → Tree β} (hg : ∀ t, (g t).kind = t.kind) {v : Slot (Tree α)}
    {a : Arity} : (v.map g).Fits a ↔ v.Fits a := by
  cases v <;> cases a <;> simp [Slot.map, Slot.Fits, hg]

lemma isGeneric_map {τ σ : Type} {g : τ → σ} {s : Shape τ} :
    (s.map g).IsGeneric ↔ s.IsGeneric := by
  constructor
  · rintro ⟨ts, h⟩
    simp only [Shape.map, List.map_eq_singleton_iff, Prod.mk.injEq, Prod.exists] at h
    obtain ⟨f, v, hf, rfl, hv⟩ := h
    cases v with
    | list us => exact ⟨us, hf⟩
    | _ => cases hv
  · rintro ⟨ts, h⟩
    exact ⟨ts.map (Option.map g), by simp [Shape.map, h, Slot.map]⟩

lemma conforms_map {g : Tree α → Tree β} (hg : ∀ t, (g t).kind = t.kind) {s : Shape (Tree α)} :
    (s.map g).Conforms ↔ s.Conforms :=
  or_congr (by simp [Shape.map, List.forall₂_map_right_iff, fits_map hg]) isGeneric_map

lemma covers_map {g : Tree α → Tree β} (hkind : ∀ t, (g t).kind = t.kind)
    (hspan : ∀ t, (g t).span = t.span) (hg : ∀ t s, (g t).Inner k s ↔ t.Inner k s)
    (hname : ∀ t, (g t).IsMarkupName ↔ t.IsMarkupName) {s : Shape (Tree α)} :
    (s.map g).Covers k ↔ s.Covers k := by
  have hchildren : (∀ c ∈ (s.map g).children, c.Inner k s.span) ↔
      ∀ c ∈ s.children, c.Inner k s.span := by
    rw [Shape.children_map, List.forall_mem_map]
    exact forall₂_congr fun c _ => hg c s.span
  have hmembers : ((s.map g).IsGeneric ∨ ∀ c ∈ (s.map g).children, c.kind ∈ Kind.patternMembers) ↔
      (s.IsGeneric ∨ ∀ c ∈ s.children, c.kind ∈ Kind.patternMembers) := by
    rw [Shape.children_map, List.forall_mem_map, isGeneric_map]
    exact or_congr_right (forall₂_congr fun c _ => by rw [hkind])
  have hchild (P : Tree β → Prop) : (∀ c, (s.map g).child .name = .ok (some c) → P c) ↔
      ∀ c, s.child .name = .ok (some c) → P (g c) := by
    simp only [Shape.child_map, Fallible.map_ok_iff, Option.map_eq_some_iff]
    constructor
    · exact fun h c hc => h (g c) ⟨some c, hc, c, rfl, rfl⟩
    · rintro h _ ⟨_, hc, c, rfl, rfl⟩
      exact h c hc
  have hnames : (∀ c, (s.map g).child .name = .ok (some c) → c.IsMarkupName) ↔
      ∀ c, s.child .name = .ok (some c) → c.IsMarkupName := by
    rw [hchild]
    exact forall₂_congr fun c _ => hname c
  have hbeside : (∀ c, (s.map g).child .name = .ok (some c) →
        ∀ d ∈ (s.map g).children, d.IsMarkupName ∨ d.span.Apart c.span) ↔
      ∀ c, s.child .name = .ok (some c) →
        ∀ d ∈ s.children, d.IsMarkupName ∨ d.span.Apart c.span := by
    rw [hchild, Shape.children_map]
    simp only [List.forall_mem_map, hspan, hname]
  have hknown : ¬(s.map g).IsGeneric ↔ ¬s.IsGeneric := not_congr isGeneric_map
  constructor
  · rintro ⟨hnonempty, hinner, hkinds, hnamed, hapart, hgeneric⟩
    exact ⟨hnonempty, hchildren.1 hinner, fun hk => hmembers.1 (hkinds hk),
      fun hk => hnames.1 (hnamed hk), fun hk hn ho => hbeside.1 (hapart hk hn ho),
      fun hk hs => hknown.1 (hgeneric hk hs)⟩
  · rintro ⟨hnonempty, hinner, hkinds, hnamed, hapart, hgeneric⟩
    exact ⟨hnonempty, hchildren.2 hinner, fun hk => hmembers.2 (hkinds hk),
      fun hk => hnames.2 (hnamed hk), fun hk hn ho => hbeside.2 (hapart hk hn ho),
      fun hk hs => hknown.2 (hgeneric hk hs)⟩

section Annotate

variable (rule : Tree α → Shape (Tree β) → β)

lemma kind_annotate (t : Tree α) : (t.annotate rule).kind = t.kind := by
  rw [kind, shape_annotate, Shape.kind_map, kind]

lemma span_annotate (t : Tree α) : (t.annotate rule).span = t.span := by
  rw [span, shape_annotate, Shape.span_map, span]

lemma children_annotate (t : Tree α) :
    (t.annotate rule).children = t.children.map (annotate rule) := by
  rw [Tree.children, shape_annotate, Shape.children_map]
  rfl

lemma Contains.annotate {t u : Tree α} (h : t.Contains u) :
    (t.annotate rule).Contains (u.annotate rule) := by
  induction h with
  | refl => exact .refl _
  | @tail v w _ hw ih =>
    refine ih.trans (contains_child ?_)
    rw [children_annotate]
    exact List.mem_map_of_mem hw

lemma inner_annotate (t : Tree α) (s : Span) : (t.annotate rule).Inner k s ↔ t.Inner k s := by
  have hgeneric : (t.annotate rule).shape.IsGeneric ↔ t.shape.IsGeneric := by
    rw [shape_annotate]
    exact isGeneric_map
  constructor
  · rintro ⟨hwithin, hprogram⟩
    rw [span_annotate] at hwithin
    rw [kind_annotate, hgeneric] at hprogram
    exact ⟨hwithin, hprogram⟩
  · rintro ⟨hwithin, hprogram⟩
    refine ⟨?_, ?_⟩
    · rwa [span_annotate]
    · rwa [kind_annotate, hgeneric]

lemma isMarkupName_annotate (t : Tree α) : (t.annotate rule).IsMarkupName ↔ t.IsMarkupName := by
  induction t using Tree.induction with
  | step t ih =>
    rw [isMarkupName_iff, isMarkupName_iff, kind_annotate, children_annotate, List.forall_mem_map]
    exact and_congr_right fun _ => forall₂_congr ih

/-- Labelling the nodes of a tree anew leaves everything else as it is. -/
lemma conforming_annotate_iff {t : Tree α} : (t.annotate rule).Conforming k ↔ t.Conforming k := by
  induction t using Tree.induction with
  | step t ih =>
    rw [conforming_iff, conforming_iff, children_annotate, shape_annotate,
      conforms_map (kind_annotate rule), covers_map (kind_annotate rule) (span_annotate rule)
        (inner_annotate rule) (isMarkupName_annotate rule), List.forall_mem_map]
    exact and_congr_right fun _ => forall₂_congr ih

end Annotate

end Tree

end RefFlow
