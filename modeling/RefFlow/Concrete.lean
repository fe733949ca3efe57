import RefFlow.Source

/-!
# Concrete syntax trees

What a parser delivers: every token and every construct of a grammar, with the name of its symbol,
whether it is *named* (a construct, as opposed to a token such as a bracket), and the role under
which its parent knows it. `Concrete α` is such a tree with labels of type `α`.

Comments and constructs that exist for the type checker only are *skipped*: they never take part in
the meaning of a program, and `Layer.parts` leaves them out.

As with abstract trees, `Concrete.annotate` labels a tree from the leaves upward by a rule that sees
a node and its annotated children, so that the conversion can be written as plain functions.
-/

namespace RefFlow

/-- One layer of a concrete tree: a node with its children. -/
structure Layer (τ : Type) where
  symbol : String
  named : Bool
  role : Option String
  span : Span
  children : List τ

/-- The layer with every child changed. -/
def Layer.map {τ σ : Type} (f : τ → σ) (y : Layer τ) : Layer σ :=
  { symbol := y.symbol, named := y.named, role := y.role, span := y.span
    children := y.children.map f }

/-- A concrete syntax tree with a label on every node. -/
inductive Concrete (α : Type) where
  | mk (label : α) (layer : Layer (Concrete α))

/-- Symbols of nodes that carry neither values nor bindings. -/
def skippedSymbols : List String :=
  ["comment", "html_comment", "hash_bang_line", "type_annotation", "type_arguments",
   "type_parameters", "asserts_annotation", "interface_declaration", "type_alias_declaration",
   "ambient_declaration", "accessibility_modifier", "override_modifier", "implements_clause",
   "optional_chain", "index_signature", "abstract_method_signature", "method_signature",
   "function_signature"]

namespace Concrete

variable {α β : Type}

/-- The label of the root. -/
def label : Concrete α → α
  | mk l _ => l

/-- The topmost layer. -/
def layer : Concrete α → Layer (Concrete α)
  | mk _ l => l

@[simp] theorem label_mk (l : α) (y : Layer (Concrete α)) : (mk l y).label = l := rfl

@[simp] theorem layer_mk (l : α) (y : Layer (Concrete α)) : (mk l y).layer = y := rfl

/-- The symbol of the root. -/
def symbol (c : Concrete α) : String := c.layer.symbol

/-- The span of the root. -/
def span (c : Concrete α) : Span := c.layer.span

/-- The node plays no part in the meaning of a program. -/
def isSkipped (c : Concrete α) : Bool := skippedSymbols.contains c.symbol

mutual

/-- Labels every node by a rule that sees its annotated children. -/
def annotate (rule : Layer (Concrete β) → β) : Concrete α → Concrete β
  | mk _ ⟨s, n, r, p, cs⟩ =>
    let y : Layer (Concrete β) := ⟨s, n, r, p, annotateAll rule cs⟩
    mk (rule y) y

/-- `annotate` on a list. -/
def annotateAll (rule : Layer (Concrete β) → β) : List (Concrete α) → List (Concrete β)
  | [] => []
  | c :: rest => annotate rule c :: annotateAll rule rest

end

theorem annotateAll_eq (rule : Layer (Concrete β) → β) (cs : List (Concrete α)) :
    annotateAll rule cs = cs.map (annotate rule) := by
  induction cs with
  | nil => rfl
  | cons c cs ih => simp [annotateAll, ih]

/-- The layer of an annotated tree is the layer of the tree, with the children annotated. -/
@[simp] theorem layer_annotate (rule : Layer (Concrete β) → β) (c : Concrete α) :
    (c.annotate rule).layer = c.layer.map (annotate rule) := by
  obtain ⟨l, s, n, r, p, cs⟩ := c
  simp [annotate, Layer.map, annotateAll_eq]

/-- The label of an annotated tree is what the rule gives for it. -/
theorem label_annotate (rule : Layer (Concrete β) → β) (c : Concrete α) :
    (c.annotate rule).label = rule (c.layer.map (annotate rule)) := by
  obtain ⟨l, s, n, r, p, cs⟩ := c
  simp [annotate, Layer.map, annotateAll_eq]

/-! ## Induction -/

mutual

/-- Induction over a concrete tree: what holds of a node whenever it holds of its children holds of
every node. -/
theorem induction {P : Concrete α → Prop}
    (step : ∀ c : Concrete α, (∀ d ∈ c.layer.children, P d) → P c) : ∀ c : Concrete α, P c
  | mk l ⟨s, n, r, p, cs⟩ => step (mk l ⟨s, n, r, p, cs⟩) fun d h => inductionAll step cs d h

/-- `induction` on a list. -/
theorem inductionAll {P : Concrete α → Prop}
    (step : ∀ c : Concrete α, (∀ d ∈ c.layer.children, P d) → P c) :
    ∀ cs : List (Concrete α), ∀ d ∈ cs, P d
  | [], _, h => by simp at h
  | c :: cs, d, h => by
    rcases List.mem_cons.1 h with h | h
    · exact h ▸ induction step c
    · exact inductionAll step cs d h

end

end Concrete

namespace Layer

variable {α : Type}

/-- The first child in a role. -/
def child? (y : Layer (Concrete α)) (role : String) : Option (Concrete α) :=
  y.children.find? (·.layer.role == some role)

/-- The children that are constructs. -/
def constructs (y : Layer (Concrete α)) : List (Concrete α) := y.children.filter (·.layer.named)

/-- The children that are constructs and have a meaning. -/
def parts (y : Layer (Concrete α)) : List (Concrete α) := y.constructs.filter (!·.isSkipped)

/-- The first child that is a construct and has a meaning. -/
def first? (y : Layer (Concrete α)) : Option (Concrete α) := y.parts.head?

/-- Among the children there is the given token. -/
def hasToken (y : Layer (Concrete α)) (token : String) : Bool :=
  y.children.any fun c => !c.layer.named && c.symbol == token

/-- The first construct among the children with the given symbol. -/
def construct? (y : Layer (Concrete α)) (symbol : String) : Option (Concrete α) :=
  y.constructs.find? (·.symbol == symbol)

end Layer

end RefFlow
