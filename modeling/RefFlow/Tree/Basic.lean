import RefFlow.Numeral.Literal
import RefFlow.Source
import RefFlow.Tree.Field
import RefFlow.Tree.Kind

/-!
# Abstract syntax trees

A node has a kind, the span it covers, and named parts in a fixed order: other nodes, lists of
nodes, and plain values. `Tree α` is such a tree whose nodes carry labels of type `α`. The
conversion labels nodes in the order in which it makes them, they are then numbered in the order in
which they stand (`Node`, that is `Tree Nat`), and analyses annotate every node with what they found
out about it.

## Reading parts

A node of a known kind need not have the parts of that kind (see `Kind`), so `Shape.child`,
`Shape.items`, `Shape.flag` and `Shape.text` give the part or the `Fault` of its absence. A part
that is there and holds something of another sort reads as nothing.

## Annotation

Functions on trees that look at named parts are not recursive on the data as it stands.
`Tree.annotate` does the recursion for all of them: it labels a tree from the leaves upward, each
label being computed by a *rule* from the node and from its parts, whose labels are already there.
An analysis is then a rule, which is a plain function, and `Tree.measure` its value at the root.
-/

namespace RefFlow

/-- Why a program cannot be analysed. -/
inductive Fault where
  /-- A node was asked for a part that it does not have. -/
  | missingField (kind : Kind) (field : Field)
  /-- A part of a node was taken for a list and is none. -/
  | notAList (kind : Kind) (field : Field)
  /-- A number has too many digits to be written. -/
  | overlongNumber
  /-- A construct lacks a component that it needs. -/
  | missingNode (role : String)
  /-- A name has no segments. -/
  | emptyName
  /-- A name is declared or mentioned where no scope is open. -/
  | outsideScope
  /-- There is no such scope. -/
  | noScope
  /-- The path of the program, or a name in it, is too long. -/
  | overlongPath
deriving DecidableEq, Repr

/-- What stands in one named part of a node. -/
inductive Slot (τ : Type) where
  | blank
  | node (t : τ)
  /-- A list of nodes, in which places may be left empty. -/
  | list (ts : List (Option τ))
  | flag (b : Bool)
  | text (s : String)
  | numeral (n : Numeral)

namespace Slot

variable {τ : Type}

/-- The part that holds a node, or nothing. -/
def ofOption : Option τ → Slot τ
  | none => blank
  | some t => node t

/-- The part that holds a list without empty places. -/
def ofList (ts : List τ) : Slot τ := list (ts.map some)

/-- The nodes of a part, in order. -/
def children : Slot τ → List τ
  | node t => [t]
  | list ts => ts.filterMap id
  | _ => []

/-- The part with every node changed. -/
def map {σ : Type} (f : τ → σ) : Slot τ → Slot σ
  | blank => blank
  | node t => node (f t)
  | list ts => list (ts.map (Option.map f))
  | flag b => flag b
  | text s => text s
  | numeral n => numeral n

@[simp] theorem children_map {σ : Type} (f : τ → σ) (v : Slot τ) :
    (v.map f).children = v.children.map f := by
  cases v with
  | list ts =>
    simp only [map, children, List.filterMap_map]
    induction ts with
    | nil => rfl
    | cons t ts ih => cases t <;> simp_all
  | _ => rfl

@[simp] theorem children_ofOption (o : Option τ) : (ofOption o).children = o.toList := by
  cases o <;> rfl

@[simp] theorem children_ofList (ts : List τ) : (ofList ts).children = ts := by
  simp [ofList, children, List.filterMap_map]

end Slot

/-- One layer of a tree: a node with its parts. -/
structure Shape (τ : Type) where
  kind : Kind
  span : Span
  fields : List (Field × Slot τ)

namespace Shape

variable {τ : Type}

/-- The part of the given name, if the node has it. -/
def slot? (s : Shape τ) (f : Field) : Option (Slot τ) := s.fields.lookup f

/-- The part of the given name. -/
def slot (s : Shape τ) (f : Field) : Except Fault (Slot τ) :=
  match s.slot? f with
  | some v => .ok v
  | none => .error (.missingField s.kind f)

/-- The node in a part. -/
def child (s : Shape τ) (f : Field) : Except Fault (Option τ) := do
  match ← s.slot f with
  | .node t => return some t
  | _ => return none

/-- The list in a part. -/
def items (s : Shape τ) (f : Field) : Except Fault (List (Option τ)) := do
  match ← s.slot f with
  | .list ts => return ts
  | _ => throw (.notAList s.kind f)

/-- The truth value in a part. -/
def flag (s : Shape τ) (f : Field) : Except Fault Bool := do
  match ← s.slot f with
  | .flag b => return b
  | _ => return false

/-- The text in a part. -/
def text? (s : Shape τ) (f : Field) : Except Fault (Option String) := do
  match ← s.slot f with
  | .text t => return some t
  | _ => return none

/-- The nodes right below a node, in the order of its parts. -/
def children (s : Shape τ) : List τ := s.fields.flatMap (·.2.children)

/-- The layer with every node changed. -/
def map {σ : Type} (f : τ → σ) (s : Shape τ) : Shape σ :=
  { kind := s.kind, span := s.span, fields := s.fields.map fun (k, v) => (k, v.map f) }

@[simp] theorem kind_map {σ : Type} (f : τ → σ) (s : Shape τ) : (s.map f).kind = s.kind := rfl

@[simp] theorem span_map {σ : Type} (f : τ → σ) (s : Shape τ) : (s.map f).span = s.span := rfl

@[simp] theorem children_map {σ : Type} (f : τ → σ) (s : Shape τ) :
    (s.map f).children = s.children.map f := by
  simp [children, map, List.flatMap_map, List.map_flatMap]

end Shape

/-- A syntax tree with a label on every node. -/
inductive Tree (α : Type) where
  | mk (label : α) (shape : Shape (Tree α))

namespace Tree

variable {α β : Type}

/-- The label of the root. -/
def label : Tree α → α
  | mk l _ => l

/-- The topmost layer. -/
def shape : Tree α → Shape (Tree α)
  | mk _ s => s

@[simp] theorem label_mk (l : α) (s : Shape (Tree α)) : (mk l s).label = l := rfl

@[simp] theorem shape_mk (l : α) (s : Shape (Tree α)) : (mk l s).shape = s := rfl

@[simp] theorem mk_label_shape (t : Tree α) : mk t.label t.shape = t := by cases t; rfl

/-- The kind of the root. -/
def kind (t : Tree α) : Kind := t.shape.kind

/-- The span of the root. -/
def span (t : Tree α) : Span := t.shape.span

/-- The nodes right below the root. -/
def children (t : Tree α) : List (Tree α) := t.shape.children

@[inherit_doc Shape.child]
def child (t : Tree α) (f : Field) : Except Fault (Option (Tree α)) := t.shape.child f

@[inherit_doc Shape.items]
def items (t : Tree α) (f : Field) : Except Fault (List (Option (Tree α))) := t.shape.items f

@[inherit_doc Shape.flag]
def flag (t : Tree α) (f : Field) : Except Fault Bool := t.shape.flag f

@[inherit_doc Shape.text?]
def text? (t : Tree α) (f : Field) : Except Fault (Option String) := t.shape.text? f

/-! ## Annotation -/

mutual

/-- Labels every node by a rule that sees the node and its annotated parts. -/
def annotate (rule : Tree α → Shape (Tree β) → β) : Tree α → Tree β
  | mk l ⟨k, s, fs⟩ =>
    let y : Shape (Tree β) := ⟨k, s, annotateFields rule fs⟩
    mk (rule (mk l ⟨k, s, fs⟩) y) y

/-- `annotate` on the parts of a node. -/
def annotateFields (rule : Tree α → Shape (Tree β) → β) :
    List (Field × Slot (Tree α)) → List (Field × Slot (Tree β))
  | [] => []
  | (f, v) :: rest => (f, annotateSlot rule v) :: annotateFields rule rest

/-- `annotate` on one part. -/
def annotateSlot (rule : Tree α → Shape (Tree β) → β) : Slot (Tree α) → Slot (Tree β)
  | .blank => .blank
  | .node t => .node (annotate rule t)
  | .list ts => .list (annotateItems rule ts)
  | .flag b => .flag b
  | .text s => .text s
  | .numeral n => .numeral n

/-- `annotate` on a list. -/
def annotateItems (rule : Tree α → Shape (Tree β) → β) :
    List (Option (Tree α)) → List (Option (Tree β))
  | [] => []
  | none :: rest => none :: annotateItems rule rest
  | some t :: rest => some (annotate rule t) :: annotateItems rule rest

end

/-! ### What annotation does

The recursion is over the parts one by one; taken together, it changes every node right below. -/

theorem annotateItems_eq (rule : Tree α → Shape (Tree β) → β) (ts : List (Option (Tree α))) :
    annotateItems rule ts = ts.map (Option.map (annotate rule)) := by
  induction ts with
  | nil => rfl
  | cons t ts ih => cases t <;> simp [annotateItems, ih]

theorem annotateSlot_eq (rule : Tree α → Shape (Tree β) → β) (v : Slot (Tree α)) :
    annotateSlot rule v = v.map (annotate rule) := by
  cases v <;> simp [annotateSlot, Slot.map, annotateItems_eq]

theorem annotateFields_eq (rule : Tree α → Shape (Tree β) → β)
    (fs : List (Field × Slot (Tree α))) :
    annotateFields rule fs = fs.map fun (k, v) => (k, v.map (annotate rule)) := by
  induction fs with
  | nil => rfl
  | cons e fs ih => obtain ⟨f, v⟩ := e; simp [annotateFields, annotateSlot_eq, ih]

/-- The shape of an annotated tree is the shape of the tree, with the nodes below annotated. -/
@[simp] theorem shape_annotate (rule : Tree α → Shape (Tree β) → β) (t : Tree α) :
    (t.annotate rule).shape = t.shape.map (annotate rule) := by
  obtain ⟨l, k, s, fs⟩ := t
  simp [annotate, Shape.map, annotateFields_eq]

/-- The label of an annotated tree is what the rule gives for it. -/
theorem label_annotate (rule : Tree α → Shape (Tree β) → β) (t : Tree α) :
    (t.annotate rule).label = rule t (t.shape.map (annotate rule)) := by
  obtain ⟨l, k, s, fs⟩ := t
  simp [annotate, Shape.map, annotateFields_eq]

/-- The label that a rule gives to the root. -/
def measure (rule : Tree α → Shape (Tree β) → β) (t : Tree α) : β := (t.annotate rule).label

/-! ## Induction -/

mutual

/-- Induction over a tree: what holds of a node whenever it holds of the nodes right below holds of
every node. -/
theorem induction {P : Tree α → Prop} (step : ∀ t : Tree α, (∀ c ∈ t.children, P c) → P t) :
    ∀ t : Tree α, P t
  | mk l ⟨k, s, fs⟩ => step (mk l ⟨k, s, fs⟩) fun c h => inductionFields step fs c h

/-- `induction` on the parts of a node. -/
theorem inductionFields {P : Tree α → Prop} (step : ∀ t : Tree α, (∀ c ∈ t.children, P c) → P t) :
    ∀ fs : List (Field × Slot (Tree α)), ∀ c ∈ fs.flatMap (·.2.children), P c
  | [], _, h => by simp at h
  | (_, v) :: fs, c, h => by
    rw [List.flatMap_cons, List.mem_append] at h
    rcases h with h | h
    · exact inductionSlot step v c h
    · exact inductionFields step fs c h

/-- `induction` on one part. -/
theorem inductionSlot {P : Tree α → Prop} (step : ∀ t : Tree α, (∀ c ∈ t.children, P c) → P t) :
    ∀ v : Slot (Tree α), ∀ c ∈ v.children, P c
  | .node t, c, h => by
    have : c = t := by simpa [Slot.children] using h
    exact this ▸ induction step t
  | .list ts, c, h => inductionItems step ts c h
  | .blank, _, h | .flag _, _, h | .text _, _, h | .numeral _, _, h => by simp [Slot.children] at h

/-- `induction` on a list. -/
theorem inductionItems {P : Tree α → Prop} (step : ∀ t : Tree α, (∀ c ∈ t.children, P c) → P t) :
    ∀ ts : List (Option (Tree α)), ∀ c ∈ ts.filterMap id, P c
  | [], _, h => by simp at h
  | none :: ts, c, h => inductionItems step ts c (by simpa using h)
  | some t :: ts, c, h => by
    rcases List.mem_cons.1 (by simpa using h : c ∈ t :: ts.filterMap id) with h | h
    · exact h ▸ induction step t
    · exact inductionItems step ts c h

end

end Tree

end RefFlow
