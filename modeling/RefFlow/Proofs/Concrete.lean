import Mathlib.Logic.Relation
import RefFlow.Concrete

/-!
# What is known of a parser's trees

A parser may hand over any tree whatsoever, and most of what is shown about the conversion holds for
all of them.  Some facts depend on what parsers keep to, and these have names: the ranges of nodes
are nested, are not empty, follow one another, only the root is a program, and the symbols are ones
that a grammar can have.  Each of these can be decided for a given tree
(`Concrete.decidableForall`).

`Concrete.node`, `Concrete.identifier` and `Concrete.token` write trees down.
-/

namespace RefFlow

/-! ## Symbols -/

/-- Names of abstract constructs that grammars do not have for a construct: they have other names
for objects, and for what stands in them. -/
def abstractNames : List String := ["object_expression", "property"]

/-- The character is an ASCII one, and no capital. -/
def IsPlain (c : Char) : Prop := c.toNat < 128 ∧ c.isUpper = false

instance (c : Char) : Decidable (IsPlain c) := inferInstanceAs (Decidable (_ ∧ _))

/-- The characters are a word of a symbol. -/
def IsWord (cs : List Char) : Prop := cs ≠ [] ∧ ∀ c ∈ cs, IsPlain c

-- It is looked at the characters of the word, not at all characters that there are.
instance (cs : List Char) : Decidable (IsWord cs) :=
  have : Decidable (∀ c ∈ cs, IsPlain c) := List.decidableBAll IsPlain cs
  inferInstanceAs (Decidable (_ ∧ _))

/-- The symbol is one that a grammar can have.  It consists of words without capitals, with an
underscore between them, or it is the symbol of what a parser cannot make sense of. -/
def IsGrammatical (symbol : String) : Prop :=
  symbol = "ERROR" ∨ symbol ∉ abstractNames ∧ ∀ word ∈ symbol.toList.splitOn '_', IsWord word

instance (symbol : String) : Decidable (IsGrammatical symbol) :=
  inferInstanceAs (Decidable (_ ∨ _ ∧ _))

/-! ## Conditions on trees -/

namespace Concrete

variable {α : Type}

/-- The first node contains the second one, at any depth. -/
def Contains (c d : Concrete α) : Prop :=
  Relation.ReflTransGen (fun a b => b ∈ a.layer.children) c d

/-- The range of every node lies inside that of its parent, and only the root may be a program. -/
def NestedRanges (c : Concrete α) : Prop :=
  ∀ u, c.Contains u → ∀ d ∈ u.layer.children, d.span.Within u.span ∧ d.symbol ≠ "program"

/-- Only the root may be a program. -/
def SoleProgram (c : Concrete α) : Prop :=
  ∀ u, c.Contains u → ∀ d ∈ u.layer.children, d.symbol ≠ "program"

/-- No node has an empty range. -/
def NonemptyRanges (c : Concrete α) : Prop :=
  ∀ u, c.Contains u → u.span.start < u.span.stop

/-- The range of the first node stops before that of the second one starts. -/
def Precedes (c d : Concrete α) : Prop := c.span.stop ≤ d.span.start

instance : DecidableRel (Precedes (α := α)) :=
  fun c d => inferInstanceAs (Decidable (c.span.stop ≤ d.span.start))

/-- The children of every node follow one another. -/
def OrderedRanges (c : Concrete α) : Prop :=
  ∀ u, c.Contains u → u.layer.children.Pairwise Precedes

/-- All symbols are ones that a grammar can have. -/
def Grammatical (c : Concrete α) : Prop := ∀ u, c.Contains u → IsGrammatical u.symbol

section Decidable

variable {P : Concrete α → Prop}

lemma forall_contains_iff {c : Concrete α} : (∀ u, c.Contains u → P u) ↔
    P c ∧ ∀ d ∈ c.layer.children, ∀ u, d.Contains u → P u := by
  constructor
  · intro h
    exact ⟨h c .refl, fun d hd u hu => h u (.head hd hu)⟩
  · rintro ⟨hc, hbelow⟩ u hu
    rcases hu.cases_head with rfl | ⟨d, hd, hu⟩
    · exact hc
    · exact hbelow d hd u hu

mutual

/-- Whether all nodes have a property is found out by going through the tree. -/
def decidableForall [DecidablePred P] : (c : Concrete α) → Decidable (∀ u, c.Contains u → P u)
  | mk l ⟨s, n, r, p, cs⟩ =>
    have : Decidable (∀ d ∈ cs, ∀ u, d.Contains u → P u) := decidableForallMem cs
    decidable_of_iff (P (mk l ⟨s, n, r, p, cs⟩) ∧ ∀ d ∈ cs, ∀ u, d.Contains u → P u)
      (forall_contains_iff (c := mk l ⟨s, n, r, p, cs⟩)).symm

/-- `decidableForall` on a list. -/
def decidableForallMem [DecidablePred P] :
    (cs : List (Concrete α)) → Decidable (∀ d ∈ cs, ∀ u, d.Contains u → P u)
  | [] => .isTrue (by simp)
  | c :: cs =>
    have : Decidable (∀ u, c.Contains u → P u) := decidableForall c
    have : Decidable (∀ d ∈ cs, ∀ u, d.Contains u → P u) := decidableForallMem cs
    decidable_of_iff ((∀ u, c.Contains u → P u) ∧ ∀ d ∈ cs, ∀ u, d.Contains u → P u)
      (List.forall_mem_cons (p := fun d : Concrete α => ∀ u, d.Contains u → P u)).symm

end

instance (c : Concrete α) : Decidable c.NestedRanges := decidableForall c

instance (c : Concrete α) : Decidable c.NonemptyRanges := decidableForall c

instance (c : Concrete α) : Decidable c.SoleProgram := decidableForall c

instance (c : Concrete α) : Decidable c.OrderedRanges := decidableForall c

instance (c : Concrete α) : Decidable c.Grammatical := decidableForall c

end Decidable

lemma NestedRanges.soleProgram {c : Concrete α} (h : c.NestedRanges) : c.SoleProgram :=
  fun u hu d hd => (h u hu d hd).2

/-- A construct of a parser's tree. -/
def node (symbol : String) (role : Option String) (start stop : Nat)
    (parts : List (Concrete Unit)) : Concrete Unit :=
  mk () ⟨symbol, true, role, ⟨start, stop⟩, parts⟩

/-- A name in a parser's tree. -/
def identifier (role : Option String) (start stop : Nat) : Concrete Unit :=
  node "identifier" role start stop []

/-- A token of a parser's tree. -/
def token (symbol : String) (role : Option String) (start stop : Nat) : Concrete Unit :=
  mk () ⟨symbol, false, role, ⟨start, stop⟩, []⟩

end Concrete

/-! ## Components -/

namespace Layer

variable {α : Type} {y : Layer (Concrete α)} {c : Concrete α}

lemma mem_of_child? {role : String} (h : y.child? role = some c) : c ∈ y.children :=
  List.mem_of_find?_eq_some h

lemma mem_of_constructs (h : c ∈ y.constructs) : c ∈ y.children := (List.mem_filter.1 h).1

lemma mem_of_parts (h : c ∈ y.parts) : c ∈ y.children :=
  mem_of_constructs (List.mem_filter.1 h).1

lemma mem_of_first? (h : y.first? = some c) : c ∈ y.children := mem_of_parts (List.mem_of_head? h)

lemma mem_of_construct? {symbol : String} (h : y.construct? symbol = some c) : c ∈ y.children :=
  mem_of_constructs (List.mem_of_find?_eq_some h)

end Layer

end RefFlow
