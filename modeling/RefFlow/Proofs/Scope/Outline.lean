import Mathlib.Tactic.Lemma
import RefFlow.Scope.Lookup

/-!
# What the steps of scope analysis do to the graph

Two views of a scope graph are enough to say what a name means in it: its *outline*, that is for
each scope the scopes around it and the scope that takes its hoisted declarations, and the names
that each scope declares (`Graph.declares`).

The lemmas here say once what each operation on the graph does to these views, so that nothing later
has to look into the operations.  Changing a scope leaves the outline alone, and what the other
scopes declare (`outline_modifyScope`, `declares_modifyScope_of_ne`).  Settling references, which is
what closing a scope amounts to, leaves both views alone entirely; it resolves those pending
references whose names the scope declares and hands back the others, in order
(`references_settleAll`, `settleAll_snd`).
-/

namespace RefFlow

/-- Where a scope stands: the scopes around it, and the one that takes its hoisted declarations. -/
structure Outline where
  outer : List Nat
  home : Nat

namespace Scope

/-- The outline of a scope. -/
def outline (s : Scope) : Outline := ⟨s.outer, s.home⟩

@[simp] lemma declares_modifyVariable (s : Scope) (key name : String) (f : Variable → Variable) :
    (s.modifyVariable key f).declares name = s.declares name := by
  have hlength : (s.modifyVariable key f).declared.length = s.declared.length := by
    unfold modifyVariable
    dsimp only
    split
    · exact List.length_modify ..
    · rfl
  have htable : (s.modifyVariable key f).table = s.table := rfl
  unfold declares find?
  rw [htable]
  cases s.table.get? name with
  | none => rfl
  | some k =>
    have hplace : (s.modifyVariable key f).declared[k]?.isSome = s.declared[k]?.isSome := by
      rw [Bool.eq_iff_iff, Option.isSome_iff_ne_none, Option.isSome_iff_ne_none, Ne, Ne,
        List.getElem?_eq_none_iff, List.getElem?_eq_none_iff, hlength]
    exact hplace

@[simp] lemma outline_declare (s : Scope) (name : String) :
    (s.declare name).outline = s.outline := by
  unfold declare
  split <;> rfl

@[simp] lemma outline_define (s : Scope) (d : Definition) : (s.define d).outline = s.outline :=
  outline_declare s d.name

end Scope

namespace Graph

variable {g : Graph}

/-! ## Outlines -/

/-- The outlines of all scopes. -/
def outline (g : Graph) : List Outline := g.scopes.map Scope.outline

@[simp] lemma length_outline (g : Graph) : g.outline.length = g.scopes.length := List.length_map _

lemma outline_getElem? (g : Graph) (i : Nat) : g.outline[i]? = g.scopes[i]?.map Scope.outline :=
  List.getElem?_map

/-- A scope and those around it, from the inside out. -/
def chain (g : Graph) (i : Nat) : List Nat := i :: (g.outline[i]?.map (·.outer)).getD []

lemma chain_of_outline {i : Nat} {o : Outline} (h : g.outline[i]? = some o) :
    g.chain i = i :: o.outer := by
  rw [chain, h]
  rfl

lemma lookup_eq_findSome? (i : Nat) (name : String) :
    g.lookup i name =
      (g.chain i).findSome? fun j => if g.declares j name then some ⟨j, name⟩ else none := by
  unfold lookup chain
  rw [outline_getElem?]
  cases g.scopes[i]? <;> rfl

/-! ## Changing one scope -/

/-- What a change of a scope keeps, it keeps of all scopes. -/
lemma map_modifyScope {β : Type} {view : Scope → β} (i : Nat) {f : Scope → Scope}
    (hf : ∀ s ∈ g.scopes, view (f s) = view s) :
    (g.modifyScope i f).scopes.map view = g.scopes.map view := by
  apply List.ext_getElem?
  intro j
  rw [modifyScope, List.getElem?_map, List.getElem?_map, List.getElem?_modify]
  cases hs : g.scopes[j]? with
  | none => rfl
  | some s =>
    have hview := hf s (List.mem_of_getElem? hs)
    split <;> simp [hview]

lemma outline_modifyScope (i : Nat) {f : Scope → Scope} (hf : ∀ s, (f s).outline = s.outline) :
    (g.modifyScope i f).outline = g.outline :=
  map_modifyScope i fun s _ => hf s

lemma declares_modifyScope_of_ne {i j : Nat} (h : j ≠ i) (f : Scope → Scope) (name : String) :
    (g.modifyScope i f).declares j name = g.declares j name := by
  unfold declares modifyScope
  rw [List.getElem?_modify_ne f g.scopes (Ne.symm h)]

lemma declares_modifyScope (i j : Nat) {f : Scope → Scope}
    (hf : ∀ s name, (f s).declares name = s.declares name) (name : String) :
    (g.modifyScope i f).declares j name = g.declares j name := by
  by_cases h : j = i
  · subst h
    unfold declares modifyScope
    rw [List.getElem?_modify_eq]
    cases g.scopes[j]? <;> simp [hf]
  · exact declares_modifyScope_of_ne h f name

end Graph

/-! ## Settling references -/

namespace Analysis

/-- The reference with the variable that it means, if a scope declares it. -/
def resolveIn (g : Graph) (scope : Nat) (r : Reference) : Reference :=
  if g.declares scope r.name then { r with resolved := some ⟨scope, r.name⟩ } else r

@[simp] lemma name_resolveIn (g : Graph) (scope : Nat) (r : Reference) :
    (resolveIn g scope r).name = r.name := by
  unfold resolveIn
  split <;> rfl

/-- The reference with a number is left over in a scope that does not declare its name. -/
def isLeft (g : Graph) (scope ref : Nat) : Bool :=
  g.references[ref]?.any fun r => !g.declares scope r.name

variable (g : Graph) (scope : Nat)

@[simp] lemma outline_settle (ref : Nat) : (settle g scope ref).1.outline = g.outline := by
  unfold settle
  split
  · rfl
  · split
    · exact Graph.outline_modifyScope scope fun _ => rfl
    · exact Graph.outline_modifyScope scope fun _ => rfl

@[simp] lemma declares_settle (ref j : Nat) (name : String) :
    (settle g scope ref).1.declares j name = g.declares j name := by
  unfold settle
  split
  · rfl
  · rename_i r _
    split
    · refine Graph.declares_modifyScope (g := g) scope j (f := (·.modifyVariable r.name _)) ?_ name
      exact fun s name => Scope.declares_modifyVariable ..
    · refine Graph.declares_modifyScope scope j ?_ name
      exact fun _ _ => rfl

lemma references_settle (ref k : Nat) :
    (settle g scope ref).1.references[k]? =
      g.references[k]?.map fun r => if k = ref then resolveIn g scope r else r := by
  unfold settle
  split
  · rename_i h
    by_cases hk : k = ref
    · simp [hk, h]
    · simp [hk]
  · rename_i r h
    by_cases hk : k = ref
    · subst hk
      split <;> rename_i hd <;> simp [Graph.modifyScope, resolveIn, h, hd]
    · split
      · simp [Ne.symm hk]
      · simp [Graph.modifyScope]

@[simp] lemma settle_snd (ref : Nat) : (settle g scope ref).2 = isLeft g scope ref := by
  unfold settle isLeft
  split
  · rename_i h
    simp [h]
  · rename_i r h
    split <;> rename_i hd <;> simp [h, hd]

lemma isLeft_settle (ref k : Nat) :
    isLeft (settle g scope ref).1 scope k = isLeft g scope k := by
  unfold isLeft
  rw [references_settle]
  cases g.references[k]? with
  | none => rfl
  | some r =>
    simp only [Option.map_some, Option.any_some, declares_settle]
    split
    · rw [name_resolveIn]
    · rfl

@[simp] lemma outline_settleAll (rs : List Nat) :
    (settleAll g scope rs).1.outline = g.outline := by
  induction rs generalizing g with
  | nil => rfl
  | cons r rs ih =>
    simp only [settleAll, ih, outline_settle]

@[simp] lemma declares_settleAll (rs : List Nat) (j : Nat) (name : String) :
    (settleAll g scope rs).1.declares j name = g.declares j name := by
  induction rs generalizing g with
  | nil => rfl
  | cons r rs ih =>
    simp only [settleAll, ih, declares_settle]

lemma resolveIn_settle (ref : Nat) (r : Reference) :
    resolveIn (settle g scope ref).1 scope r = resolveIn g scope r := by
  simp only [resolveIn, declares_settle]

lemma resolveIn_resolveIn (r : Reference) :
    resolveIn g scope (resolveIn g scope r) = resolveIn g scope r := by
  by_cases h : g.declares scope r.name <;> simp [resolveIn, h]

/-- Settling resolves exactly the references that were to be settled and whose names the scope
declares. -/
lemma references_settleAll (rs : List Nat) (k : Nat) :
    (settleAll g scope rs).1.references[k]? =
      g.references[k]?.map fun r => if k ∈ rs then resolveIn g scope r else r := by
  induction rs generalizing g with
  | nil => simp [settleAll]
  | cons ref rs ih =>
    simp only [settleAll]
    rw [ih, references_settle]
    cases g.references[k]? with
    | none => rfl
    | some r =>
      simp only [Option.map_some, resolveIn_settle, List.mem_cons]
      by_cases hk : k = ref <;> by_cases hrs : k ∈ rs <;> simp [hk, hrs, resolveIn_resolveIn]

/-- Settling hands back, in order, the references whose names the scope does not declare. -/
lemma settleAll_snd (rs : List Nat) : (settleAll g scope rs).2 = rs.filter (isLeft g scope) := by
  induction rs generalizing g with
  | nil => rfl
  | cons ref rs ih =>
    have hcongr : isLeft (settle g scope ref).1 scope = isLeft g scope :=
      funext fun k => isLeft_settle g scope ref k
    simp only [settleAll]
    rw [settle_snd, ih, hcongr, List.filter_cons]

end Analysis

end RefFlow
