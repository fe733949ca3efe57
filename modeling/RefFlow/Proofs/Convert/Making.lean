import Mathlib.Algebra.Order.Group.Multiset
import Mathlib.Order.Interval.Finset.Nat
import Mathlib.Order.Interval.Multiset
import RefFlow.Convert.Rules
import RefFlow.Proofs.Tree.Exposed

/-!
# Computations that make nodes

The rules of the conversion make nodes, and each node is labelled with the count at which it was
made.  There are two things to say about what a rule results in.

*Postconditions.*  `Makes x P` says that whatever result `x` has, it satisfies `P`, whatever had
been made before.  This is `Fallible.Gives`, and its rules are the same.

*Thrift.*  `Spends stock x` says that `x` makes its result from nodes that it makes itself, and from
those of a stock that was given to it, and uses none of them twice.  A stock is a multiset of
labels, so a computation that puts one node in two places needs it twice in its stock.  Sequences
hand on what was made: the stock of a step has the nodes of the results before it (`Spends.then`).
A computation without a stock can only result in nodes with different labels (`Spends.nodup`).
-/

namespace RefFlow

open Fallible

namespace Making

variable {α β σ : Type} {n m : Nat}

/-! ## Inversion -/

lemma bind_ok_iff {x : Making α} {f : α → Making β} {b : β} :
    (x >>= f) n = .ok (b, m) ↔ ∃ a k, x n = .ok (a, k) ∧ f a k = .ok (b, m) := by
  refine Fallible.bind_ok_iff.trans ⟨?_, ?_⟩
  · rintro ⟨⟨a, k⟩, hx, hf⟩
    exact ⟨a, k, hx, hf⟩
  · rintro ⟨a, k, hx, hf⟩
    exact ⟨(a, k), hx, hf⟩

lemma map_ok_iff {f : α → β} {x : Making α} {b : β} :
    (f <$> x) n = .ok (b, m) ↔ ∃ a, x n = .ok (a, m) ∧ f a = b := by
  rw [← bind_pure_comp, bind_ok_iff]
  constructor
  · rintro ⟨a, k, hx, hf⟩
    cases hf
    exact ⟨a, hx, rfl⟩
  · rintro ⟨a, hx, rfl⟩
    exact ⟨a, m, hx, rfl⟩

/-! ## Postconditions -/

/-- The result, if there is one, satisfies the condition. -/
def Makes (x : Making α) (P : α → Prop) : Prop := ∀ n, Gives (x n) fun r => P r.1

variable {P Q : α → Prop} {x : Making α}

lemma makes_pure {a : α} (h : P a) : Makes (pure a) P := fun _ => gives_ok h

lemma makes_throw {e : Fault} : Makes (throw e : Making α) P := fun _ => gives_throw

lemma makes_true : Makes x fun _ => True := fun _ => gives_true

lemma Makes.mono (h : Makes x P) (hPQ : ∀ a, P a → Q a) : Makes x Q :=
  fun n => (h n).mono fun r hr => hPQ r.1 hr

lemma Makes.and (hP : Makes x P) (hQ : Makes x Q) : Makes x fun a => P a ∧ Q a :=
  fun n => (hP n).and (hQ n)

lemma Makes.bind {f : α → Making β} {Q : β → Prop} (hx : Makes x P)
    (hf : ∀ a, P a → Makes (f a) Q) : Makes (x >>= f) Q :=
  fun n => (hx n).bind fun r hr => hf r.1 hr r.2

lemma Makes.map {f : α → β} {Q : β → Prop} (hx : Makes x P) (hf : ∀ a, P a → Q (f a)) :
    Makes (f <$> x) Q := by
  rintro n ⟨b, m⟩ hb
  obtain ⟨a, ha, rfl⟩ := map_ok_iff.1 hb
  exact hf a (hx n (a, m) ha)

/-- What each step of a list gives holds of all members of its result. -/
lemma makes_mapM {f : α → Making β} {as : List α} {P : β → Prop}
    (h : ∀ a ∈ as, Makes (f a) P) : Makes (as.mapM f) fun bs => ∀ b ∈ bs, P b := by
  induction as with
  | nil => exact makes_pure (by simp)
  | cons a as ih =>
    rw [List.mapM_cons]
    refine (h a List.mem_cons_self).bind fun b hb => ?_
    refine (ih fun c hc => h c (List.mem_cons_of_mem a hc)).bind fun bs hbs => makes_pure ?_
    exact List.forall_mem_cons.2 ⟨hb, hbs⟩

/-- What every step of a run keeps, the whole run keeps. -/
lemma makes_foldlM {f : σ → α → Making σ} {P : σ → Prop} {as : List α} {s : σ}
    (step : ∀ s, ∀ a ∈ as, P s → Makes (f s a) P) (hs : P s) : Makes (as.foldlM f s) P := by
  induction as generalizing s with
  | nil => exact makes_pure hs
  | cons a as ih =>
    rw [List.foldlM_cons]
    exact (step s a List.mem_cons_self hs).bind fun t ht =>
      ih (fun s b hb => step s b (List.mem_cons_of_mem a hb)) ht

/-- A node has the shape that it is made with, whatever its label is. -/
lemma makes_make {span : Span} {kind : Kind} {fields : List (Field × Slot Draft)}
    {P : Draft → Prop} (h : ∀ label, P (.mk label ⟨kind, span, fields⟩)) :
    Makes (Convert.make span kind fields) P :=
  fun n => gives_ok (h n)

/-! ## Labels -/

/-- What holds nodes, with their labels. -/
class HasLabels (α : Type) where
  labels : α → Multiset Nat

export HasLabels (labels)

instance : HasLabels String := ⟨fun _ => 0⟩

instance : HasLabels Parsed := ⟨fun _ => 0⟩

instance : HasLabels Draft := ⟨fun d => (Node.nodes d).map Node.id⟩

instance [HasLabels α] : HasLabels (Option α) := ⟨fun o => o.elim 0 labels⟩

instance [HasLabels α] : HasLabels (List α) := ⟨fun as => (as.map labels).sum⟩

instance [HasLabels α] [HasLabels β] : HasLabels (α × β) := ⟨fun p => labels p.1 + labels p.2⟩

instance [HasLabels α] : HasLabels (Slot α) := ⟨fun v => labels v.children⟩

instance [HasLabels α] : HasLabels (Field × α) := ⟨fun e => labels e.2⟩

section Labels

variable [HasLabels α]

@[simp] lemma labels_string (s : String) : labels s = 0 := rfl

@[simp] lemma labels_parsed (c : Parsed) : labels c = 0 := rfl

@[simp] lemma labels_none : labels (none : Option α) = 0 := rfl

@[simp] lemma labels_some (a : α) : labels (some a) = labels a := rfl

@[simp] lemma labels_nil : labels ([] : List α) = 0 := rfl

@[simp] lemma labels_cons (a : α) (as : List α) : labels (a :: as) = labels a + labels as := by
  simp [labels]

@[simp] lemma labels_field (f : Field) (a : α) : labels (f, a) = labels a := rfl

@[simp] lemma labels_append (as bs : List α) : labels (as ++ bs) = labels as + labels bs := by
  simp [labels]

@[simp] lemma labels_toList (o : Option α) : labels o.toList = labels o := by
  cases o <;> simp

@[simp] lemma labels_filterMap (os : List (Option α)) :
    labels (os.filterMap fun o => o) = labels os := by
  induction os with
  | nil => rfl
  | cons o os ih =>
    rw [labels_cons, ← ih]
    cases o with
    | none => exact (zero_add _).symm
    | some a => exact labels_cons a _

@[simp] lemma labels_flatten (ass : List (List α)) : labels ass.flatten = labels ass := by
  induction ass with
  | nil => rfl
  | cons as ass ih => simp [ih]

@[simp] lemma labels_blank : labels (.blank : Slot α) = 0 := rfl

@[simp] lemma labels_flag (b : Bool) : labels (.flag b : Slot α) = 0 := rfl

@[simp] lemma labels_text (s : String) : labels (.text s : Slot α) = 0 := rfl

@[simp] lemma labels_numeral (v : Numeral) : labels (.numeral v : Slot α) = 0 := rfl

@[simp] lemma labels_node (a : α) : labels (.node a : Slot α) = labels a := by
  simp [labels, Slot.children]

@[simp] lemma labels_list (os : List (Option α)) : labels (.list os : Slot α) = labels os :=
  labels_filterMap os

@[simp] lemma labels_ofOption (o : Option α) : labels (.ofOption o : Slot α) = labels o := by
  cases o <;> simp [Slot.ofOption]

@[simp] lemma labels_ofList (as : List α) : labels (.ofList as : Slot α) = labels as := by
  rw [Slot.ofList, labels_list]
  induction as with
  | nil => rfl
  | cons a as ih => simp [ih]

end Labels

/-- The labels of a tree are that of its root and those of the parts of the root. -/
lemma labels_mk (label : Nat) (kind : Kind) (span : Span) (fields : List (Field × Slot Draft)) :
    labels (.mk label ⟨kind, span, fields⟩ : Draft) = label ::ₘ labels fields := by
  have hnodes (ds : List Draft) : labels ds = ((ds.flatMap Node.nodes).map Node.id : List Nat) := by
    induction ds with
    | nil => rfl
    | cons d ds ih =>
      rw [labels_cons, ih, List.flatMap_cons, List.map_append, ← Multiset.coe_add]
      rfl
  have hfields : labels fields = labels (fields.flatMap (·.2.children)) := by
    induction fields with
    | nil => rfl
    | cons e fields ih =>
      rw [labels_cons, ih, List.flatMap_cons, labels_append]
      rfl
  rw [hfields, hnodes, Multiset.cons_coe]
  exact congrArg _ (congrArg (List.map Node.id) (Node.nodes_eq _))

/-! ## Thrift -/

/-- The nodes of the result come from the stock or were made by the computation, and none of them
is used twice. -/
def Spends [HasLabels α] (stock : Multiset Nat) (x : Making α) : Prop :=
  ∀ n a m, x n = .ok (a, m) → n ≤ m ∧ labels a ≤ stock + Multiset.Ico n m

section Spends

variable [HasLabels α] [HasLabels β] [HasLabels σ] {stock rest : Multiset Nat}

lemma spends_pure {a : α} (h : labels a ≤ stock) : Spends stock (pure a) := by
  rintro n b m hb
  cases hb
  exact ⟨Nat.le_refl n, h.trans (Multiset.le_add_right ..)⟩

lemma spends_throw {e : Fault} : Spends stock (throw e : Making α) := by
  rintro n b m hb
  cases hb

lemma Spends.mono (hx : Spends rest x) (h : rest ≤ stock) : Spends stock x := by
  intro n a m ha
  obtain ⟨hle, hlabels⟩ := hx n a m ha
  exact ⟨hle, hlabels.trans (Multiset.add_le_add_right h)⟩

/-- A step that uses a part of the stock leaves the rest of it, and its own result, to what comes
after it. -/
lemma Spends.bind {f : α → Making β} (hx : Spends stock x)
    (hf : ∀ a, Spends (rest + labels a) (f a)) : Spends (rest + stock) (x >>= f) := by
  intro n b m hb
  obtain ⟨a, k, ha, hb⟩ := bind_ok_iff.1 hb
  obtain ⟨hnk, hlabels⟩ := hx n a k ha
  obtain ⟨hkm, hresult⟩ := hf a k b m hb
  refine ⟨hnk.trans hkm, ?_⟩
  calc labels b ≤ rest + labels a + Multiset.Ico k m := hresult
    _ ≤ rest + (stock + Multiset.Ico n k) + Multiset.Ico k m := by gcongr
    _ = rest + stock + Multiset.Ico n m := by
      rw [← Multiset.Ico_add_Ico_eq_Ico hnk hkm]
      simp only [add_assoc]

/-- A step that uses nothing of the stock leaves all of it to what comes after it. -/
lemma Spends.then {f : α → Making β} (hx : Spends 0 x)
    (hf : ∀ a, Spends (stock + labels a) (f a)) : Spends stock (x >>= f) := by
  simpa using hx.bind hf

/-- A step that uses all of the stock leaves nothing but its result to what comes after it. -/
lemma Spends.next {f : α → Making β} (hx : Spends stock x) (hf : ∀ a, Spends (labels a) (f a)) :
    Spends stock (x >>= f) := by
  rw [← zero_add stock]
  refine hx.bind fun a => ?_
  rw [zero_add]
  exact hf a

lemma Spends.map {f : α → β} (hx : Spends stock x) (hf : ∀ a, labels (f a) ≤ labels a) :
    Spends stock (f <$> x) := by
  intro n b m hb
  obtain ⟨a, ha, rfl⟩ := map_ok_iff.1 hb
  obtain ⟨hle, hlabels⟩ := hx n a m ha
  exact ⟨hle, (hf a).trans hlabels⟩

omit [HasLabels α] in
lemma spends_mapM {f : α → Making β} {as : List α} (h : ∀ a ∈ as, Spends 0 (f a)) :
    Spends 0 (as.mapM f) := by
  induction as with
  | nil => exact spends_pure le_rfl
  | cons a as ih =>
    rw [List.mapM_cons]
    refine (h a List.mem_cons_self).then fun b => ?_
    exact (ih fun c hc => h c (List.mem_cons_of_mem a hc)).then fun bs => spends_pure (by simp)

omit [HasLabels α] in
/-- A run of steps, each of which makes a state of the one before. -/
lemma spends_foldlM {f : σ → α → Making σ} {as : List α}
    (h : ∀ s, ∀ a ∈ as, Spends (labels s) (f s a)) (s : σ) :
    Spends (labels s) (as.foldlM f s) := by
  induction as generalizing s with
  | nil => exact spends_pure le_rfl
  | cons a as ih =>
    rw [List.foldlM_cons]
    refine (h s a List.mem_cons_self).next fun t => ?_
    exact ih (fun s b hb => h s b (List.mem_cons_of_mem a hb)) t

/-- A node takes the nodes of its parts from the stock. -/
lemma spends_make {span : Span} {kind : Kind} {fields : List (Field × Slot Draft)}
    (h : labels fields ≤ stock) : Spends stock (Convert.make span kind fields) := by
  rintro n d m hd
  cases hd
  have hlabel : Multiset.Ico n (n + 1) = {n} := congrArg Finset.val (Nat.Ico_succ_singleton n)
  refine ⟨Nat.le_succ n, ?_⟩
  rw [labels_mk, hlabel, ← Multiset.singleton_add, add_comm]
  exact Multiset.add_le_add_right h

/-- Without a stock, no node is used twice. -/
lemma Spends.nodup (hx : Spends 0 x) {a : α} (h : x n = .ok (a, m)) : (labels a).Nodup := by
  have hle := (hx n a m h).2
  rw [zero_add] at hle
  exact Multiset.nodup_of_le hle (Multiset.nodup_Ico ..)

end Spends

end Making

/-- The draft of a tree is what its root reads as when nothing has been made before. -/
lemma Convert.draft_ok_iff {i : Input} {c : Concrete Unit} {d : Draft} :
    draft i c = .ok d ↔ ∃ m, (c.annotate (read i)).label.value 0 = .ok (some d, m) := by
  rw [draft, bind_ok_iff]
  constructor
  · rintro ⟨o, ho, hd⟩
    obtain ⟨⟨o, m⟩, hrun, rfl⟩ := map_ok_iff.1 ho
    cases o with
    | none => cases hd
    | some d =>
      cases hd
      exact ⟨m, hrun⟩
  · rintro ⟨m, hrun⟩
    exact ⟨some d, map_ok_iff.2 ⟨(some d, m), hrun, rfl⟩, rfl⟩

end RefFlow
