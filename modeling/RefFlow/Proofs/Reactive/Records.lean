import RefFlow.Proofs.Fault.Extract
import RefFlow.Proofs.Reactive.Calls

/-!
# Which references to reactive variables are recorded

The extraction goes through the macro calls of a program one after the other, follows each
identifier that a call makes reactive, and records the occurrences of its variable.  An identifier
is followed once, and an occurrence that is met again gets a new record in the place of the old one.
This module says what comes out without any mention of the order.

* `Makes`, `Reaches` and `Counts` say which identifiers are followed, to which nodes they lead, and
  which occurrences are recorded.  `gives_extract` shows that these are all records.
* `exists_extract_iff` shows when the extraction succeeds: every step must, whether or not the
  identifier has been followed before.

The proofs rest on what one step does (`Grows`) and on what holds of the identifiers that have been
followed so far (`Complete`).
-/

namespace RefFlow

open Fallible

/-! ## References of a program -/

namespace Program

variable {p : Program} {r : Reference} {v : VariableId}

lemma Whole.find_eq (hp : p.Whole) (n : Node) : p.find n = (do
    match ← n.text? .name with
    | some name => return p.graph.lookup (p.graph.innermost 0 n.span.start) name
    | none => return none) := by
  obtain ⟨s, hs, -⟩ := hp.exists_scope
  have hscope : p.graph.scope 0 = .ok s := by rw [Graph.scope, hs]
  unfold find
  rw [hp.global, Graph.find, hscope]
  rfl

lemma Whole.exists_find_iff (hp : p.Whole) {n : Node} :
    (∃ o, p.find n = .ok o) ↔ ∃ t, n.text? .name = .ok t := by
  rw [hp.find_eq]
  constructor
  · rintro ⟨o, h⟩
    obtain ⟨t, ht, -⟩ := bind_ok_iff.1 h
    exact ⟨t, ht⟩
  · rintro ⟨t, ht⟩
    rw [ht]
    cases t <;> exact ⟨_, rfl⟩

lemma Whole.find_eq_some_iff (hp : p.Whole) {n : Node} : p.find n = .ok (some v) ↔
    ∃ name, n.text? .name = .ok (some name) ∧
      p.graph.lookup (p.graph.innermost 0 n.span.start) name = some v := by
  rw [hp.find_eq, bind_ok_iff]
  constructor
  · rintro ⟨t, ht, h⟩
    cases t with
    | none => cases h
    | some name => exact ⟨name, ht, pure_ok_iff.1 h⟩
  · rintro ⟨name, hname, h⟩
    exact ⟨some name, hname, pure_ok_iff.2 h⟩

lemma exists_occurrences_iff {n : Node} :
    (∃ rs, p.occurrences n = .ok rs) ↔ ∃ o, p.find n = .ok o := by
  unfold occurrences
  constructor
  · rintro ⟨rs, h⟩
    obtain ⟨o, ho, -⟩ := bind_ok_iff.1 h
    exact ⟨o, ho⟩
  · rintro ⟨o, ho⟩
    rw [ho]
    cases o <;> exact ⟨_, rfl⟩

lemma mem_occurrences_iff {n : Node} {rs : List Reference} (h : p.occurrences n = .ok rs) :
    r ∈ rs ↔ ∃ v, p.find n = .ok (some v) ∧ r ∈ p.graph.references ∧ r.resolved = some v := by
  obtain ⟨o, ho, h⟩ := bind_ok_iff.1 h
  rw [ho]
  cases o with
  | none =>
    rw [← pure_ok_iff.1 h]
    simp
  | some v =>
    rw [← pure_ok_iff.1 h, mem_referencesTo_iff]
    simp

lemma soleDefinition?_eq_some_iff {d : Definition} : p.soleDefinition? r = some d ↔
    ∃ v x, r.resolved = some v ∧ p.graph.get? v = some x ∧ x.definitions = [d] ∧
      d.kind = .variable := by
  unfold soleDefinition?
  constructor
  · intro h
    obtain ⟨v, hv, h⟩ := Option.bind_eq_some_iff.1 h
    obtain ⟨x, hx, h⟩ := Option.bind_eq_some_iff.1 h
    split at h
    · rename_i hd
      split at h
      · rename_i hkind
        cases h
        exact ⟨v, x, hv, hx, hd, by simpa using hkind⟩
      · cases h
    · cases h
  · rintro ⟨v, x, hv, hx, hd, hkind⟩
    simp [hv, hx, hd, hkind]

end Program

namespace Reactive

variable {p : Program} {calls : List Node} {site : Site} {f f' f'' : Findings} {b x : Node}
  {r : Reference}

/-! ## What is followed and recorded -/

/-- The occurrence counts: its variable has one definition, which is that of a plain variable and
stands elsewhere. -/
def Counts (p : Program) (r : Reference) : Prop :=
  ∃ d, p.soleDefinition? r = some d ∧ d.identifier.id ≠ r.identifier.id

/-- The node is an occurrence, one that counts, of the variable of the identifier. -/
def Reaches (p : Program) (b x : Node) : Prop :=
  ∃ rs, p.occurrences b = .ok rs ∧ ∃ r ∈ rs, Counts p r ∧ r.identifier = x

/-- A macro call makes the identifier reactive. -/
def Makes (p : Program) (b : Node) : Prop :=
  ∃ sites, Site.ofMacros p = .ok sites ∧ ∃ site ∈ sites, ∃ ns, declared p site = .ok ns ∧ b ∈ ns

/-- The identifier can be followed. -/
structure Settles (p : Program) (calls : List Node) (b : Node) : Prop where
  occurrences : ∃ rs, p.occurrences b = .ok rs
  handed : ∀ x, Reaches p b x → ∃ e, Escape.handed calls x (p.above x) = .ok e

lemma reaches_iff : Reaches p b x ↔ ∃ v r, p.find b = .ok (some v) ∧ r ∈ p.graph.references ∧
    r.resolved = some v ∧ Counts p r ∧ r.identifier = x := by
  constructor
  · rintro ⟨rs, hrs, r, hr, hcounts, hx⟩
    obtain ⟨v, hv, hr, hresolved⟩ := (Program.mem_occurrences_iff hrs).1 hr
    exact ⟨v, r, hv, hr, hresolved, hcounts, hx⟩
  · rintro ⟨v, r, hv, hr, hresolved, hcounts, hx⟩
    obtain ⟨rs, hrs⟩ := Program.exists_occurrences_iff.2 ⟨_, hv⟩
    exact ⟨rs, hrs, r, (Program.mem_occurrences_iff hrs).2 ⟨v, hv, hr, hresolved⟩, hcounts, hx⟩

lemma Reaches.has (h : Reaches p b x) : p.Has x := by
  obtain ⟨rs, hrs, r, hr, -, rfl⟩ := h
  exact RefObject.gives_occurrences p b rs hrs r hr

/-! ## Steps -/

/-- The findings grow: nothing is forgotten, and new records are of nodes of a certain sort, and say
whether these are handed to the escape hint. -/
structure Grows (p : Program) (calls : List Node) (X : Node → Prop) (f f' : Findings) : Prop where
  followed : ∀ i ∈ f.followed, i ∈ f'.followed
  kept : ∀ n, (f.get? n).isSome → (f'.get? n).isSome
  new : ∀ n r, f'.get? n = some r → f.get? n = some r ∨
    r.node.id = n ∧ X r.node ∧ Escape.handed calls r.node (p.above r.node) = .ok r.escape

variable {X Y : Node → Prop}

lemma Grows.refl (f : Findings) : Grows p calls X f f :=
  ⟨fun _ hi => hi, fun _ hn => hn, fun _ _ hr => .inl hr⟩

lemma Grows.trans (h : Grows p calls X f f') (h' : Grows p calls X f' f'') :
    Grows p calls X f f'' := by
  refine ⟨fun i hi => h'.followed i (h.followed i hi), fun n hn => h'.kept n (h.kept n hn), ?_⟩
  intro n r hr
  rcases h'.new n r hr with hr | hnew
  · exact h.new n r hr
  · exact .inr hnew

lemma Grows.mono (h : Grows p calls X f f') (hXY : ∀ x, X x → Y x) : Grows p calls Y f f' := by
  refine ⟨h.followed, h.kept, fun n r hr => ?_⟩
  rcases h.new n r hr with hr | ⟨hid, hX, hhanded⟩
  · exact .inl hr
  · exact .inr ⟨hid, hXY _ hX, hhanded⟩

/-- What every step of a run adds, the whole run adds. -/
lemma grows_foldlM {α : Type} {step : Findings → α → Except Fault Findings} {as : List α}
    (h : ∀ f, ∀ a ∈ as, Gives (step f a) (Grows p calls X f)) (f : Findings) :
    Gives (as.foldlM step f) (Grows p calls X f) :=
  gives_foldlM (fun f₁ a ha h₁ => (h f₁ a ha).mono fun _ h₂ => h₁.trans h₂) (.refl f)

/-! ### Occurrences -/

lemma occur_of_not_counts (h : ¬Counts p r) : occur p calls site f r = .ok f := by
  unfold occur
  cases hd : p.soleDefinition? r with
  | none => rfl
  | some d =>
    have hid : d.identifier.id = r.identifier.id := by
      by_contra hne
      exact h ⟨d, hd, hne⟩
    simp [hid]

lemma occur_of_counts (h : Counts p r) (calls : List Node) (site : Site) (f : Findings) :
    ∃ owner, occur p calls site f r = (do
      let escape ← Escape.handed calls r.identifier (p.above r.identifier)
      return { f with
        records := f.records.set r.identifier.id
          { node := r.identifier, escape := escape, method := site.method, site := site
            owner := owner } }) := by
  obtain ⟨d, hd, hne⟩ := h
  refine ⟨d.declaration, ?_⟩
  simp [occur, hd, hne]

lemma exists_occur_iff : (∃ f', occur p calls site f r = .ok f') ↔
    (Counts p r → ∃ e, Escape.handed calls r.identifier (p.above r.identifier) = .ok e) := by
  by_cases hcounts : Counts p r
  · obtain ⟨owner, hoccur⟩ := occur_of_counts hcounts calls site f
    rw [hoccur, forall_prop_of_true hcounts]
    constructor
    · rintro ⟨f', h⟩
      obtain ⟨e, he, -⟩ := bind_ok_iff.1 h
      exact ⟨e, he⟩
    · rintro ⟨e, he⟩
      rw [he]
      exact ⟨_, rfl⟩
  · rw [occur_of_not_counts hcounts]
    exact ⟨fun _ h => absurd h hcounts, fun _ => ⟨f, rfl⟩⟩

lemma gives_occur (calls : List Node) (site : Site) (f : Findings) (r : Reference) :
    Gives (occur p calls site f r) fun f' =>
      Grows p calls (fun x => Counts p r ∧ r.identifier = x) f f' ∧ f'.followed = f.followed ∧
        (Counts p r → (f'.get? r.identifier.id).isSome) := by
  by_cases hcounts : Counts p r
  · obtain ⟨owner, hoccur⟩ := occur_of_counts hcounts calls site f
    rw [hoccur]
    intro f' h
    obtain ⟨e, he, h⟩ := bind_ok_iff.1 h
    obtain rfl := pure_ok_iff.1 h
    refine ⟨⟨fun _ hi => hi, fun n hn => ?_, fun n x hx => ?_⟩, rfl, fun _ => ?_⟩
    · rw [Findings.get?, Table.get?_set]
      split
      · rfl
      · exact hn
    · rw [Findings.get?, Table.get?_set] at hx
      split at hx
      · rename_i hid
        cases hx
        exact .inr ⟨by simpa using hid, ⟨hcounts, rfl⟩, he⟩
      · exact .inl hx
    · rw [Findings.get?, Table.get?_set, if_pos (beq_self_eq_true _)]
      rfl
  · rw [occur_of_not_counts hcounts]
    exact gives_ok ⟨.refl f, rfl, fun h => absurd h hcounts⟩

/-! ### Identifiers -/

lemma bind_of_mem (h : b.id ∈ f.followed) : bind p calls site f b = .ok f := by
  simp [bind, h]

lemma bind_of_not_mem (h : b.id ∉ f.followed) : bind p calls site f b = (do
    (← p.occurrences b).foldlM (occur p calls site)
      { f with followed := b.id :: f.followed }) := by
  simp [bind, h]

lemma exists_bind_iff_of_not_mem (h : b.id ∉ f.followed) :
    (∃ f', bind p calls site f b = .ok f') ↔ Settles p calls b := by
  have hfold (rs : List Reference) (f : Findings) :
      (∃ f', rs.foldlM (occur p calls site) f = .ok f') ↔ ∀ r ∈ rs, Counts p r →
        ∃ e, Escape.handed calls r.identifier (p.above r.identifier) = .ok e :=
    exists_foldlM_iff (I := fun _ => True) (fun _ _ _ _ => exists_occur_iff)
      (fun _ _ _ _ => gives_true) trivial
  rw [bind_of_not_mem h]
  constructor
  · rintro ⟨f', h⟩
    obtain ⟨rs, hrs, h⟩ := bind_ok_iff.1 h
    refine ⟨⟨rs, hrs⟩, ?_⟩
    rintro x ⟨rs', hrs', r, hr, hcounts, rfl⟩
    obtain rfl : rs = rs' := Except.ok.inj (hrs.symm.trans hrs')
    exact (hfold rs _).1 ⟨f', h⟩ r hr hcounts
  · rintro ⟨⟨rs, hrs⟩, hhanded⟩
    rw [hrs]
    exact (hfold rs _).2 fun r hr hcounts => hhanded _ ⟨rs, hrs, r, hr, hcounts, rfl⟩

/-- Following an identifier for the first time records all nodes that it leads to. -/
lemma gives_bind_of_not_mem (h : b.id ∉ f.followed) :
    Gives (bind p calls site f b) fun f' => Grows p calls (Reaches p b) f f' ∧
      f'.followed = b.id :: f.followed ∧ ∀ x, Reaches p b x → (f'.get? x.id).isSome := by
  rw [bind_of_not_mem h]
  intro f' hf'
  obtain ⟨rs, hrs, hf'⟩ := bind_ok_iff.1 hf'
  have hgrows := grows_foldlM (X := Reaches p b) (fun f₁ r hr => (gives_occur calls site f₁ r).mono
    fun f₂ h₂ => h₂.1.mono fun x ⟨hcounts, hx⟩ => ⟨rs, hrs, r, hr, hcounts, hx⟩) _ f' hf'
  refine ⟨⟨fun i hi => ?_, hgrows.kept, hgrows.new⟩, ?_, ?_⟩
  · exact hgrows.followed i (List.mem_cons_of_mem _ hi)
  · exact gives_foldlM (P := fun f₁ => f₁.followed = b.id :: f.followed)
      (fun f₁ r _ h₁ => (gives_occur calls site f₁ r).mono fun f₂ h₂ => h₂.2.1.trans h₁) rfl f' hf'
  · rintro x ⟨rs', hrs', r, hr, hcounts, rfl⟩
    obtain rfl : rs = rs' := Except.ok.inj (hrs.symm.trans hrs')
    refine attained_foldlM (P := fun r f₁ => Counts p r → (f₁.get? r.identifier.id).isSome)
      (fun f₁ r _ => (gives_occur calls site f₁ r).mono fun f₂ h₂ => h₂.2.2)
      (fun r f₁ r' h₁ => (gives_occur calls site f₁ r').mono fun f₂ h₂ hc => ?_) hf' r hr hcounts
    exact h₂.1.kept _ (h₁ hc)

lemma gives_bind (calls : List Node) (site : Site) (f : Findings) (b : Node) :
    Gives (bind p calls site f b) fun f' =>
      Grows p calls (Reaches p b) f f' ∧ b.id ∈ f'.followed := by
  by_cases hb : b.id ∈ f.followed
  · rw [bind_of_mem hb]
    exact gives_ok ⟨.refl f, hb⟩
  · refine (gives_bind_of_not_mem hb).mono fun f' ⟨hgrows, hfollowed, _⟩ => ⟨hgrows, ?_⟩
    rw [hfollowed]
    exact List.mem_cons_self

/-- The identifiers that have been followed could be, and what they lead to has been recorded. -/
def Complete (p : Program) (calls : List Node) (f : Findings) : Prop :=
  ∀ b, p.Has b → b.id ∈ f.followed →
    Settles p calls b ∧ ∀ x, Reaches p b x → (f.get? x.id).isSome

lemma exists_bind_iff (hf : Complete p calls f) (hb : p.Has b) :
    (∃ f', bind p calls site f b = .ok f') ↔ Settles p calls b := by
  by_cases hmem : b.id ∈ f.followed
  · rw [bind_of_mem hmem]
    exact ⟨fun _ => (hf b hb hmem).1, fun _ => ⟨f, rfl⟩⟩
  · exact exists_bind_iff_of_not_mem hmem

lemma complete_bind (hf : Complete p calls f) (hb : p.Has b) :
    Gives (bind p calls site f b) (Complete p calls) := by
  by_cases hmem : b.id ∈ f.followed
  · rw [bind_of_mem hmem]
    exact gives_ok hf
  · intro f' hf' c hc hcmem
    obtain ⟨hgrows, hfollowed, hnew⟩ := gives_bind_of_not_mem hmem f' hf'
    rw [hfollowed] at hcmem
    rcases List.mem_cons.1 hcmem with hid | hcmem
    · obtain rfl := hc.eq_of_id_eq hb hid
      exact ⟨(exists_bind_iff_of_not_mem hmem).1 ⟨f', hf'⟩, hnew⟩
    · obtain ⟨hsettles, hrecorded⟩ := hf c hc hcmem
      exact ⟨hsettles, fun x hx => hgrows.kept _ (hrecorded x hx)⟩

/-! ### Macro calls -/

/-- Follows the identifiers that a macro call makes reactive. -/
def follow (p : Program) (calls : List Node) (f : Findings) (site : Site) :
    Except Fault Findings := do
  (← declared p site).foldlM (bind p calls site) f

lemma extract_eq (p : Program) : extract p = (do
    let calls ← Site.escapeCalls p
    (← Site.ofMacros p).foldlM (follow p calls) {}) := rfl

lemma exists_follow_iff (hf : Complete p calls f) (hsite : p.Has site.node) :
    (∃ f', follow p calls f site = .ok f') ↔
      ∃ ns, declared p site = .ok ns ∧ ∀ b ∈ ns, Settles p calls b := by
  have hfold (ns : List Node) (hns : declared p site = .ok ns) :
      (∃ f', ns.foldlM (bind p calls site) f = .ok f') ↔ ∀ b ∈ ns, Settles p calls b := by
    have hhas (b : Node) (hb : b ∈ ns) : p.Has b := (gives_declared hsite ns hns b hb).1
    exact exists_foldlM_iff (I := Complete p calls)
      (fun f b hb hf => exists_bind_iff hf (hhas b hb))
      (fun f b hb hf => complete_bind hf (hhas b hb)) hf
  unfold follow
  constructor
  · rintro ⟨f', h⟩
    obtain ⟨ns, hns, h⟩ := bind_ok_iff.1 h
    exact ⟨ns, hns, (hfold ns hns).1 ⟨f', h⟩⟩
  · rintro ⟨ns, hns, hsettles⟩
    rw [hns]
    exact (hfold ns hns).2 hsettles

lemma complete_follow (hf : Complete p calls f) (hsite : p.Has site.node) :
    Gives (follow p calls f site) (Complete p calls) :=
  (gives_declared hsite).bind fun _ hns =>
    gives_foldlM (fun _ b hb hf => complete_bind hf (hns b hb).1) hf

lemma gives_follow (calls : List Node) (f : Findings) (site : Site) :
    Gives (follow p calls f site) fun f' =>
      Grows p calls (fun x => ∃ ns, declared p site = .ok ns ∧ ∃ b ∈ ns, Reaches p b x) f f' ∧
        ∀ ns, declared p site = .ok ns → ∀ b ∈ ns, b.id ∈ f'.followed := by
  intro f' h
  obtain ⟨ns, hns, h⟩ := bind_ok_iff.1 h
  refine ⟨?_, fun ns' hns' => ?_⟩
  · refine grows_foldlM (fun f₁ b hb => (gives_bind calls site f₁ b).mono fun f₂ h₂ => ?_) f f' h
    exact h₂.1.mono fun x hx => ⟨ns, hns, b, hb, hx⟩
  · obtain rfl : ns = ns' := Except.ok.inj (hns.symm.trans hns')
    exact attained_foldlM (P := fun b f₁ => b.id ∈ f₁.followed)
      (fun f₁ b _ => (gives_bind calls site f₁ b).mono fun _ h₂ => h₂.2)
      (fun b f₁ c hb => (gives_bind calls site f₁ c).mono fun _ h₂ => h₂.1.followed _ hb) h

/-! ## The whole extraction -/

lemma complete_empty : Complete p calls {} := by
  intro b _ hb
  cases hb

/-- The extraction succeeds if all identifiers that macro calls make reactive can be followed. -/
lemma exists_extract_iff : (∃ f, extract p = .ok f) ↔ ∃ calls sites,
    Site.escapeCalls p = .ok calls ∧ Site.ofMacros p = .ok sites ∧ ∀ site ∈ sites,
      ∃ ns, declared p site = .ok ns ∧ ∀ b ∈ ns, Settles p calls b := by
  have hfold (calls : List Node) (sites : List Site) (hsites : Site.ofMacros p = .ok sites) :
      (∃ f, sites.foldlM (follow p calls) {} = .ok f) ↔ ∀ site ∈ sites,
        ∃ ns, declared p site = .ok ns ∧ ∀ b ∈ ns, Settles p calls b := by
    have hhas (site : Site) (hsite : site ∈ sites) : p.Has site.node :=
      Site.gives_ambientCalls _ sites hsites site hsite
    exact exists_foldlM_iff (I := Complete p calls)
      (fun f site hsite hf => exists_follow_iff hf (hhas site hsite))
      (fun f site hsite hf => complete_follow hf (hhas site hsite)) complete_empty
  rw [extract_eq]
  constructor
  · rintro ⟨f, h⟩
    obtain ⟨calls, hcalls, h⟩ := bind_ok_iff.1 h
    obtain ⟨sites, hsites, h⟩ := bind_ok_iff.1 h
    exact ⟨calls, sites, hcalls, hsites, (hfold calls sites hsites).1 ⟨f, h⟩⟩
  · rintro ⟨calls, sites, hcalls, hsites, hall⟩
    rw [hcalls, hsites]
    exact (hfold calls sites hsites).2 hall

/-- **What is recorded.**  The records of a program are those of the nodes that the identifiers lead
to which macro calls make reactive, and say whether these are handed to the escape hint. -/
lemma gives_extract (hcalls : Site.escapeCalls p = .ok calls) (h : extract p = .ok f) :
    (∀ n r, f.get? n = some r → r.node.id = n ∧ (∃ b, Makes p b ∧ Reaches p b r.node) ∧
      Escape.handed calls r.node (p.above r.node) = .ok r.escape) ∧
    ∀ b x, Makes p b → Reaches p b x → ∃ r, f.get? x.id = some r ∧ r.node = x := by
  rw [extract_eq, hcalls, ok_bind] at h
  obtain ⟨sites, hsites, h⟩ := bind_ok_iff.1 h
  have hhas (site : Site) (hsite : site ∈ sites) : p.Has site.node :=
    Site.gives_ambientCalls _ sites hsites site hsite
  have hgrows : Grows p calls (fun x => ∃ b, Makes p b ∧ Reaches p b x) {} f := by
    refine grows_foldlM (fun f₁ site hsite => (gives_follow calls f₁ site).mono fun f₂ h₂ => ?_) {}
      f h
    exact h₂.1.mono fun x ⟨ns, hns, b, hb, hx⟩ => ⟨b, ⟨sites, hsites, site, hsite, ns, hns, hb⟩, hx⟩
  have hcomplete : Complete p calls f :=
    gives_foldlM (fun f₁ site hsite hf => complete_follow hf (hhas site hsite)) complete_empty f h
  have hfollowed : ∀ site ∈ sites, ∀ ns, declared p site = .ok ns →
      ∀ b ∈ ns, b.id ∈ f.followed := by
    refine attained_foldlM
      (P := fun site f₁ => ∀ ns, declared p site = .ok ns → ∀ b ∈ ns, b.id ∈ f₁.followed)
      (fun f₁ site _ => (gives_follow calls f₁ site).mono fun _ h₂ => h₂.2)
      (fun site f₁ other h₁ => (gives_follow calls f₁ other).mono fun _ h₂ ns hns b hb => ?_) h
    exact h₂.1.followed _ (h₁ ns hns b hb)
  have hnew (n : Nat) (r : Record) (hr : f.get? n = some r) : r.node.id = n ∧
      (∃ b, Makes p b ∧ Reaches p b r.node) ∧
      Escape.handed calls r.node (p.above r.node) = .ok r.escape := by
    rcases hgrows.new n r hr with hnone | hnew
    · cases hnone
    · exact hnew
  refine ⟨hnew, ?_⟩
  rintro b x ⟨sites', hsites', site, hsite, ns, hns, hb⟩ hx
  obtain rfl : sites = sites' := Except.ok.inj (hsites.symm.trans hsites')
  have hbhas : p.Has b := (gives_declared (hhas site hsite) ns hns b hb).1
  obtain ⟨-, hrecorded⟩ := hcomplete b hbhas (hfollowed site hsite ns hns b hb)
  obtain ⟨r, hr⟩ := Option.isSome_iff_exists.1 (hrecorded x hx)
  obtain ⟨hid, ⟨c, -, hc⟩, -⟩ := hnew x.id r hr
  exact ⟨r, hr, hc.has.eq_of_id_eq hx.has hid⟩

end Reactive

end RefFlow
