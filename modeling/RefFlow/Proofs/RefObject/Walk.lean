import RefFlow.Proofs.RefObject.Flow
import RefFlow.Proofs.Unbounded

/-!
# The walk that collects references to ref objects

The walk goes depth first, and marks an identifier as followed before it looks at the occurrences of
its variable.  So while it is under way there are identifiers that are marked and whose occurrences
are not dealt with yet.  What a part of the walk does is described by `Extends p f g`, a preorder on
the findings before and after:

* nothing that has been found is lost, and
* all identifiers that have been marked in the meantime are dealt with completely (`Settled`);
* sound findings stay sound (`Sound`): every edge of the derivation is a step of the flow, and every
  record is a reference to the object of its own site, to which the derivation leads from there.

Every function of the walk extends the findings, and deals with what it is called for.  For the
recursive one, `bind`, this is proved by induction on the budget (`follows_bind`).  The budget is
enough because it is at least the number of nodes that have not been followed (`Budget`).
-/

namespace RefFlow

open Fallible

namespace RefObject

/-! ## Findings -/

/-- The derivation leads from the one node to the other. -/
def Findings.Leads (f : Findings) : Nat → Nat → Prop :=
  Relation.ReflTransGen fun a b => (a, b) ∈ f.derivation.edges

lemma Findings.Leads.mono {f g : Findings} {a b : Nat} (h : f.Leads a b)
    (hfg : ∀ e ∈ f.derivation.edges, e ∈ g.derivation.edges) : g.Leads a b :=
  Relation.ReflTransGen.mono (fun _ _ he => hfg _ he) _ _ h

/-- The node has a record. -/
def Findings.Records (f : Findings) (n : Node) : Prop := f.records.has n.id = true

/-- The findings say nothing wrong. -/
structure Sound (p : Program) (f : Findings) : Prop where
  edge : ∀ a b, (a, b) ∈ f.derivation.edges →
    ∃ x y, p.Has x ∧ p.Has y ∧ x.id = a ∧ y.id = b ∧ FlowStep p x y
  record : ∀ k r, f.records.get? k = some r →
    r.node.id = k ∧ IsSite p r.site ∧ Recorded p r.site r.node ∧ f.Leads r.site.node.id k
  method : ∀ k r, f.records.get? k = some r → r.method = r.site.method

lemma sound_initial (p : Program) : Sound p {} := ⟨nofun, nofun, nofun⟩

/-! ### What is dealt with -/

section Settled

variable (p : Program) (f : Findings)

/-- The target has received the object. -/
def TargetSettled (t : Node) : Prop :=
  ∀ c, t.Core c →
    (c.kind = .identifier → c.id ∈ f.followed) ∧ (c.kind = .objectPattern → f.Records c)

/-- The occurrence has handed on the object, or has a record. -/
def OccurrenceSettled (r : Reference) : Prop :=
  (∀ t, r.access.reads = true → Rebinds p r.identifier (some t) → TargetSettled f t) ∧
    (¬(r.access.reads = true ∧ ∃ t, Rebinds p r.identifier t) → f.Records r.identifier)

/-- The member expression has handed on the object, or has a record. -/
def MemberSettled (m : Node) : Prop :=
  (∀ t, Rebinds p m (some t) → TargetSettled f t) ∧ ((¬∃ t, Rebinds p m t) → f.Records m)

/-- What the property goes to is dealt with. -/
def NestSettled : Nest → Prop
  | .expression m => MemberSettled p f m
  | .pattern t => ∀ n ∈ t, TargetSettled f n

/-- The occurrences of the variable that the identifier with this number means are dealt with. -/
def Settled (i : Nat) : Prop :=
  ∀ b v r, p.Has b → b.id = i → p.find b = .ok (some v) → r ∈ p.referencesTo v →
    ¬IsDefinition p r → OccurrenceSettled p f r

/-- The object of the site is dealt with. -/
def SiteSettled (s : Site) : Prop :=
  (s.method ≠ Site.spreading → (∀ t, Destination p s.node (some t) → TargetSettled f t) ∧
      ((¬∃ t, Destination p s.node t) → f.Records s.node)) ∧
    (s.method = Site.spreading → ∀ t nest, Destination p s.node t → PropertyNest p t nest →
      NestSettled p f nest)

end Settled

/-- The one findings are the other with more found, and with all that was begun in the meantime
dealt with. -/
structure Extends (p : Program) (f g : Findings) : Prop where
  records : ∀ n, f.Records n → g.Records n
  edges : ∀ e ∈ f.derivation.edges, e ∈ g.derivation.edges
  followed : ∀ i ∈ f.followed, i ∈ g.followed
  fresh : ∀ i ∈ g.followed, i ∈ f.followed ∨ Settled p g i
  sound : Sound p f → Sound p g

variable {p : Program} {s : Site} {f g h : Findings}

lemma TargetSettled.mono {t : Node} (ht : TargetSettled f t) (hr : ∀ n, f.Records n → g.Records n)
    (hf : ∀ i ∈ f.followed, i ∈ g.followed) : TargetSettled g t := fun c hc =>
  ⟨fun hi => hf _ ((ht c hc).1 hi), fun ho => hr _ ((ht c hc).2 ho)⟩

namespace Extends

lemma refl (p : Program) (f : Findings) : Extends p f f :=
  ⟨fun _ h => h, fun _ h => h, fun _ h => h, fun _ h => .inl h, fun h => h⟩

section Persist

variable (hfg : Extends p f g)
include hfg

lemma target {t : Node} (ht : TargetSettled f t) : TargetSettled g t :=
  ht.mono hfg.records hfg.followed

lemma occurrence {r : Reference} (hr : OccurrenceSettled p f r) : OccurrenceSettled p g r :=
  ⟨fun t hreads ht => hfg.target (hr.1 t hreads ht), fun hnot => hfg.records _ (hr.2 hnot)⟩

lemma member {m : Node} (hm : MemberSettled p f m) : MemberSettled p g m :=
  ⟨fun t ht => hfg.target (hm.1 t ht), fun hnot => hfg.records _ (hm.2 hnot)⟩

lemma nest {n : Nest} (hn : NestSettled p f n) : NestSettled p g n := by
  cases n with
  | expression m => exact hfg.member hn
  | pattern t => exact fun u hu => hfg.target (hn u hu)

lemma settled {i : Nat} (hi : Settled p f i) : Settled p g i :=
  fun b v r hb hid hv hr hnot => hfg.occurrence (hi b v r hb hid hv hr hnot)

lemma site (hs : SiteSettled p f s) : SiteSettled p g s := by
  refine ⟨fun hsingle => ⟨fun t ht => ?_, fun hnot => ?_⟩, fun hspread t n ht hn => ?_⟩
  · exact hfg.target ((hs.1 hsingle).1 t ht)
  · exact hfg.records _ ((hs.1 hsingle).2 hnot)
  · exact hfg.nest (hs.2 hspread t n ht hn)

lemma leads {a b : Nat} (hab : f.Leads a b) : g.Leads a b := hab.mono hfg.edges

end Persist

lemma trans (hfg : Extends p f g) (hgh : Extends p g h) : Extends p f h where
  records n hn := hgh.records n (hfg.records n hn)
  edges e he := hgh.edges e (hfg.edges e he)
  followed i hi := hgh.followed i (hfg.followed i hi)
  fresh i hi := by
    rcases hgh.fresh i hi with hi | hi
    · exact (hfg.fresh i hi).imp_right hgh.settled
    · exact .inr hi
  sound hf := hgh.sound (hfg.sound hf)

end Extends

/-! ### Single entries -/

lemma mem_edges_addEdge {d : Digraph Nat} {a b : Nat} {e : Nat × Nat} :
    e ∈ (d.addEdge a b).edges ↔ e ∈ d.edges ∨ e = (a, b) := by
  have hnode : ∀ (d : Digraph Nat) (v : Nat), (d.addNode v).edges = d.edges := by
    intro d v
    unfold Digraph.addNode
    split <;> rfl
  unfold Digraph.addEdge
  dsimp only
  split
  · rename_i hin
    rw [hnode, hnode] at hin ⊢
    exact ⟨.inl, fun he => he.elim id fun he => he ▸ hin⟩
  · rw [List.mem_append, hnode, hnode, List.mem_singleton]

lemma edges_start (f : Findings) (n : Node) :
    (f.start n).derivation.edges = f.derivation.edges := by
  unfold Findings.start Digraph.addNode
  dsimp only
  split <;> rfl

lemma extends_start (f : Findings) (n : Node) : Extends p f (f.start n) where
  records _ h := h
  edges e he := by rwa [edges_start]
  followed _ h := h
  fresh _ h := .inl h
  sound hf := by
    refine ⟨fun a b hab => hf.edge a b (edges_start f n ▸ hab), fun k r hr => ?_, hf.method⟩
    obtain ⟨hid, hsite, hrec, hlead⟩ := hf.record k r hr
    refine ⟨hid, hsite, hrec, ?_⟩
    rwa [Findings.Leads, edges_start]

lemma leads_derive (f : Findings) (x y : Node) : (f.derive x y).Leads x.id y.id :=
  .single (mem_edges_addEdge.2 (.inr rfl))

lemma extends_derive {x y : Node} (hx : p.Has x) (hy : p.Has y) (hstep : FlowStep p x y) :
    Extends p f (f.derive x y) where
  records _ h := h
  edges e he := mem_edges_addEdge.2 (.inl he)
  followed _ h := h
  fresh _ h := .inl h
  sound hf := by
    refine ⟨fun a b hab => ?_, fun k r hr => ?_, hf.method⟩
    · rcases mem_edges_addEdge.1 hab with hab | hab
      · exact hf.edge a b hab
      · cases hab
        exact ⟨x, y, hx, hy, rfl, rfl, hstep⟩
    · obtain ⟨hid, hsite, hrec, hlead⟩ := hf.record k r hr
      exact ⟨hid, hsite, hrec, hlead.mono fun _ he => mem_edges_addEdge.2 (.inl he)⟩

lemma records_record (f : Findings) (r : Record) : (f.record r).Records r.node := by
  simp [Findings.Records, Findings.record, Table.has, Table.get?_set]

lemma extends_record {r : Record} (hmethod : r.method = r.site.method) (hs : IsSite p r.site)
    (hr : Recorded p r.site r.node) (hlead : f.Leads r.site.node.id r.node.id) :
    Extends p f (f.record r) where
  records n hn := by
    unfold Findings.Records Findings.record Table.has at *
    rw [Table.get?_set]
    split
    · rfl
    · exact hn
  edges _ h := h
  followed _ h := h
  fresh _ h := .inl h
  sound hf := by
    refine ⟨hf.edge, fun k r' hr' => ?_, fun k r' hr' => ?_⟩ <;>
      rw [Findings.record, Table.get?_set] at hr' <;> split at hr'
    · rename_i hk
      cases hr'
      obtain rfl : r.node.id = k := by simpa using hk
      exact ⟨rfl, hs, hr, hlead⟩
    · exact hf.record k r' hr'
    · cases hr'
      exact hmethod
    · exact hf.method k r' hr'

/-! ## The budget -/

/-- The budget is at least the number of nodes that have not been followed. -/
def Budget (p : Program) (f : Findings) (n : Nat) : Prop :=
  ((List.range p.places.length).filter (· ∉ f.followed)).length ≤ n

lemma Budget.extends {n : Nat} (hn : Budget p f n) (hfg : ∀ i ∈ f.followed, i ∈ g.followed) :
    Budget p g n :=
  Unmarked.mono hn hfg

lemma budget_initial (p : Program) (f : Findings) : Budget p f p.places.length := by
  have hlength := unmarked_length (List.range p.places.length) f.followed
  rwa [List.length_range] at hlength

lemma Budget.mem_followed (hn : Budget p f 0) {c : Node} (hc : p.Has c) : c.id ∈ f.followed :=
  Unmarked.mem hn (List.mem_range.2 hc.id_lt)

/-- Following an identifier for the first time uses up one of the budget. -/
lemma Budget.follow {n : Nat} (hn : Budget p f (n + 1)) {c : Node} (hc : p.Has c)
    (hnew : c.id ∉ f.followed) : Budget p (f.follow c) n :=
  Unmarked.cons hn (List.mem_range.2 hc.id_lt) hnew

/-! ## Steps of the walk -/

/-- What is expected of the continuation at an identifier, within a budget. -/
def Follows (p : Program) (s : Site) (budget : Nat) (k : Node → Step) : Prop :=
  ∀ c f g, c.kind = .identifier → Reaches p s (.target c) → f.Leads s.node.id c.id →
    Budget p f budget → k c f = .ok g → Extends p f g ∧ c.id ∈ g.followed

section Steps

variable {budget : Nat} {k : Node → Step} (hs : IsSite p s) (hk : Follows p s budget k)
include hs hk

/-- A pattern that receives the object is dealt with. -/
lemma receive_extends {target : Option Node} {source : Node} (hb : Budget p f budget)
    (hlead : f.Leads s.node.id source.id) (hsource : p.Has source)
    (hreach : ∀ t ∈ target, Reaches p s (.target t))
    (hstep : ∀ t ∈ target, ∀ c, t.Core c → IsTarget c → FlowStep p source c)
    (h : receive s k target source f = .ok g) :
    Extends p f g ∧ ∀ t ∈ target, TargetSettled g t := by
  cases target with
  | none =>
    cases h
    exact ⟨.refl p f, nofun⟩
  | some t =>
    obtain ⟨o, ho, h⟩ := bind_ok_iff.1 h
    cases o with
    | none =>
      cases h
      refine ⟨.refl p f, ?_⟩
      rintro _ ⟨⟩ c hc
      rw [Node.withoutDefault_eq_some_iff.2 hc] at ho
      cases ho
    | some n =>
      have hcore := Node.withoutDefault_eq_some_iff.1 ho
      have hunique : ∀ c, t.Core c → c = n := by
        intro c hc
        rw [Node.withoutDefault_eq_some_iff.2 hc] at ho
        cases ho
        rfl
      have hn : Reaches p s (.target n) := (hreach t rfl).core hcore
      have hnhas : p.Has n := hn.standIn hs.has
      have hderive : IsTarget n → Extends p f (f.derive source n) := fun ht =>
        extends_derive hsource hnhas (hstep t rfl n hcore ht)
      have hlead' : IsTarget n → (f.derive source n).Leads s.node.id n.id := fun ht =>
        ((hderive ht).leads hlead).trans (leads_derive f source n)
      dsimp only at h
      split at h
      · rename_i hkind
        have hext := hderive (.inl hkind)
        obtain ⟨hext', hmem⟩ := hk n _ g hkind hn (hlead' (.inl hkind)) hb h
        refine ⟨hext.trans hext', ?_⟩
        rintro _ ⟨⟩ c hc
        cases hunique c hc
        exact ⟨fun _ => hmem, fun ho => absurd (hkind.symm.trans ho) (by decide)⟩
      · rename_i hkind
        cases h
        have hext := hderive (.inr hkind)
        refine ⟨hext.trans (extends_record rfl hs (.pattern hn hkind) (hlead' (.inr hkind))), ?_⟩
        rintro _ ⟨⟩ c hc
        cases hunique c hc
        exact ⟨fun hi => absurd (hkind.symm.trans hi) (by decide), fun _ => records_record _ _⟩
      · rename_i hni hno
        cases h
        refine ⟨.refl p f, ?_⟩
        rintro _ ⟨⟩ c hc
        cases hunique c hc
        exact ⟨fun hi => absurd hi hni, fun ho => absurd ho hno⟩

/-- A member expression that has the object as its value is dealt with. -/
lemma carry_extends {m : Node} (hb : Budget p f budget) (hm : Reaches p s (.member m))
    (hstep : FlowStep p s.node m) (h : carry p s k m s.node f = .ok g) :
    Extends p f g ∧ MemberSettled p g m := by
  obtain ⟨hmhas, hkind⟩ := hm.standIn hs.has
  have hext : Extends p f (f.derive s.node m) := extends_derive hs.has hmhas hstep
  have hlead : (f.derive s.node m).Leads s.node.id m.id := leads_derive f s.node m
  obtain ⟨o, ho, h⟩ := bind_ok_iff.1 h
  cases o with
  | some target =>
    have hrebinds := (rebinding?_eq_some_iff hmhas).1 ho
    obtain ⟨hext', ht⟩ := receive_extends hs hk (hb.extends hext.followed) hlead hmhas
      (by rintro t ⟨⟩; exact .reboundMember hm hrebinds)
      (by rintro t ⟨⟩ c hc hct; exact .rebound hkind hrebinds hc hct) h
    refine ⟨hext.trans hext', fun t hreb => ?_, fun hnot => absurd ⟨target, hrebinds⟩ hnot⟩
    rw [(rebinding?_eq_some_iff hmhas).2 hreb] at ho
    cases ho
    exact ht t rfl
  | none =>
    cases h
    have hnot := not_rebinds_of_rebinding? hmhas ho
    refine ⟨hext.trans (extends_record rfl hs (.member hm hnot) hlead), ?_,
      fun _ => records_record _ _⟩
    exact fun t hreb => absurd ⟨_, hreb⟩ hnot

/-- An occurrence of the variable that an identifier with the object means is dealt with. -/
lemma occur_extends {b : Node} {v : VariableId} {r : Reference} (hb : Budget p f budget)
    (hreach : Reaches p s (.target b)) (hkind : b.kind = .identifier)
    (hv : p.find b = .ok (some v)) (hr : r ∈ p.referencesTo v)
    (hlead : f.Leads s.node.id b.id) (h : occur p s k b r f = .ok g) :
    Extends p f g ∧ (¬IsDefinition p r → OccurrenceSettled p g r) := by
  have hdef : (p.soleDefinition? r).any (r.identifier.id == ·.identifier.id) = true ↔
      IsDefinition p r := by
    simp [IsDefinition, Option.any_eq_true]
  unfold occur at h
  dsimp only at h
  split at h
  · rename_i hany
    cases h
    exact ⟨.refl p f, fun hnot => absurd (hdef.1 hany) hnot⟩
  · rename_i hany
    have huse : ¬IsDefinition p r := fun hd => hany (hdef.2 hd)
    have hocc : Reaches p s (.occurrence r) := .occurrence hreach hkind hv hr huse
    obtain ⟨hrhas, -⟩ := hocc.standIn hs.has
    -- The step from the binding to the occurrence, unless they are the same.
    set f₁ := if (r.identifier.id == b.id) = true then f else f.derive b r.identifier with hf₁
    obtain ⟨hext, hlead₁⟩ : Extends p f f₁ ∧ f₁.Leads s.node.id r.identifier.id := by
      rw [hf₁]
      split
      · rename_i hsame
        rw [beq_iff_eq.1 hsame]
        exact ⟨.refl p f, hlead⟩
      · have hext : Extends p f (f.derive b r.identifier) :=
          extends_derive (hreach.standIn hs.has) hrhas (.reference hkind hv hr)
        exact ⟨hext, (hext.leads hlead).trans (leads_derive f b r.identifier)⟩
    have hrecord : ∀ rec : Record, rec.node = r.identifier → rec.method = s.method →
        rec.site = s → ¬(r.access.reads = true ∧ ∃ t, Rebinds p r.identifier t) →
        Extends p f (f₁.record rec) ∧ OccurrenceSettled p (f₁.record rec) r := by
      intro rec hnode hmethod hsite hnot
      refine ⟨hext.trans (extends_record ?_ ?_ ?_ ?_), fun t hreads ht => ?_, fun _ => ?_⟩
      · rw [hmethod, hsite]
      · rwa [hsite]
      · rw [hsite, hnode]
        exact .occurrence hocc hnot
      · rwa [hsite, hnode]
      · exact absurd ⟨hreads, _, ht⟩ hnot
      · rw [← hnode]
        exact records_record f₁ rec
    split at h
    · rename_i hreads
      obtain ⟨o, ho, h⟩ := bind_ok_iff.1 h
      cases o with
      | some target =>
        have hrebinds := (rebinding?_eq_some_iff hrhas).1 ho
        obtain ⟨hext', ht⟩ := receive_extends hs hk (hb.extends hext.followed) hlead₁ hrhas
          (by rintro t ⟨⟩; exact .reboundOccurrence hocc hreads hrebinds)
          (by rintro t ⟨⟩ c hc hct; exact .occurrence hr hreads hrebinds hc hct) h
        refine ⟨hext.trans hext', fun _ => ⟨fun t _ hreb => ?_, fun hnot => ?_⟩⟩
        · rw [(rebinding?_eq_some_iff hrhas).2 hreb] at ho
          cases ho
          exact ht t rfl
        · exact absurd ⟨hreads, target, hrebinds⟩ hnot
      | none =>
        cases h
        refine (hrecord _ rfl rfl rfl ?_).imp_right fun hocc' _ => hocc'
        exact fun hbound => not_rebinds_of_rebinding? hrhas ho hbound.2
    · rename_i hreads
      cases h
      refine (hrecord _ rfl rfl rfl ?_).imp_right fun hocc' _ => hocc'
      exact fun hbound => hreads hbound.1

/-- All occurrences of the variable that an identifier with the object means are dealt with. -/
lemma occurAll_extends {b : Node} {v : VariableId} (hreach : Reaches p s (.target b))
    (hkind : b.kind = .identifier) (hv : p.find b = .ok (some v)) {rs : List Reference}
    (hrs : ∀ r ∈ rs, r ∈ p.referencesTo v) (hb : Budget p f budget)
    (hlead : f.Leads s.node.id b.id)
    (h : rs.foldlM (fun f r => occur p s k b r f) f = .ok g) :
    Extends p f g ∧ ∀ r ∈ rs, ¬IsDefinition p r → OccurrenceSettled p g r := by
  induction rs generalizing f with
  | nil =>
    cases h
    exact ⟨.refl p _, nofun⟩
  | cons r rs ih =>
    obtain ⟨hr, hrs⟩ := List.forall_mem_cons.1 hrs
    rw [List.foldlM_cons] at h
    obtain ⟨f', hf', h⟩ := bind_ok_iff.1 h
    obtain ⟨hext, hocc⟩ := occur_extends hs hk hb hreach hkind hv hr hlead hf'
    obtain ⟨hext', hall⟩ := ih hrs (hb.extends hext.followed) (hext.leads hlead) h
    refine ⟨hext.trans hext', List.forall_mem_cons.2 ⟨fun hnot => ?_, hall⟩⟩
    exact hext'.occurrence (hocc hnot)

end Steps

/-- An identifier whose occurrences are all dealt with may be marked. -/
lemma Extends.of_follow {c : Node} (hext : Extends p (f.follow c) g) (hc : Settled p g c.id) :
    Extends p f g where
  records := hext.records
  edges := hext.edges
  followed i hi := hext.followed i (List.mem_cons_of_mem _ hi)
  fresh i hi := by
    rcases hext.fresh i hi with hi | hi
    · rcases List.mem_cons.1 hi with rfl | hi
      · exact .inr hc
      · exact .inl hi
    · exact .inr hi
  sound hf := hext.sound ⟨hf.edge, hf.record, hf.method⟩

/-- Following an identifier extends the findings, and marks it. -/
lemma follows_bind (hs : IsSite p s) (n : Nat) : Follows p s n (bind p s n) := by
  induction n with
  | zero =>
    intro c f g hkind hreach _ hb h
    cases h
    exact ⟨.refl p f, hb.mem_followed (hreach.standIn hs.has)⟩
  | succ n ih =>
    intro c f g hkind hreach hlead hb h
    have hc : p.Has c := hreach.standIn hs.has
    rw [bind] at h
    split at h
    · rename_i hin
      cases h
      exact ⟨.refl p f, by simpa using hin⟩
    · rename_i hnew
      have hnew : c.id ∉ f.followed := by simpa using hnew
      obtain ⟨rs, hrs, h⟩ := bind_ok_iff.1 h
      obtain ⟨o, ho, hrs⟩ := bind_ok_iff.1 hrs
      have hsame : ∀ {b : Node}, p.Has b → b.id = c.id → b = c :=
        fun hb hid => hb.eq_of_id_eq hc hid
      cases o with
      | none =>
        cases hrs
        cases h
        refine ⟨(Extends.refl p _).of_follow ?_, List.mem_cons_self⟩
        intro b v r hb hid hv _ _
        rw [hsame hb hid, ho] at hv
        cases hv
      | some v =>
        cases hrs
        obtain ⟨hext, hall⟩ := occurAll_extends hs ih hreach hkind ho (fun r hr => hr)
          (hb.follow hc hnew) hlead h
        refine ⟨hext.of_follow ?_, hext.followed _ List.mem_cons_self⟩
        intro b v' r hb hid hv hr hnot
        rw [hsame hb hid, ho] at hv
        cases hv
        exact hall r hr hnot

/-! ## Sites -/

lemma receive_site_extends (hs : IsSite p s) (hsingle : s.method ≠ Site.spreading)
    {target : Option Node} (ht : Destination p s.node target)
    (h : receive s (bind p s p.places.length) target s.node f = .ok g) :
    Extends p f g ∧ ∀ t ∈ target, TargetSettled g t := by
  refine receive_extends hs (follows_bind hs _) (budget_initial p f) .refl hs.has ?_ ?_ h
  · rintro t ⟨⟩
    exact .bound hsingle ht
  · rintro t ⟨⟩ c hc hct
    have hne : t ≠ s.node := fun heq => not_isTarget_of_core_call (heq ▸ hs.isCall) hc hct
    exact .call hs hsingle (ht.rebinds hs.has hne) hc hct

/-- The properties of a value that spreads are dealt with one by one. -/
lemma nests_extend (hs : IsSite p s) (hspread : s.method = Site.spreading) {target : Option Node}
    (ht : Destination p s.node target) {nests : List Nest}
    (hn : ∀ n ∈ nests, PropertyNest p target n)
    (h : nests.foldlM (fun f nest => match nest with
      | .expression member => carry p s (bind p s p.places.length) member s.node f
      | .pattern t => receive s (bind p s p.places.length) t s.node f) f = .ok g) :
    Extends p f g ∧ ∀ n ∈ nests, NestSettled p g n := by
  induction nests generalizing f with
  | nil =>
    cases h
    exact ⟨.refl p _, nofun⟩
  | cons n ns ih =>
    obtain ⟨hnest, hns⟩ := List.forall_mem_cons.1 hn
    rw [List.foldlM_cons] at h
    obtain ⟨f', hf', h⟩ := bind_ok_iff.1 h
    have hstep : Extends p f f' ∧ NestSettled p f' n := by
      cases n with
      | expression m =>
        have hm : Reaches p s (.member m) := .spreadMember hspread ht hnest
        exact carry_extends hs (follows_bind hs _) (budget_initial p f) hm
          (.member hs hspread ht hnest (hm.standIn hs.has).2) hf'
      | pattern t =>
        refine receive_extends hs (follows_bind hs _) (budget_initial p f) .refl hs.has ?_ ?_ hf'
        · rintro u ⟨⟩
          exact .spreadPattern hspread ht hnest
        · rintro u ⟨⟩ c hc hct
          exact .property hs hspread ht hnest hc hct
    obtain ⟨hext, hall⟩ := ih hns h
    exact ⟨hstep.1.trans hext, List.forall_mem_cons.2 ⟨hext.nest hstep.2, hall⟩⟩

/-- The object of a site is dealt with. -/
lemma followSite_extends (hs : IsSite p s) (h : followSite p s f = .ok g) :
    Extends p f g ∧ SiteSettled p g s := by
  have hstart : Extends p f (f.start s.node) := extends_start f s.node
  obtain ⟨o, ho, h⟩ := bind_ok_iff.1 h
  cases o with
  | some target =>
    have hdest := (destination?_eq_some_iff hs.has).1 ho
    have hunique : ∀ t, Destination p s.node t → t = target := by
      intro t ht
      rw [(destination?_eq_some_iff hs.has).2 ht] at ho
      cases ho
      rfl
    dsimp only at h
    split at h
    · rename_i hspread
      have hspread : s.method = Site.spreading := by simpa using hspread
      obtain ⟨found, hfound, h⟩ := bind_ok_iff.1 h
      obtain ⟨hext, hall⟩ := nests_extend hs hspread hdest
        (fun n hn => ⟨found, hfound, List.mem_flatMap.1 hn⟩) h
      refine ⟨hstart.trans hext, fun hsingle => absurd hspread hsingle, fun _ t n ht hn => ?_⟩
      cases hunique t ht
      obtain ⟨found', hfound', hn⟩ := hn
      obtain rfl : found' = found := Except.ok.inj (hfound'.symm.trans hfound)
      exact hall n (List.mem_flatMap.2 hn)
    · rename_i hsingle
      have hsingle : s.method ≠ Site.spreading := by simpa using hsingle
      obtain ⟨hext, ht⟩ := receive_site_extends hs hsingle hdest h
      refine ⟨hstart.trans hext, fun _ => ⟨fun t hdest' => ?_, fun hnot => ?_⟩,
        fun hspread => absurd hspread hsingle⟩
      · exact ht t (hunique _ hdest').symm
      · exact absurd ⟨target, hdest⟩ hnot
  | none =>
    have hnot := not_destination_of_destination? hs.has ho
    dsimp only at h
    split at h
    · rename_i hspread
      have hspread : s.method = Site.spreading := by simpa using hspread
      cases h
      exact ⟨hstart, fun hsingle => absurd hspread hsingle,
        fun _ t n ht => absurd ⟨t, ht⟩ hnot⟩
    · rename_i hsingle
      have hsingle : s.method ≠ Site.spreading := by simpa using hsingle
      cases h
      refine ⟨hstart.trans (extends_record rfl hs (.call hsingle hnot) .refl), fun _ => ⟨?_, ?_⟩,
        fun hspread => absurd hspread hsingle⟩
      · exact fun t ht => absurd ⟨_, ht⟩ hnot
      · exact fun _ => records_record _ _

lemma followAll_extends {sites : List Site} (hs : ∀ s ∈ sites, IsSite p s)
    (h : sites.foldlM (fun f s => followSite p s f) f = .ok g) :
    Extends p f g ∧ ∀ s ∈ sites, SiteSettled p g s := by
  induction sites generalizing f with
  | nil =>
    cases h
    exact ⟨.refl p _, nofun⟩
  | cons s ss ih =>
    obtain ⟨hsite, hss⟩ := List.forall_mem_cons.1 hs
    rw [List.foldlM_cons] at h
    obtain ⟨f', hf', h⟩ := bind_ok_iff.1 h
    obtain ⟨hext, hsettled⟩ := followSite_extends hsite hf'
    obtain ⟨hext', hall⟩ := ih hss h
    exact ⟨hext.trans hext', List.forall_mem_cons.2 ⟨hext'.site hsettled, hall⟩⟩

/-- **The walk is sound and leaves nothing undone**: the findings say nothing wrong, all identifiers
that have been followed are dealt with, and so are all sites. -/
theorem extract_settled (h : extract p = .ok f) :
    Sound p f ∧ (∀ i ∈ f.followed, Settled p f i) ∧ ∀ s, IsSite p s → SiteSettled p f s := by
  obtain ⟨-, h⟩ := Search.foldM_ok_iff.1 h
  obtain ⟨hext, hall⟩ := followAll_extends (fun s hs => hs) h
  refine ⟨hext.sound (sound_initial p), fun i hi => ?_, hall⟩
  rcases hext.fresh i hi with hi | hi
  · cases hi
  · exact hi

end RefObject

end RefFlow
