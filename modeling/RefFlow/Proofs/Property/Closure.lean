import RefFlow.Proofs.Property.Runs

/-!
# The property reads of a value, through all its aliases

An extractor looks for the property reads of a value and has two means to come to an end: it
remembers what it has found from a place on, and it follows no variable twice.  A variable that is
met again adds nothing, so that what is remembered for a place need not be all that can be found
from there.  It is all that is needed.  This module shows by induction on runs that a fresh
extractor finds, taken as a whole,

* only what the rules allow (`Runs.justified`);
* all that they ask for (`Runs.covers`): a run leaves no variable behind that it has met and not
  followed, and what is remembered of a place covers all that lies between the place and the next
  variable (`Runs.completes`).
-/

namespace RefFlow

open Fallible

namespace Found

variable {fs : List Found}

lemma isAny_merge : (merge fs).isAny = true ↔ ∃ f ∈ fs, f.isAny = true := by
  have hparts : (∃ f ∈ fs, f.isAny = true) ↔ (fs.filter (!·.isNever)).any isAny = true := by
    rw [List.any_eq_true]
    constructor
    · rintro ⟨f, hf, hany⟩
      refine ⟨f, List.mem_filter.2 ⟨hf, ?_⟩, hany⟩
      cases f <;> first | rfl | cases hany
    · rintro ⟨f, hf, hany⟩
      exact ⟨f, (List.mem_filter.1 hf).1, hany⟩
  rw [hparts]
  unfold merge
  generalize fs.filter (!·.isNever) = gs
  dsimp only
  split
  · simp_all [isAny]
  · rename_i hnone
    refine iff_of_false ?_ hnone
    split
    · simp [isAny]
    · simpa using hnone
    · simp [isAny]

lemma reads_of_isAny {f : Found} (h : f.isAny = true) : f.reads = [] := by
  cases f <;> first | rfl | cases h

/-- What is found in several places is all that is found in any of them. -/
lemma reads_merge (h : (merge fs).isAny = false) : (merge fs).reads = fs.flatMap reads := by
  have hparts : (fs.filter (!·.isNever)).flatMap reads = fs.flatMap reads := by
    clear h
    induction fs with
    | nil => rfl
    | cons f fs ih =>
      rw [List.filter_cons, List.flatMap_cons, ← ih]
      cases f <;> rfl
  rw [← hparts]
  unfold merge at h ⊢
  generalize fs.filter (!·.isNever) = gs at h ⊢
  dsimp only at h ⊢
  split
  · simp_all [isAny]
  · split
    · rfl
    · simp
    · rw [reads, readsAll_eq]

end Found

namespace Property

open Trace (Carrier Fails)

variable {p : Program} {c d : Carrier} {cs : List Carrier} {m m' : Memo} {f : Found}
  {fs : List Found}

/-! ## Only what the rules allow -/

/-- What is found from the place on is done where the value gets to. -/
structure Justified (p : Program) (c : Carrier) (f : Found) : Prop where
  any : f.isAny = true → ∃ d, Reaches p c d ∧ Untrackable p d
  reads : ∀ r ∈ f.reads, ∃ d, Reaches p c d ∧ Contributes p d r

lemma Justified.of_leads (h : Justified p d f) (hleads : Leads p c d) : Justified p c f where
  any hany := by
    obtain ⟨e, he, huntrackable⟩ := h.any hany
    exact ⟨e, .head hleads he, huntrackable⟩
  reads r hr := by
    obtain ⟨e, he, hcontributes⟩ := h.reads r hr
    exact ⟨e, .head hleads he, hcontributes⟩

lemma justified_never : Justified p c .never := ⟨nofun, nofun⟩

/-- What is found where a variable is read is found for the variable. -/
lemma justified_merge {v : VariableId} (h : List.Forall₂ (Justified p) (readsOf p v) fs) :
    Justified p (.holder v) (.merge fs) := by
  have hparts : ∀ f ∈ fs, Justified p (.holder v) f := by
    intro f hf
    obtain ⟨c, hc, hjustified⟩ := exists_of_forall₂ h hf
    exact hjustified.of_leads (mem_readsOf_iff.1 hc)
  constructor
  · intro hany
    obtain ⟨f, hf, hany⟩ := Found.isAny_merge.1 hany
    exact (hparts f hf).any hany
  · intro r hr
    obtain ⟨f, hf, hr⟩ := Found.exists_of_mem_reads_merge hr
    exact (hparts f hf).reads r hr

lemma justified_of_ahead (hin : c.In p) (hnode : c.IsNode) (h : ahead p c = .ok (.found f)) :
    Justified p c f where
  any hany := by
    obtain rfl : f = .any := by cases f <;> first | rfl | cases hany
    exact ⟨c, .refl, (describes_ahead hin hnode).untrackable.2 h⟩
  reads r hr := ⟨c, .refl, ((describes_ahead hin hnode).contributes r).2 ⟨f, h, hr⟩⟩

/-- All that is remembered satisfies the condition. -/
def Memo.Keeps (p : Program) (m : Memo) (P : Carrier → Found → Prop) : Prop :=
  ∀ c f, c.In p → m.answer? c = some f → P c f

lemma Memo.Keeps.remember {P : Carrier → Found → Prop} (h : m.Keeps p P) (hin : c.In p)
    (hf : P c f) : (m.remember f c).Keeps p P := by
  intro d g hd hg
  rcases Memo.answer?_remember hin hd hg with ⟨rfl, rfl⟩ | hg
  · exact hf
  · exact h d g hd hg

/-- A run that starts with justified memories finds what is justified, and remembers such things. -/
lemma Runs.justified (h : Runs p cs m fs m') (hin : ∀ c ∈ cs, c.In p)
    (hm : m.Keeps p (Justified p)) :
    List.Forall₂ (Justified p) cs fs ∧ m'.Keeps p (Justified p) := by
  induction h with
  | done => exact ⟨.nil, hm⟩
  | more _ _ ih ih' =>
    obtain ⟨hfirst, hothers⟩ := List.forall_mem_cons.1 hin
    obtain ⟨hf, hm⟩ := ih (List.forall_mem_singleton.2 hfirst) hm
    obtain ⟨hfs, hm⟩ := ih' hothers hm
    exact ⟨.cons (List.forall₂_cons.1 hf).1 hfs, hm⟩
  | visited => exact ⟨.cons justified_never .nil, hm⟩
  | @reads v m m' fs _ _ ih =>
    have hvisit : (m.visit v).Keeps p (Justified p) := by
      intro c f hc hf
      rw [Memo.answer?_visit] at hf
      exact hm c f hc hf
    obtain ⟨hfs, hm⟩ := ih (fun c hc => in_of_mem_readsOf hc) hvisit
    exact ⟨.cons (justified_merge hfs) .nil, hm⟩
  | recalled memory => exact ⟨.cons (hm _ _ (hin _ List.mem_cons_self) memory) .nil, hm⟩
  | ended isNode _ found =>
    have hc := hin _ List.mem_cons_self
    have hf := justified_of_ahead hc isNode found
    exact ⟨.cons hf .nil, hm.remember hc hf⟩
  | led isNode _ next _ ih =>
    have hc := hin _ List.mem_cons_self
    have hleads := leads_of_ahead hc isNode next
    obtain ⟨hf, hm⟩ := ih (List.forall_mem_singleton.2 (hleads.in_program hc)) hm
    have hf := (List.forall₂_cons.1 hf).1.of_leads hleads
    exact ⟨.cons hf .nil, hm.remember hc hf⟩

/-! ## All that the rules ask for -/

/-- The value goes from a node to the other place in one step. -/
def Inside (p : Program) (c d : Carrier) : Prop := Leads p c d ∧ c.IsNode

/-- The value gets from the one place to the other without passing through a variable. -/
def Within (p : Program) : Carrier → Carrier → Prop := Relation.ReflTransGen (Inside p)

lemma within_iff : Within p c d ↔ c = d ∨ ∃ next, Inside p c next ∧ Within p next d :=
  Relation.ReflTransGen.cases_head_iff

lemma within_holder_iff {v : VariableId} : Within p (.holder v) d ↔ d = .holder v := by
  rw [within_iff]
  constructor
  · rintro (rfl | ⟨next, hnext, -⟩)
    · rfl
    · cases hnext.2
  · rintro rfl
    exact .inl rfl

lemma Within.in_program (h : Within p c d) (hin : c.In p) : d.In p := by
  induction h with
  | refl => exact hin
  | tail _ hstep ih => exact hstep.1.in_program ih

/-- What there is at the place is among the findings. -/
structure Covers (p : Program) (fs : List Found) (d : Carrier) : Prop where
  faultless : ¬Faulty p d
  any : Untrackable p d → ∃ f ∈ fs, f.isAny = true
  reads : ∀ r, Contributes p d r → ∃ f ∈ fs, f.isAny = true ∨ r ∈ f.reads

lemma Covers.mono {gs : List Found} (h : Covers p fs d) (hsub : fs ⊆ gs) : Covers p gs d where
  faultless := h.faultless
  any hd := by
    obtain ⟨f, hf, hany⟩ := h.any hd
    exact ⟨f, hsub hf, hany⟩
  reads r hr := by
    obtain ⟨f, hf, hread⟩ := h.reads r hr
    exact ⟨f, hsub hf, hread⟩

lemma Covers.merge (h : Covers p fs d) : Covers p [.merge fs] d where
  faultless := h.faultless
  any hd := ⟨_, List.mem_cons_self, Found.isAny_merge.2 (h.any hd)⟩
  reads r hr := by
    refine ⟨_, List.mem_cons_self, ?_⟩
    obtain ⟨f, hf, hread⟩ := h.reads r hr
    cases hany : (Found.merge fs).isAny with
    | true => exact .inl rfl
    | false =>
      rw [Found.reads_merge hany]
      refine .inr (List.mem_flatMap.2 ⟨f, hf, hread.resolve_left fun hf' => ?_⟩)
      rw [Found.isAny_merge.2 ⟨f, hf, hf'⟩] at hany
      cases hany

lemma covers_holder (v : VariableId) : Covers p fs (.holder v) where
  faultless := id
  any := nofun
  reads r hr := by cases hr

/-- From the place on up to the next variable all is covered, and the variable is followed. -/
def Settled (p : Program) (fs : List Found) (visited : List VariableId) (c : Carrier) : Prop :=
  ∀ d, Within p c d → Covers p fs d ∧ ∀ v, d = .holder v → v ∈ visited

variable {visited more : List VariableId}

lemma Settled.mono {gs : List Found} (h : Settled p fs visited c) (hfs : fs ⊆ gs)
    (hvisited : visited ⊆ more) : Settled p gs more c :=
  fun d hd => ⟨(h d hd).1.mono hfs, fun v hv => hvisited ((h d hd).2 v hv)⟩

lemma Settled.merge (h : Settled p fs visited c) : Settled p [.merge fs] visited c :=
  fun d hd => ⟨(h d hd).1.merge, (h d hd).2⟩

lemma settled_holder {v : VariableId} (h : v ∈ visited) : Settled p fs visited (.holder v) := by
  intro d hd
  obtain rfl := within_holder_iff.1 hd
  refine ⟨covers_holder v, fun w hw => ?_⟩
  cases hw
  exact h

lemma ne_holder_of_isNode (h : c.IsNode) (v : VariableId) : c ≠ .holder v := by
  rintro rfl
  exact h

/-- A place from which the value goes no further is settled by what is found there. -/
lemma settled_of_found (hin : c.In p) (hnode : c.IsNode) (h : ahead p c = .ok (.found f)) :
    Settled p [f] visited c := by
  have hdescribes := describes_ahead hin hnode
  intro d hd
  rcases within_iff.1 hd with rfl | ⟨next, hnext, -⟩
  · refine ⟨⟨?_, ?_, ?_⟩, fun v hv => absurd hv (ne_holder_of_isNode hnode v)⟩
    · rw [hdescribes.faulty, h]
      exact Trace.not_fails_ok _
    · intro huntrackable
      obtain rfl : f = .any := by simpa [h] using hdescribes.untrackable.1 huntrackable
      exact ⟨_, List.mem_cons_self, rfl⟩
    · intro r hr
      obtain ⟨g, hg, hr⟩ := (hdescribes.contributes r).1 hr
      obtain rfl : f = g := by simpa [h] using hg
      exact ⟨f, List.mem_cons_self, .inr hr⟩
  · have hleads := (hdescribes.leads next).1 hnext.1
    rw [h] at hleads
    cases hleads

/-- A place from which the value goes on is settled if the next place is. -/
lemma Settled.of_next (hd : Settled p fs visited d) (hin : c.In p) (hnode : c.IsNode)
    (h : ahead p c = .ok (.next d)) : Settled p fs visited c := by
  have hdescribes := describes_ahead hin hnode
  intro e he
  rcases within_iff.1 he with rfl | ⟨next, hnext, he⟩
  · refine ⟨⟨?_, ?_, ?_⟩, fun v hv => absurd hv (ne_holder_of_isNode hnode v)⟩
    · rw [hdescribes.faulty, h]
      exact Trace.not_fails_ok _
    · intro huntrackable
      rw [hdescribes.untrackable, h] at huntrackable
      cases huntrackable
    · intro r hr
      obtain ⟨g, hg, -⟩ := (hdescribes.contributes r).1 hr
      rw [h] at hg
      cases hg
  · obtain rfl : d = next := by simpa [h] using (hdescribes.leads next).1 hnext.1
    exact hd e he

lemma Runs.visited_subset (h : Runs p cs m fs m') : m.visited ⊆ m'.visited := by
  induction h with
  | done | visited | recalled => exact List.Subset.refl _
  | more _ _ ih ih' => exact List.Subset.trans ih ih'
  | reads _ _ ih => exact List.Subset.trans (List.subset_cons_self _ _) ih
  | ended => rw [Memo.visited_remember]; exact List.Subset.refl _
  | led _ _ _ _ ih => rwa [Memo.visited_remember]

/-- What a run comes to from the places on, and from the reads of the variables that it followed, is
covered by what it finds. -/
structure Completes (p : Program) (cs : List Carrier) (m : Memo) (fs : List Found) (m' : Memo) :
    Prop where
  places : ∀ c ∈ cs, Settled p fs m'.visited c
  followed : ∀ v ∈ m'.visited, v ∉ m.visited → ∀ c ∈ readsOf p v, Settled p fs m'.visited c
  memory : m'.Keeps p fun c f => Settled p [f] m'.visited c

lemma Memo.Keeps.visit {v : VariableId} (h : m.Keeps p fun c f => Settled p [f] m.visited c) :
    (m.visit v).Keeps p fun c f => Settled p [f] (m.visit v).visited c := by
  intro c f hc hf
  rw [Memo.answer?_visit] at hf
  exact (h c f hc hf).mono (List.Subset.refl _) (List.subset_cons_self _ _)

/-- A run of one place completes what it does and adds it to its memory. -/
lemma completes_remember (hin : c.In p) (hplace : Settled p [f] m'.visited c)
    (hfollowed : ∀ v ∈ m'.visited, v ∉ m.visited →
      ∀ d ∈ readsOf p v, Settled p [f] m'.visited d)
    (hmemory : m'.Keeps p fun d g => Settled p [g] m'.visited d) :
    Completes p [c] m [f] (m'.remember f c) where
  places := by simpa using hplace
  followed := by simpa using hfollowed
  memory := by simpa using hmemory.remember hin hplace

/-- What two runs complete one after the other is complete. -/
lemma Completes.append (hfirst : Completes p [c] m [f] m') (hothers : Completes p cs m' fs m'')
    (hvisited : m'.visited ⊆ m''.visited) : Completes p (c :: cs) m (f :: fs) m'' := by
  have hsub : [f] ⊆ f :: fs := by simp
  have hsub' : fs ⊆ f :: fs := List.subset_cons_self _ _
  refine ⟨?_, ?_, hothers.memory⟩
  · refine List.forall_mem_cons.2 ⟨?_, fun e he => ?_⟩
    · exact (hfirst.places c List.mem_cons_self).mono hsub hvisited
    · exact (hothers.places e he).mono hsub' (List.Subset.refl _)
  · intro v hv hnew e he
    by_cases hmid : v ∈ m'.visited
    · exact (hfirst.followed v hmid hnew e he).mono hsub hvisited
    · exact (hothers.followed v hv hmid e he).mono hsub' (List.Subset.refl _)

lemma Runs.completes (h : Runs p cs m fs m') (hin : ∀ c ∈ cs, c.In p)
    (hm : m.Keeps p fun c f => Settled p [f] m.visited c) : Completes p cs m fs m' := by
  induction h with
  | done m => exact ⟨nofun, fun v hv hnew => absurd hv hnew, hm⟩
  | more _ others ih ih' =>
    obtain ⟨hc, hothers⟩ := List.forall_mem_cons.1 hin
    have hfirst := ih (List.forall_mem_singleton.2 hc) hm
    exact hfirst.append (ih' hothers hfirst.memory) others.visited_subset
  | visited known =>
    exact ⟨by simpa using settled_holder known, fun v hv hnew => absurd hv hnew, hm⟩
  | @reads v m m' fs new run ih =>
    obtain ⟨hplaces, hfollowed, hm⟩ := ih (fun c hc => in_of_mem_readsOf hc) hm.visit
    have hv : v ∈ m'.visited := run.visited_subset List.mem_cons_self
    refine ⟨by simpa using settled_holder hv, ?_, hm⟩
    intro u hu hnew c hc
    by_cases huv : u = v
    · subst huv
      exact (hplaces c hc).merge
    · exact (hfollowed u hu (by simp [huv, hnew]) c hc).merge
  | recalled memory =>
    have hc := hin _ List.mem_cons_self
    exact ⟨by simpa using hm _ _ hc memory, fun v hv hnew => absurd hv hnew, hm⟩
  | ended isNode _ found =>
    have hc := hin _ List.mem_cons_self
    exact completes_remember hc (settled_of_found hc isNode found)
      (fun v hv hnew => absurd hv hnew) hm
  | led isNode _ next _ ih =>
    have hc := hin _ List.mem_cons_self
    have hd := (leads_of_ahead hc isNode next).in_program hc
    obtain ⟨hplaces, hfollowed, hm⟩ := ih (List.forall_mem_singleton.2 hd) hm
    have hplace := (hplaces _ List.mem_cons_self).of_next hc isNode next
    exact completes_remember hc hplace hfollowed hm

/-- All that the value gets to is covered by what a fresh extractor finds. -/
lemma Runs.covers (h : Runs p [c] {} [f] m') (hin : c.In p) (hd : Reaches p c d) :
    Covers p [f] d := by
  have hempty : Memo.Keeps p {} fun c f => Settled p [f] [] c := by
    intro c f _ hf
    cases c <;> cases hf
  obtain ⟨hplaces, hfollowed, -⟩ := h.completes (List.forall_mem_singleton.2 hin) hempty
  -- Where the value gets to is within reach of the start or of a variable that was followed.
  have hsettled : ∃ e, Settled p [f] m'.visited e ∧ Within p e d := by
    induction hd with
    | refl => exact ⟨c, hplaces c List.mem_cons_self, .refl⟩
    | @tail d d' _ hstep ih =>
      obtain ⟨e, he, hed⟩ := ih
      cases d with
      | holder v =>
        have hv : v ∈ m'.visited := (he _ hed).2 v rfl
        exact ⟨d', hfollowed v hv List.not_mem_nil d' (mem_readsOf_iff.2 hstep), .refl⟩
      | _ => exact ⟨e, he, hed.tail ⟨hstep, trivial⟩⟩
  obtain ⟨e, he, hed⟩ := hsettled
  exact (he d hed).1

end Property

end RefFlow
