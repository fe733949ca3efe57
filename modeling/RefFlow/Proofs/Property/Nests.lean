import RefFlow.Proofs.Program
import RefFlow.Property.Extract

/-!
# Where the properties of a value go

A result is obtained from a program if it is put together from what members and patterns of the
program read (`Found.Obtained`).  Every read in it then says where the value of the property goes,
by the node that reads it (`PropertyRead.Made`): to a member expression or to a pattern, which are
nodes of the program (`Nest.In`).

An extractor of property reads remembers what it finds, and what it remembers flows into later
answers.  To say something of its answers is therefore to say it of its memory as well: `Yields x P`
is the postcondition of a computation that starts from a memory of obtained results, leaves such a
memory behind, and gives a result that satisfies `P`.  What an extractor finds is obtained from the
program, whatever it was asked before (`yields_ofPattern`, `yields_ofExpression`).
-/

namespace RefFlow

open Fallible Program

/-- The value of a property goes to a member expression or a pattern of the program. -/
def Nest.In (p : Program) : Nest → Prop
  | .expression m => p.Has m ∧ m.kind = .memberExpression
  | .pattern t => ∀ n ∈ t, p.Has n

/-- A node of the program names the property and says where its value goes. -/
inductive PropertyRead.Made (p : Program) : PropertyRead → Prop
  /-- A member expression reads the property. -/
  | member {q : Node} {name : String} (has : p.Has q) (isMember : q.kind = .memberExpression)
      (named : q.staticName = .ok (some name)) : Made p ⟨name, q, .expression q⟩
  /-- A property of a pattern receives it. -/
  | property {m : Node} {name : String} {value : Option Node} (has : p.Has m)
      (isProperty : m.kind = .property) (named : m.staticName = .ok (some name))
      (hasValue : m.child .value = .ok value) : Made p ⟨name, m, .pattern value⟩

lemma PropertyRead.Made.nest_in {p : Program} {r : PropertyRead} (h : r.Made p) : r.nest.In p := by
  cases h with
  | member has isMember => exact ⟨has, isMember⟩
  | property has _ _ hasValue =>
    rintro n rfl
    exact has.child hasValue

namespace Found

variable {p : Program}

/-- The values of all properties that are found go to nodes of the program. -/
def In (p : Program) (f : Found) : Prop := ∀ r ∈ f.reads, r.nest.In p

/-- The result is put together from what patterns and members of the program read. -/
inductive Obtained (p : Program) : Found → Prop
  | any : Obtained p any
  | never : Obtained p never
  | pattern {rs : List PropertyRead} (made : ∀ r ∈ rs, r.Made p) : Obtained p (pattern rs)
  | member {r : PropertyRead} (made : r.Made p) : Obtained p (member r)
  | merged {fs : List Found} (parts : ∀ f ∈ fs, Obtained p f) : Obtained p (merged fs)

lemma readsAll_eq (fs : List Found) : readsAll fs = fs.flatMap reads := by
  induction fs with
  | nil => rfl
  | cons f fs ih => rw [readsAll, ih, List.flatMap_cons]

/-- What is found in several places is found in one of them. -/
lemma exists_of_mem_reads_merge {fs : List Found} {r : PropertyRead} (h : r ∈ (merge fs).reads) :
    ∃ f ∈ fs, r ∈ f.reads := by
  have hmem : r ∈ (fs.filter (!·.isNever)).flatMap reads := by
    unfold merge at h
    generalize fs.filter (!·.isNever) = gs at h ⊢
    dsimp only at h
    split at h
    · cases h
    · split at h
      · cases h
      · simpa using h
      · rwa [reads, readsAll_eq] at h
  obtain ⟨f, hf, hr⟩ := List.mem_flatMap.1 hmem
  exact ⟨f, (List.mem_filter.1 hf).1, hr⟩

lemma Obtained.merge {fs : List Found} (h : ∀ f ∈ fs, Obtained p f) : Obtained p (merge fs) := by
  have hparts : ∀ f ∈ fs.filter (!·.isNever), Obtained p f :=
    fun f hf => h f (List.mem_filter.1 hf).1
  unfold Found.merge
  generalize fs.filter (!·.isNever) = gs at hparts
  dsimp only
  split
  · exact .any
  · split
    · exact .never
    · exact hparts _ List.mem_cons_self
    · exact .merged hparts

/-- All reads of an obtained result are made by nodes of the program. -/
lemma Obtained.made {f : Found} (h : f.Obtained p) : ∀ r ∈ f.reads, r.Made p := by
  induction h with
  | any | never => exact nofun
  | pattern made => exact made
  | member made => exact List.forall_mem_singleton.2 made
  | merged _ ih =>
    intro r hr
    rw [reads, readsAll_eq] at hr
    obtain ⟨f, hf, hr⟩ := List.mem_flatMap.1 hr
    exact ih f hf r hr

lemma Obtained.in_program {f : Found} (h : f.Obtained p) : f.In p :=
  fun r hr => (h.made r hr).nest_in

/-- Where the values of the properties go, one by one, is where the reads say. -/
lemma In.nest {f : Found} (h : f.In p) {nest : Nest}
    (hn : nest ∈ f.properties.keys.flatMap f.nests) : nest.In p := by
  obtain ⟨name, -, hn⟩ := List.mem_flatMap.1 hn
  obtain ⟨r, hr, rfl⟩ := List.mem_map.1 hn
  exact h r (List.mem_filter.1 hr).1

end Found

namespace Property

variable {p : Program}

/-! ## Postconditions -/

/-- What is remembered was obtained from the program. -/
structure Memo.Obtained (p : Program) (m : Memo) : Prop where
  patterns : ∀ e ∈ m.patterns, e.2.Obtained p
  expressions : ∀ e ∈ m.expressions, e.2.Obtained p

/-- From obtained results in memory the computation comes to obtained results in memory and a result
that satisfies the condition. -/
def Yields {α : Type} (p : Program) (x : Extractor α) (P : α → Prop) : Prop :=
  ∀ m : Memo, m.Obtained p → (x.run.run m).2.Obtained p ∧ Gives (x.run.run m).1 P

variable {α β : Type} {P : α → Prop} {Q : β → Prop}

lemma yields_pure {a : α} (h : P a) : Yields p (pure a : Extractor α) P :=
  fun _ hm => ⟨hm, gives_ok h⟩

lemma yields_throw {f : Fault} : Yields p (throw f : Extractor α) P :=
  fun _ hm => ⟨hm, nofun⟩

lemma yields_lift {x : Except Fault α} (h : Gives x P) : Yields p (liftM x : Extractor α) P := by
  intro m hm
  cases x with
  | error f => exact ⟨hm, nofun⟩
  | ok a => exact ⟨hm, gives_ok (h a rfl)⟩

/-- A computation goes on with what the first step remembers, unless that step fails. -/
lemma run_bind (x : Extractor α) (k : α → Extractor β) (m : Memo) :
    (x >>= k).run.run m = match x.run.run m with
      | (.ok a, m') => (k a).run.run m'
      | (.error f, m') => (.error f, m') := by
  change ((x.run >>= ExceptT.bindCont k).run m) = _
  rw [StateT.run_bind]
  rcases x.run.run m with ⟨f | a, m'⟩ <;> rfl

lemma Yields.bind {x : Extractor α} {k : α → Extractor β} (hx : Yields p x P)
    (hk : ∀ a, P a → Yields p (k a) Q) : Yields p (x >>= k) Q := by
  intro m hm
  obtain ⟨hm', ha⟩ := hx m hm
  rw [run_bind]
  rcases h : x.run.run m with ⟨f | a, m'⟩
  · rw [h] at hm'
    exact ⟨hm', nofun⟩
  · rw [h] at hm' ha
    exact hk a (ha a rfl) m' hm'

lemma yields_get : Yields p (MonadState.get : Extractor Memo) fun m => m.Obtained p :=
  fun _ hm => ⟨hm, gives_ok hm⟩

lemma yields_modify {f : Memo → Memo} (h : ∀ m, m.Obtained p → (f m).Obtained p) :
    Yields p (modify f : Extractor PUnit) fun _ => True :=
  fun m hm => ⟨h m hm, fun _ _ => trivial⟩

lemma yields_mapM {f : α → Extractor β} {as : List α} (h : ∀ a ∈ as, Yields p (f a) Q) :
    Yields p (as.mapM f) fun bs => ∀ b ∈ bs, Q b := by
  induction as with
  | nil => exact yields_pure nofun
  | cons a as ih =>
    rw [List.mapM_cons]
    refine (h a List.mem_cons_self).bind fun b hb => ?_
    refine (ih fun c hc => h c (List.mem_cons_of_mem a hc)).bind fun bs hbs => ?_
    exact yields_pure (List.forall_mem_cons.2 ⟨hb, hbs⟩)

/-! ## Remembering -/

lemma mem_of_get? {t : Table Nat Found} {k : Nat} {f : Found} (h : t.get? k = some f) :
    ∃ e ∈ t, e.2 = f := by
  induction t with
  | nil => cases h
  | cons e t ih =>
    rw [Table.get?] at h
    split at h
    · exact ⟨e, List.mem_cons_self, Option.some_inj.1 h⟩
    · obtain ⟨e', he', rfl⟩ := ih h
      exact ⟨e', List.mem_cons_of_mem e he', rfl⟩

lemma obtained_set {t : Table Nat Found} (h : ∀ e ∈ t, e.2.Obtained p) {k : Nat} {f : Found}
    (hf : f.Obtained p) : ∀ e ∈ t.set k f, e.2.Obtained p := by
  induction t with
  | nil => simpa [Table.set] using hf
  | cons e t ih =>
    obtain ⟨he, ht⟩ := List.forall_mem_cons.1 h
    rw [Table.set]
    split
    · exact List.forall_mem_cons.2 ⟨hf, ht⟩
    · exact List.forall_mem_cons.2 ⟨he, ih ht⟩

lemma yields_remembering (get : Memo → Table Nat Found) (put : Table Nat Found → Memo → Memo)
    (hget : ∀ m, m.Obtained p → ∀ e ∈ get m, e.2.Obtained p)
    (hput : ∀ m t, m.Obtained p → (∀ e ∈ t, e.2.Obtained p) → (put t m).Obtained p) {n : Node}
    {compute : Extractor Found} (h : Yields p compute (Found.Obtained p)) :
    Yields p (remembering get put n compute) (Found.Obtained p) := by
  refine yields_get.bind fun m hm => ?_
  split
  · rename_i f hf
    obtain ⟨e, he, rfl⟩ := mem_of_get? hf
    exact yields_pure (hget m hm e he)
  · refine h.bind fun f hf => ?_
    refine (yields_modify fun m hm => ?_).bind fun _ _ => yields_pure hf
    exact hput m _ hm (obtained_set (hget m hm) hf)

lemma yields_rememberingPattern {n : Node} {compute : Extractor Found}
    (h : Yields p compute (Found.Obtained p)) :
    Yields p (rememberingPattern n compute) (Found.Obtained p) :=
  yields_remembering (·.patterns) (fun t m => { m with patterns := t })
    (fun _ hm => hm.patterns) (fun _ _ hm ht => ⟨ht, hm.expressions⟩) h

lemma yields_rememberingExpression {n : Node} {compute : Extractor Found}
    (h : Yields p compute (Found.Obtained p)) :
    Yields p (rememberingExpression n compute) (Found.Obtained p) :=
  yields_remembering (·.expressions) (fun t m => { m with expressions := t })
    (fun _ hm => hm.expressions) (fun _ _ hm ht => ⟨hm.patterns, ht⟩) h

/-! ## Patterns, expressions, variables -/

lemma gives_patternRead {property : Node} (h : p.Has property) :
    Gives (patternRead property) fun r => ∀ x ∈ r, x.Made p := by
  unfold patternRead
  split
  · rename_i hkind
    refine Gives.bind (P := fun name => property.staticName = .ok name) (fun _ => id) ?_
    intro name hname
    cases name with
    | none => exact gives_pure nofun
    | some name =>
      refine Gives.bind (P := fun o => property.child .value = .ok o) (fun _ => id) ?_
      intro o ho
      refine gives_pure ?_
      rintro r hr
      cases hr
      exact .property h (beq_iff_eq.1 hkind) hname ho
  · exact gives_ok nofun

lemma gives_objectReads {ts : List (Option Node)} (h : ∀ t ∈ ts, ∀ n ∈ t, p.Has n) :
    Gives (objectReads ts) (Found.Obtained p) := by
  induction ts with
  | nil => exact gives_ok (.pattern nofun)
  | cons t ts ih =>
    obtain ⟨ht, hts⟩ := List.forall_mem_cons.1 h
    cases t with
    | none => exact nofun
    | some property =>
      refine (gives_patternRead (ht property rfl)).bind fun r hr => ?_
      cases r with
      | none => exact gives_pure .any
      | some r =>
        refine (ih hts).bind fun f hf => ?_
        cases hf with
        | pattern made =>
          refine gives_pure (.pattern ?_)
          exact List.forall_mem_cons.2 ⟨hr r rfl, made⟩
        | any => exact gives_pure .any
        | never => exact gives_pure .never
        | member made => exact gives_pure (.member made)
        | merged parts => exact gives_pure (.merged parts)

variable {onVariable : VariableId → Extractor Found}

lemma yields_pattern (hv : ∀ v, Yields p (onVariable v) (Found.Obtained p)) {o : Option Node}
    (h : ∀ n ∈ o, p.Has n) : Yields p (pattern p onVariable o) (Found.Obtained p) := by
  cases o with
  | none => exact yields_pure .never
  | some n =>
    refine yields_rememberingPattern ?_
    have hcore : Gives n.withoutDefault fun c => ∀ m ∈ c, p.Has m := by
      rintro c hc m hm
      cases hm
      exact (h n rfl).trans (Node.withoutDefault_eq_some_iff.1 hc).contains
    refine (yields_lift hcore).bind fun c hc => ?_
    cases c with
    | none => exact yields_throw
    | some c =>
      dsimp only
      split
      · refine (yields_lift (P := fun ts => ∀ t ∈ ts, ∀ n ∈ t, p.Has n) ?_).bind fun ts hts =>
          yields_lift (gives_objectReads hts)
        rintro ts hts t ht m hm
        cases hm
        exact (hc c rfl).item hts ht
      · refine (yields_lift (P := fun _ => True) fun _ _ => trivial).bind fun v _ => ?_
        cases v with
        | none => exact yields_pure .never
        | some v => exact hv v
      · exact yields_pure .any

lemma yields_expression (hv : ∀ v, Yields p (onVariable v) (Found.Obtained p)) (n : Node)
    {above : List Node} (h : ∀ q ∈ above, p.Has q) :
    Yields p (expression p onVariable n above) (Found.Obtained p) := by
  induction above generalizing n with
  | nil => exact yields_rememberingExpression (yields_pure .any)
  | cons parent rest ih =>
    obtain ⟨hparent, hrest⟩ := List.forall_mem_cons.1 h
    refine yields_rememberingExpression ?_
    split
    · rename_i hkind
      refine (yields_lift (hparent.gives_child _)).bind fun o _ => ?_
      split
      · refine (yields_lift (P := fun name => parent.staticName = .ok name) fun _ => id).bind ?_
        intro name hname
        cases name with
        | none => exact yields_pure .any
        | some name => exact yields_pure (.member (.member hparent hkind hname))
      · exact yields_pure .any
    · refine (yields_lift (P := fun _ => True) fun _ _ => trivial).bind fun _ _ => ?_
      split
      · refine (yields_lift (hparent.gives_child _)).bind fun o _ => ?_
        split
        · exact (yields_lift (hparent.gives_child _)).bind fun t ht => yields_pattern hv ht
        · exact yields_pure .any
      · exact yields_pure .any
    · refine (yields_lift (hparent.gives_child _)).bind fun o _ => ?_
      split
      · exact (yields_lift (hparent.gives_child _)).bind fun t ht => yields_pattern hv ht
      · exact yields_pure .any
    · exact ih parent hrest
    · exact ih parent hrest
    · exact yields_pure .any

lemma yields_ofVariable (budget : Nat) (v : VariableId) :
    Yields p (ofVariable p budget v) (Found.Obtained p) := by
  induction budget generalizing v with
  | zero => exact yields_pure .never
  | succ n ih =>
    refine yields_get.bind fun m _ => ?_
    split
    · exact yields_pure .never
    · have hmark : ∀ m : Memo, m.Obtained p → { m with visited := v :: m.visited }.Obtained p :=
        fun m hm => ⟨hm.patterns, hm.expressions⟩
      refine (yields_modify hmark).bind fun _ _ => ?_
      refine (yields_mapM (Q := Found.Obtained p) fun r hr => ?_).bind fun fs hfs =>
        yields_pure (.merge hfs)
      obtain ⟨hhas, -⟩ := has_of_mem_referencesTo (List.mem_filter.1 hr).1
      exact yields_expression ih r.identifier fun q hq => hhas.mem_above hq

/-- Whatever was asked before, what is found for a pattern is obtained from the program. -/
lemma yields_ofPattern {o : Option Node} (h : ∀ n ∈ o, p.Has n) :
    Yields p (ofPattern p o) (Found.Obtained p) :=
  yields_pattern (fun v => yields_ofVariable (budget p) v) h

/-- Whatever was asked before, what is found for an expression is obtained from the program. -/
lemma yields_ofExpression {n : Node} (h : p.Has n) :
    Yields p (ofExpression p n) (Found.Obtained p) :=
  yields_expression (fun v => yields_ofVariable (budget p) v) n fun _ hq => h.mem_above hq

/-- Whatever a fresh extractor finds for a pattern of the program goes to nodes of the program. -/
lemma found_in_ofPattern {o : Option Node} (h : ∀ n ∈ o, p.Has n) {f : Found}
    (hf : ((ofPattern p o).run.run {}).1 = .ok f) : f.In p := by
  obtain ⟨-, hgives⟩ := yields_ofPattern h {} ⟨nofun, nofun⟩
  exact (hgives f hf).in_program

end Property

end RefFlow
