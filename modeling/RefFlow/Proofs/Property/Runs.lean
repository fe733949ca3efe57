import RefFlow.Proofs.Property.Rules

/-!
# Runs of an extractor

An extractor follows a value from place to place, remembers what it finds at each of them, and does
not follow a variable twice.  `Runs p cs m fs m'` describes such a run from the places `cs` on,
which starts with the memory `m` and ends with the findings `fs` and the memory `m'`, one case for
each thing that can happen at a place.  What an extractor does is a run (`performs_ofPattern`), so
that everything about its findings can be shown by induction on runs, without looking at the code
again.

An extractor has a budget for the variables that it follows.  It never uses it up, because all
variables that it meets are variables of the program, and none is followed twice.
-/

namespace RefFlow

open Fallible

namespace Property

open Trace (Carrier Fails Room)

variable {p : Program} {c d : Carrier} {m m' : Memo} {f : Found}

/-! ## Memory -/

namespace Memo

/-- What is remembered of a place. -/
def answer? (m : Memo) : Carrier → Option Found
  | .expression e => m.expressions.get? e.id
  | .target t => m.patterns.get? t.id
  | .holder _ => none

/-- Remembers what was found from a place on. -/
def remember (m : Memo) (f : Found) : Carrier → Memo
  | .expression e => { m with expressions := m.expressions.set e.id f }
  | .target t => { m with patterns := m.patterns.set t.id f }
  | .holder _ => m

/-- Takes down that a variable is followed. -/
def visit (m : Memo) (v : VariableId) : Memo := { m with visited := v :: m.visited }

@[simp] lemma visited_remember : (m.remember f c).visited = m.visited := by
  cases c <;> rfl

@[simp] lemma visited_visit (v : VariableId) : (m.visit v).visited = v :: m.visited := rfl

@[simp] lemma answer?_visit (v : VariableId) : (m.visit v).answer? c = m.answer? c := by
  cases c <;> rfl

/-- Remembering something of one place changes nothing for the others. -/
lemma answer?_remember (hc : c.In p) (hd : d.In p) {g : Found}
    (h : (m.remember f c).answer? d = some g) : d = c ∧ g = f ∨ m.answer? d = some g := by
  cases c with
  | expression e =>
    cases d with
    | expression e' =>
      rw [remember, answer?, Table.get?_set] at h
      split at h
      · rename_i heq
        obtain rfl : e = e' := Program.Has.eq_of_id_eq hc hd (by simpa using heq)
        exact .inl ⟨rfl, (Option.some.inj h).symm⟩
      · exact .inr h
    | target t => exact .inr h
    | holder v => cases h
  | target t =>
    cases d with
    | expression e => exact .inr h
    | target t' =>
      rw [remember, answer?, Table.get?_set] at h
      split at h
      · rename_i heq
        obtain rfl : t = t' := Program.Has.eq_of_id_eq hc hd (by simpa using heq)
        exact .inl ⟨rfl, (Option.some.inj h).symm⟩
      · exact .inr h
    | holder v => cases h
  | holder v => exact .inr h

end Memo

section Remembering

variable {x : Extractor Found} {e : Fault}

section

variable (get : Memo → Table Nat Found) (put : Table Nat Found → Memo → Memo) (n : Node)

lemma run_remembering_of_some (h : (get m).get? n.id = some f) :
    (remembering get put n x).run.run m = (.ok f, m) := by
  have hget : (MonadState.get : Extractor Memo).run.run m = (.ok m, m) := rfl
  rw [remembering, run_bind, hget]
  dsimp only
  rw [h]
  rfl

lemma run_remembering_ok (h : (get m).get? n.id = none) (hx : x.run.run m = (.ok f, m')) :
    (remembering get put n x).run.run m = (.ok f, put ((get m').set n.id f) m') := by
  have hget : (MonadState.get : Extractor Memo).run.run m = (.ok m, m) := rfl
  rw [remembering, run_bind, hget]
  dsimp only
  rw [h]
  dsimp only
  rw [run_bind, hx]
  rfl

lemma run_remembering_error (h : (get m).get? n.id = none) (hx : x.run.run m = (.error e, m')) :
    (remembering get put n x).run.run m = (.error e, m') := by
  have hget : (MonadState.get : Extractor Memo).run.run m = (.ok m, m) := rfl
  rw [remembering, run_bind, hget]
  dsimp only
  rw [h]
  dsimp only
  rw [run_bind, hx]

end

/-- Answers from memory, or else computes and remembers. -/
def keeping : Carrier → Extractor Found → Extractor Found
  | .expression e => rememberingExpression e
  | .target t => rememberingPattern t
  | .holder _ => id

lemma run_keeping_of_some (h : m.answer? c = some f) : (keeping c x).run.run m = (.ok f, m) := by
  cases c with
  | expression n =>
    rw [keeping, rememberingExpression]
    exact run_remembering_of_some (·.expressions) (fun t m => { m with expressions := t }) n h
  | target n =>
    rw [keeping, rememberingPattern]
    exact run_remembering_of_some (·.patterns) (fun t m => { m with patterns := t }) n h
  | holder v => cases h

lemma run_keeping_ok (hnode : c.IsNode) (h : m.answer? c = none)
    (hx : x.run.run m = (.ok f, m')) : (keeping c x).run.run m = (.ok f, m'.remember f c) := by
  cases c with
  | expression n =>
    rw [keeping, rememberingExpression]
    exact run_remembering_ok (·.expressions) (fun t m => { m with expressions := t }) n h hx
  | target n =>
    rw [keeping, rememberingPattern]
    exact run_remembering_ok (·.patterns) (fun t m => { m with patterns := t }) n h hx
  | holder v => cases hnode

lemma run_keeping_error (h : m.answer? c = none) (hx : x.run.run m = (.error e, m')) :
    (keeping c x).run.run m = (.error e, m') := by
  cases c with
  | expression n =>
    rw [keeping, rememberingExpression]
    exact run_remembering_error (·.expressions) (fun t m => { m with expressions := t }) n h hx
  | target n =>
    rw [keeping, rememberingPattern]
    exact run_remembering_error (·.patterns) (fun t m => { m with patterns := t }) n h hx
  | holder v => exact hx

end Remembering

/-! ## One place after the other -/

section Visiting

variable {onVariable : VariableId → Extractor Found}

/-- Follows the value from a place on. -/
def visit (p : Program) (onVariable : VariableId → Extractor Found) : Carrier → Extractor Found
  | .expression e => expression p onVariable e (p.above e)
  | .target t => pattern p onVariable (some t)
  | .holder v => onVariable v

/-- Goes on with what is seen from a place. -/
def proceed (p : Program) (onVariable : VariableId → Extractor Found) : Ahead → Extractor Found
  | .found f => pure f
  | .next c => visit p onVariable c

lemma lift_ok_bind {α β : Type} (a : α) (k : α → Extractor β) :
    ((liftM (.ok a : Except Fault α) : Extractor α) >>= k) = k a := rfl

/-- The value arrives at a target, if there is one. -/
lemma proceed_ofTarget (o : Option Node) :
    proceed p onVariable (.ofTarget o) = pattern p onVariable o := by
  cases o <;> rfl

lemma visit_target (t : Node) : visit p onVariable (.target t) =
    keeping (.target t) (liftM (ahead p (.target t)) >>= proceed p onVariable) := by
  rw [visit, pattern, keeping, ahead]
  congr 1
  cases t.withoutDefault with
  | error e => rfl
  | ok o =>
    cases o with
    | none => rfl
    | some c =>
      rw [lift_ok_bind, ok_bind]
      dsimp only
      split
      · rename_i hkind
        rw [aheadOfCore, hkind]
        dsimp only
        cases c.items .properties with
        | error e => rfl
        | ok ts =>
          rw [lift_ok_bind, ok_bind]
          cases objectReads ts <;> rfl
      · rename_i hkind
        rw [aheadOfCore, hkind]
        dsimp only
        cases p.find c with
        | error e => rfl
        | ok v => cases v <;> rfl
      · rename_i hpattern hidentifier
        rw [aheadOfCore_other hpattern hidentifier]
        rfl

lemma lift_aheadOfBinding (e q : Node) (g h : Field) :
    ((liftM (aheadOfBinding e q g h) : Extractor Ahead) >>= proceed p onVariable) = do
      if e.isNode (← q.child g) then pattern p onVariable (← q.child h) else return .any := by
  rw [aheadOfBinding]
  cases q.child g with
  | error e => rfl
  | ok o =>
    rw [lift_ok_bind, ok_bind]
    split
    · cases q.child h with
      | error e => rfl
      | ok t =>
        rw [lift_ok_bind, ← proceed_ofTarget]
        rfl
    · rfl

lemma visit_expression (e : Node) : visit p onVariable (.expression e) =
    keeping (.expression e) (liftM (ahead p (.expression e)) >>= proceed p onVariable) := by
  rw [visit, keeping, ahead, Program.parent?]
  cases habove : p.above e with
  | nil => rfl
  | cons q rest =>
    obtain ⟨-, hrest⟩ := Program.of_above_eq_cons habove
    rw [expression, List.head?_cons]
    congr 1
    dsimp only
    split
    · rename_i hkind
      rw [aheadOfParent, hkind]
      dsimp only
      cases q.child .object with
      | error e => rfl
      | ok o =>
        rw [lift_ok_bind, ok_bind]
        split
        · cases q.staticName with
          | error e => rfl
          | ok name => cases name <;> rfl
        · rfl
    · rename_i hkind
      rw [aheadOfParent, hkind]
      dsimp only
      cases q.text? .operator with
      | error e => rfl
      | ok operator =>
        rw [lift_ok_bind, ok_bind]
        split
        · rw [lift_aheadOfBinding]
        · rfl
    · rename_i hkind
      rw [aheadOfParent, hkind]
      dsimp only
      rw [lift_aheadOfBinding]
    · rename_i hkind
      rw [aheadOfParent, hkind, ← hrest]
      rfl
    · rename_i hkind
      rw [aheadOfParent, hkind, ← hrest]
      rfl
    · rename_i hmember hassignment hdeclarator has hnonNull
      rw [aheadOfParent_other hmember hassignment hdeclarator (not_or.2 ⟨has, hnonNull⟩)]
      rfl

/-- Following a value from a node on means to look ahead from there and to proceed, unless the
answer is remembered. -/
lemma visit_eq (hnode : c.IsNode) : visit p onVariable c =
    keeping c (liftM (ahead p c) >>= proceed p onVariable) := by
  cases c with
  | expression e => exact visit_expression e
  | target t => exact visit_target t
  | holder v => cases hnode

end Visiting

/-! ## Runs -/

/-- The value gets from the one place to the other. -/
def Reaches (p : Program) : Carrier → Carrier → Prop := Relation.ReflTransGen (Leads p)

/-- The places where a variable is read. -/
def readsOf (p : Program) (v : VariableId) : List Carrier :=
  ((p.referencesTo v).filter (·.access.reads)).map fun r => .expression r.identifier

lemma mem_readsOf_iff {v : VariableId} : c ∈ readsOf p v ↔ Leads p (.holder v) c := by
  rw [readsOf, List.mem_map]
  constructor
  · rintro ⟨r, hr, rfl⟩
    obtain ⟨hmem, hreads⟩ := List.mem_filter.1 hr
    exact .read hmem hreads
  · intro h
    cases h with
    | read reference reads => exact ⟨_, List.mem_filter.2 ⟨reference, reads⟩, rfl⟩

/-- From the places on, starting with the one memory, an extractor finds this and ends with the
other memory. -/
inductive Runs (p : Program) : List Carrier → Memo → List Found → Memo → Prop
  /-- From no place on, nothing is found. -/
  | done (m : Memo) : Runs p [] m [] m
  /-- One place comes after the other. -/
  | more {c d : Carrier} {cs : List Carrier} {m m' m'' : Memo} {f : Found} {fs : List Found}
      (first : Runs p [c] m [f] m') (others : Runs p (d :: cs) m' fs m'') :
      Runs p (c :: d :: cs) m (f :: fs) m''
  /-- A variable that is followed already adds nothing. -/
  | visited {v : VariableId} {m : Memo} (known : v ∈ m.visited) : Runs p [.holder v] m [.never] m
  /-- A variable that is met for the first time is followed to all its reads. -/
  | reads {v : VariableId} {m m' : Memo} {fs : List Found} (new : v ∉ m.visited)
      (run : Runs p (readsOf p v) (m.visit v) fs m') : Runs p [.holder v] m [.merge fs] m'
  /-- What is found from the place on is remembered. -/
  | recalled {c : Carrier} {m : Memo} {f : Found} (memory : m.answer? c = some f) :
      Runs p [c] m [f] m
  /-- The value goes no further. -/
  | ended {c : Carrier} {m : Memo} {f : Found} (isNode : c.IsNode) (new : m.answer? c = none)
      (found : ahead p c = .ok (.found f)) : Runs p [c] m [f] (m.remember f c)
  /-- The value goes on to another place. -/
  | led {c d : Carrier} {m m' : Memo} {f : Found} (isNode : c.IsNode) (new : m.answer? c = none)
      (next : ahead p c = .ok (.next d)) (run : Runs p [d] m [f] m') :
      Runs p [c] m [f] (m'.remember f c)

variable {cs : List Carrier} {fs : List Found} {m'' : Memo}

lemma Runs.cons (first : Runs p [c] m [f] m') (others : Runs p cs m' fs m'') :
    Runs p (c :: cs) m (f :: fs) m'' := by
  cases cs with
  | nil =>
    cases others
    exact first
  | cons d cs => exact .more first others

lemma leads_of_ahead (hin : c.In p) (hnode : c.IsNode) (h : ahead p c = .ok (.next d)) :
    Leads p c d :=
  ((describes_ahead hin hnode).leads d).2 h

lemma in_of_mem_readsOf {v : VariableId} (h : c ∈ readsOf p v) : c.In p := by
  cases mem_readsOf_iff.1 h with
  | read reference => exact (Program.has_of_mem_referencesTo reference).1

/-- There stays room for the variables that are not followed yet. -/
lemma Runs.room (h : Runs p cs m fs m') (hin : ∀ c ∈ cs, c.In p) {n : Nat}
    (hroom : Room p n m.visited) : Room p n m'.visited := by
  induction h with
  | done | visited | recalled => exact hroom
  | more _ _ ih ih' =>
    obtain ⟨hfirst, hothers⟩ := List.forall_mem_cons.1 hin
    exact ih' hothers (ih (List.forall_mem_singleton.2 hfirst) hroom)
  | @reads v m m' fs new _ ih =>
    have hv : v ∈ p.graph.variableIds := hin _ List.mem_cons_self
    refine ih (fun c hc => in_of_mem_readsOf hc) ⟨?_, ?_, ?_⟩
    · exact List.nodup_cons.2 ⟨new, hroom.nodup⟩
    · exact List.cons_subset.2 ⟨hv, hroom.known⟩
    · exact hroom.enough.trans (by simp)
  | ended => rwa [Memo.visited_remember]
  | led isNode _ next _ ih =>
    rw [Memo.visited_remember]
    have hc := hin _ List.mem_cons_self
    have hd := (leads_of_ahead hc isNode next).in_program hc
    exact ih (List.forall_mem_singleton.2 hd) hroom

/-! ## What an extractor does is a run -/

/-- From this memory on, the computation is a run from the place on, unless there is a fault where
the value gets to. -/
structure Performs (p : Program) (x : Extractor Found) (c : Carrier) (m : Memo) : Prop where
  ok : ∀ f m', x.run.run m = (.ok f, m') → Runs p [c] m [f] m'
  error : ∀ e m', x.run.run m = (.error e, m') → ∃ d, Reaches p c d ∧ Faulty p d

variable {onVariable : VariableId → Extractor Found} {n : Nat}

lemma performs_of_ok {x : Extractor Found} (hrun : x.run.run m = (.ok f, m'))
    (h : Runs p [c] m [f] m') : Performs p x c m where
  ok g m'' hg := by
    rw [hrun] at hg
    cases hg
    exact h
  error e m'' he := by
    rw [hrun] at he
    cases he

lemma performs_of_error {x : Extractor Found} {e : Fault} (hrun : x.run.run m = (.error e, m'))
    (h : ∃ d, Reaches p c d ∧ Faulty p d) : Performs p x c m where
  ok g m'' hg := by
    rw [hrun] at hg
    cases hg
  error _ _ _ := h

/-- A node is visited by a run if the place that is seen from it is. -/
lemma performs_visit (hin : c.In p) (hnode : c.IsNode)
    (hnext : ∀ d, ahead p c = .ok (.next d) → Performs p (visit p onVariable d) d m) :
    Performs p (visit p onVariable c) c m := by
  rw [visit_eq hnode]
  cases hanswer : m.answer? c with
  | some f => exact performs_of_ok (run_keeping_of_some hanswer) (.recalled hanswer)
  | none =>
    cases hahead : ahead p c with
    | error e =>
      have hrun : (liftM (.error e : Except Fault Ahead) >>= proceed p onVariable).run.run m =
        (.error e, m) := rfl
      have hfaulty : Faulty p c := by
        rw [(describes_ahead hin hnode).faulty, hahead]
        exact Trace.fails_error e
      exact performs_of_error (run_keeping_error hanswer hrun) ⟨c, .refl, hfaulty⟩
    | ok a =>
      rw [lift_ok_bind]
      cases a with
      | found f =>
        exact performs_of_ok (run_keeping_ok hnode hanswer rfl) (.ended hnode hanswer hahead)
      | next d =>
        obtain ⟨hok, herror⟩ := hnext d hahead
        rcases hrun : (visit p onVariable d).run.run m with ⟨e | f, m'⟩
        · obtain ⟨d', hreaches, hfaulty⟩ := herror e m' hrun
          exact performs_of_error (run_keeping_error hanswer hrun)
            ⟨d', .head (leads_of_ahead hin hnode hahead) hreaches, hfaulty⟩
        · exact performs_of_ok (run_keeping_ok hnode hanswer hrun)
            (.led hnode hanswer hahead (hok f m' hrun))

/-- Places are visited one after the other by a run if each of them is. -/
lemma performs_mapM (hin : ∀ c ∈ cs, c.In p) (hroom : Room p n m.visited)
    (h : ∀ c ∈ cs, ∀ m, Room p n m.visited → Performs p (visit p onVariable c) c m) :
    (∀ fs m', (cs.mapM (visit p onVariable)).run.run m = (.ok fs, m') → Runs p cs m fs m') ∧
    ∀ e m', (cs.mapM (visit p onVariable)).run.run m = (.error e, m') →
      ∃ c ∈ cs, ∃ d, Reaches p c d ∧ Faulty p d := by
  induction cs generalizing m with
  | nil =>
    refine ⟨fun fs m' hrun => ?_, fun e m' hrun => ?_⟩
    · cases hrun
      exact .done m
    · cases hrun
  | cons c cs ih =>
    obtain ⟨hc, hcs⟩ := List.forall_mem_cons.1 hin
    obtain ⟨hfirst, hothers⟩ := List.forall_mem_cons.1 h
    rw [List.mapM_cons, run_bind]
    rcases hrun : (visit p onVariable c).run.run m with ⟨e | f, m'⟩
    · refine ⟨fun fs m'' heq => (by cases heq), fun _ _ _ => ?_⟩
      exact ⟨c, List.mem_cons_self, (hfirst m hroom).error e m' hrun⟩
    · have hruns := (hfirst m hroom).ok f m' hrun
      have hroom' := hruns.room (List.forall_mem_singleton.2 hc) hroom
      obtain ⟨hok, herror⟩ := ih hcs hroom' hothers
      dsimp only
      rw [run_bind]
      rcases hmore : (cs.mapM (visit p onVariable)).run.run m' with ⟨e | fs, m''⟩
      · refine ⟨fun fs m'' heq => (by cases heq), fun _ _ _ => ?_⟩
        obtain ⟨d, hd, hfaulty⟩ := herror e m'' hmore
        exact ⟨d, List.mem_cons_of_mem c hd, hfaulty⟩
      · refine ⟨fun gs m₃ heq => ?_, fun e m₃ heq => (by cases heq)⟩
        cases heq
        exact hruns.cons (hok fs m'' hmore)

section Nodes

variable (hvariable : ∀ v ∈ p.graph.variableIds, ∀ m : Memo, Room p n m.visited →
  Performs p (onVariable v) (.holder v) m)
include hvariable

lemma performs_target {t : Node} (ht : p.Has t) (hroom : Room p n m.visited) :
    Performs p (visit p onVariable (.target t)) (.target t) m := by
  refine performs_visit ht trivial fun d hd => ?_
  have hleads : Leads p (.target t) d := leads_of_ahead ht trivial hd
  cases hleads with
  | name _ _ means => exact hvariable _ (mem_variableIds_of_find means) m hroom

lemma performs_expression {e : Node} (he : p.Has e) (hroom : Room p n m.visited) :
    Performs p (visit p onVariable (.expression e)) (.expression e) m := by
  -- The value goes up from node to node until it is bound.
  generalize habove : p.above e = above
  induction above generalizing e with
  | nil =>
    refine performs_visit he trivial fun d hd => ?_
    rw [ahead, Program.parent?, habove] at hd
    cases hd
  | cons q rest ih =>
    refine performs_visit he trivial fun d hd => ?_
    have hleads : Leads p (.expression e) d := leads_of_ahead he trivial hd
    cases hleads with
    | bound rebinds => exact performs_target hvariable (rebinds.has he) hroom
    | wrapped parent =>
      rw [Program.parent?, habove] at parent
      obtain rfl := Option.some.inj parent
      obtain ⟨hq, hrest, -⟩ := he.above_eq_cons habove
      exact ih hq hrest

end Nodes

lemma ofVariable_succ (v : VariableId) : ofVariable p (n + 1) v = do
    if (← get).visited.contains v then return .never
    else
      modify fun m => m.visit v
      return .merge (← (readsOf p v).mapM (visit p (ofVariable p n))) := by
  rw [ofVariable, readsOf, List.mapM_map]
  rfl

lemma run_ofVariable_of_mem {v : VariableId} (h : v ∈ m.visited) :
    (ofVariable p n v).run.run m = (.ok .never, m) := by
  cases n with
  | zero => rfl
  | succ n =>
    have hget : (get : Extractor Memo).run.run m = (.ok m, m) := rfl
    rw [ofVariable_succ, run_bind, hget]
    dsimp only
    rw [if_pos (List.contains_iff_mem.2 h)]
    rfl

lemma run_ofVariable_of_not_mem {v : VariableId} (h : v ∉ m.visited) :
    (ofVariable p (n + 1) v).run.run m =
      ((readsOf p v).mapM (visit p (ofVariable p n)) >>= fun fs => pure (.merge fs)).run.run
        (m.visit v) := by
  have hget : (get : Extractor Memo).run.run m = (.ok m, m) := rfl
  rw [ofVariable_succ, run_bind, hget]
  dsimp only
  rw [if_neg fun hc => h (List.contains_iff_mem.1 hc)]
  rfl

lemma performs_ofVariable {v : VariableId} (hv : v ∈ p.graph.variableIds)
    (hroom : Room p n m.visited) : Performs p (ofVariable p n v) (.holder v) m := by
  induction n generalizing v m with
  | zero =>
    by_cases hvisited : v ∈ m.visited
    · exact performs_of_ok (run_ofVariable_of_mem hvisited) (.visited hvisited)
    · obtain ⟨n, hn, -⟩ := hroom.push hv hvisited
      cases hn
  | succ n ih =>
    by_cases hvisited : v ∈ m.visited
    · exact performs_of_ok (run_ofVariable_of_mem hvisited) (.visited hvisited)
    · obtain ⟨k, hk, hroom'⟩ := hroom.push hv hvisited
      obtain rfl : n = k := Nat.succ_injective hk
      have hplaces : ∀ c ∈ readsOf p v, ∀ m, Room p n m.visited →
          Performs p (visit p (ofVariable p n) c) c m := by
        intro c hc m hroom
        cases mem_readsOf_iff.1 hc with
        | read reference =>
          exact performs_expression (fun _ hw _ => ih hw)
            (Program.has_of_mem_referencesTo reference).1 hroom
      obtain ⟨hok, herror⟩ := performs_mapM (fun c hc => in_of_mem_readsOf hc)
        (show Room p n (m.visit v).visited from hroom') hplaces
      have hrun := run_ofVariable_of_not_mem (p := p) (n := n) hvisited
      rw [run_bind] at hrun
      rcases hmap : ((readsOf p v).mapM (visit p (ofVariable p n))).run.run (m.visit v) with
        ⟨e | fs, m'⟩
      · rw [hmap] at hrun
        obtain ⟨c, hc, d, hreaches, hfaulty⟩ := herror e m' hmap
        exact performs_of_error hrun ⟨d, .head (mem_readsOf_iff.1 hc) hreaches, hfaulty⟩
      · rw [hmap] at hrun
        exact performs_of_ok hrun (.reads hvisited (hok fs m' hmap))

/-- **Extraction is a run.**  For a pattern of the program, a fresh extractor makes a run from the
pattern on, unless there is a fault where the value gets to. -/
lemma performs_ofPattern {t : Node} (ht : p.Has t) :
    Performs p (ofPattern p (some t)) (.target t) {} :=
  performs_target (fun _ hv _ hroom => performs_ofVariable hv hroom) ht Room.nil

end Property

end RefFlow
