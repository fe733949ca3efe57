import Mathlib.Data.List.Chain
import Mathlib.Data.List.Perm.Subperm
import Mathlib.Logic.Relation
import Mathlib.Tactic.Lemma
import RefFlow.Digraph.Shortest

/-!
# The path search finds a path

`Digraph.shortestPath` searches from both ends at once, in a bounded number of rounds.  This module
shows that what it finds is a path of the graph from the source to the target
(`isPath_of_shortestPath`), and that it finds one whenever there is one (`exists_shortestPath`), so
the bound on the rounds never cuts a search short.

Both sides of the search do the same along different relations: the one follows edges, the other
follows them backwards.  Everything about a single side is therefore said of an arbitrary relation
`step`:

* `Grown step start t`: the trail `t` has grown from `start` by adding new nodes that are one step
  from old ones.  Going back along it leads to the start (`Grown.back`), and it holds each node
  once, so it is not much longer than the list of nodes that steps can lead to (`Grown.length_le`).
* `Side step start t frontier`: in addition, all steps from nodes of the trail that are not in the
  frontier have been taken.  If the frontier is empty, the trail holds whatever can be reached from
  the start (`Side.has_of_reach`).
-/

namespace RefFlow.Digraph

variable {α : Type} [DecidableEq α]

/-- There is an edge. -/
def Edge (g : Digraph α) (v w : α) : Prop := (v, w) ∈ g.edges

/-- The list of nodes is a path of the graph from the one node to the other. -/
structure IsPath (g : Digraph α) (source target : α) (path : List α) : Prop where
  chain : path.IsChain g.Edge
  head : path.head? = some source
  last : path.getLast? = some target

/-! ## Trails -/

namespace Trail

variable {step : α → α → Prop} {start v w : α} {t : Trail α}

@[simp] lemma has_nil : has ([] : Trail α) v = false := rfl

@[simp] lemma has_cons {e : α × Option α} : has (e :: t) v = (e.1 == v || has t v) := rfl

lemma has_iff : has t v = true ↔ v ∈ t.map (·.1) := by
  simp [has, List.any_eq_true]

/-- The trail has grown from the start by adding new nodes, each one step from an old one. -/
inductive Grown (step : α → α → Prop) (start : α) : Trail α → Prop
  | start : Grown step start [(start, none)]
  | more {t : Trail α} {v w : α} (grown : Grown step start t) (old : has t v = true)
      (next : step v w) (isNew : has t w = false) : Grown step start ((w, some v) :: t)

lemma Grown.has_start (h : Grown step start t) : has t start = true := by
  induction h with
  | start => simp [has]
  | more _ _ _ _ ih => simp [ih]

/-- Going back from a node of the trail leads to the start, step by step. -/
lemma Grown.back (h : Grown step start t) (hv : has t v = true) :
    (back t v).IsChain (fun a b => step b a) ∧ (back t v).head? = some v ∧
      (back t v).getLast? = some start := by
  induction h generalizing v with
  | start =>
    obtain rfl : start = v := by simpa [has] using hv
    simp [Trail.back]
  | @more t u w grown old next isNew ih =>
    by_cases hw : w = v
    · subst hw
      obtain ⟨hchain, hhead, hlast⟩ := ih old
      have hback : Trail.back ((w, some u) :: t) w = w :: Trail.back t u := by simp [Trail.back]
      obtain ⟨rest, hrest⟩ := List.head?_eq_some_iff.1 hhead
      rw [hback, hrest]
      rw [hrest] at hchain hlast
      refine ⟨List.isChain_cons_cons.2 ⟨next, hchain⟩, rfl, ?_⟩
      rw [List.getLast?_cons_cons, hlast]
    · have hback : Trail.back ((w, some u) :: t) v = Trail.back t v := by simp [Trail.back, hw]
      rw [hback]
      exact ih (by simpa [hw] using hv)

lemma Grown.nodup (h : Grown step start t) : (t.map (·.1)).Nodup := by
  induction h with
  | start => simp
  | more _ _ _ isNew ih =>
    rw [List.map_cons, List.nodup_cons, ← has_iff]
    exact ⟨by simp [isNew], ih⟩

/-- A trail is not longer than the nodes that steps lead to, and one. -/
lemma Grown.length_le (h : Grown step start t) (ends : List α)
    (hends : ∀ v w, step v w → w ∈ ends) : t.length ≤ ends.length + 1 := by
  have hsub : t.map (·.1) ⊆ start :: ends := by
    induction h with
    | start => simp
    | more _ _ next _ ih =>
      rw [List.map_cons]
      exact List.cons_subset.2 ⟨List.mem_cons_of_mem _ (hends _ _ next), ih⟩
  have hle := (List.subperm_of_subset h.nodup hsub).length_le
  simpa using hle

end Trail

open Trail

/-! ## One round of one side -/

section Round

variable {step : α → α → Prop} {start : α} {other t : Trail α} {frontier : List α}

/-- What a sweep along some edges makes of a trail and a frontier. -/
structure Swept (step : α → α → Prop) (start : α) (other : Trail α) (edges : List (α × α))
    (t : Trail α) (frontier : List α) (s : Sweep α) : Prop where
  grown : Grown step start s.trail
  mono : ∀ v, t.has v = true → s.trail.has v = true
  meets : ∀ w, s.meeting = some w → other.has w = true ∧ s.trail.has w = true
  reached : s.meeting = none → ∀ e ∈ edges, s.trail.has e.2 = true
  keeps : ∀ w ∈ frontier, w ∈ s.frontier
  inTrail : ∀ w ∈ s.frontier, w ∈ frontier ∨ s.trail.has w = true
  isNew : s.meeting = none → ∀ w, s.trail.has w = true →
    t.has w = true ∨ (w ∈ s.frontier ∧ other.has w = false)
  grows : s.trail.length + frontier.length = t.length + s.frontier.length

/-- Going along one edge adds its end, unless it is there already. -/
lemma swept_single (frontier : List α) (ht : Grown step start t) {v w : α} (hv : t.has v = true)
    (hvw : step v w) :
    ∃ (t' : Trail α) (frontier' : List α), t' = (if !t.has w then (w, some v) :: t else t) ∧
      frontier' = (if !t.has w then frontier ++ [w] else frontier) ∧ Grown step start t' ∧
      t'.has w = true ∧ (∀ x, t.has x = true → t'.has x = true) ∧
      (∀ x, t'.has x = true → t.has x = true ∨ (x = w ∧ x ∈ frontier')) ∧
      (∀ x ∈ frontier, x ∈ frontier') ∧ (∀ x ∈ frontier', x ∈ frontier ∨ x = w) ∧
      t'.length + frontier.length = t.length + frontier'.length := by
  refine ⟨_, _, rfl, rfl, ?_⟩
  cases hw : t.has w with
  | true =>
    exact ⟨ht, hw, fun _ h => h, fun _ h => .inl h, fun _ h => h, fun _ h => .inl h, rfl⟩
  | false =>
    refine ⟨.more ht hv hvw hw, by simp, fun x hx => by simp [hx], fun x hx => ?_,
      fun x hx => List.mem_append_left _ hx, fun x hx => by simpa using hx, ?_⟩
    · have hx' : w = x ∨ t.has x = true := by simpa using hx
      rcases hx' with rfl | hx'
      · exact .inr ⟨rfl, List.mem_append_right _ (List.mem_singleton_self w)⟩
      · exact .inl hx'
    · simp only [Bool.not_false, if_true, List.length_cons, List.length_append, List.length_nil]
      omega

lemma swept_sweep {edges : List (α × α)} (ht : Grown step start t)
    (he : ∀ e ∈ edges, t.has e.1 = true ∧ step e.1 e.2) :
    Swept step start other edges t frontier (sweep other edges t frontier) := by
  induction edges generalizing t frontier with
  | nil =>
    exact ⟨ht, fun _ h => h, nofun, nofun, fun _ h => h, fun _ h => .inl h, fun _ _ h => .inl h,
      rfl⟩
  | cons e edges ih =>
    obtain ⟨v, w⟩ := e
    obtain ⟨⟨hv, hvw⟩, he⟩ := List.forall_mem_cons.1 he
    obtain ⟨t', frontier', ht', hf', hgrown, hw, hmono, hnew, hkeeps, hadded, hlen⟩ :=
      swept_single frontier ht hv hvw
    rw [sweep, ← ht', ← hf']
    split
    · rename_i hother
      refine ⟨hgrown, hmono, ?_, nofun, hkeeps, fun x hx => ?_, nofun, hlen⟩
      · rintro x ⟨⟩
        exact ⟨hother, hw⟩
      · rcases hadded x hx with hx | rfl
        · exact .inl hx
        · exact .inr hw
    · rename_i hother
      have hs : Swept step start other edges t' frontier' (sweep other edges t' frontier') :=
        ih hgrown fun e h => ⟨hmono _ (he e h).1, (he e h).2⟩
      refine ⟨hs.grown, fun x hx => hs.mono x (hmono x hx), hs.meets, fun hnone => ?_,
        fun x hx => hs.keeps x (hkeeps x hx), fun x hx => ?_, fun hnone x hx => ?_, ?_⟩
      · exact List.forall_mem_cons.2 ⟨hs.mono w hw, hs.reached hnone⟩
      · rcases hs.inTrail x hx with hx | hx
        · rcases hadded x hx with hx | rfl
          · exact .inl hx
          · exact .inr (hs.mono _ hw)
        · exact .inr hx
      · rcases hs.isNew hnone x hx with hx | hx
        · refine (hnew x hx).imp_right ?_
          rintro ⟨rfl, hx⟩
          exact ⟨hs.keeps _ hx, by simpa using hother⟩
        · exact .inr hx
      · have hgrows := hs.grows
        omega

/-- A side of the search: all steps from nodes of the trail have been taken, those from the frontier
excepted. -/
structure Side (step : α → α → Prop) (start : α) (t : Trail α) (frontier : List α) : Prop where
  grown : Grown step start t
  inTrail : ∀ v ∈ frontier, t.has v = true
  closed : ∀ v w, t.has v = true → v ∉ frontier → step v w → t.has w = true

lemma side_initial (step : α → α → Prop) (start : α) : Side step start [(start, none)] [start] := by
  refine ⟨.start, fun v hv => ?_, fun v w hv hnot => ?_⟩
  · obtain rfl : v = start := by simpa using hv
    simp
  · have hv : start = v := by simpa using hv
    exact absurd (by simp [hv]) hnot

/-- A side without a frontier has reached all that can be reached. -/
lemma Side.has_of_reach (h : Side step start t []) {v : α}
    (hv : Relation.ReflTransGen step start v) : t.has v = true := by
  induction hv with
  | refl => exact h.grown.has_start
  | tail _ hvw ih => exact h.closed _ _ ih nofun hvw

/-- A round without a meeting leads to a side that has gone one step further, and holds no node of
the other side if it held none before. -/
lemma Side.round (h : Side step start t frontier) {neighbours : α → List α}
    (hn : ∀ v w, w ∈ neighbours v ↔ step v w) {s : Sweep α}
    (hs : s = sweep other (ahead neighbours frontier) t []) :
    Swept step start other (ahead neighbours frontier) t [] s ∧
      (s.meeting = none → Side step start s.trail s.frontier) := by
  have hahead : ∀ e, e ∈ ahead neighbours frontier ↔ e.1 ∈ frontier ∧ step e.1 e.2 := by
    rintro ⟨v, w⟩
    simp [ahead, ← hn]
  have hswept : Swept step start other (ahead neighbours frontier) t [] s := by
    rw [hs]
    refine swept_sweep h.grown fun e he => ?_
    obtain ⟨hv, hstep⟩ := (hahead e).1 he
    exact ⟨h.inTrail _ hv, hstep⟩
  refine ⟨hswept, fun hnone => ⟨hswept.grown, fun v hv => ?_, fun v w hv hnot hvw => ?_⟩⟩
  · exact (hswept.inTrail v hv).elim nofun id
  · rcases hswept.isNew hnone v hv with hold | ⟨hin, -⟩
    · by_cases hfront : v ∈ frontier
      · exact hswept.reached hnone (v, w) ((hahead _).2 ⟨hfront, hvw⟩)
      · exact hswept.mono w (h.closed v w hold hfront hvw)
    · exact absurd hin hnot

end Round

/-! ## The search -/

variable {g : Digraph α} {source target : α}

/-- The two halves of a meeting make a path. -/
lemma isPath_join {forward backward : Trail α} {v : α} (hf : Grown g.Edge source forward)
    (hb : Grown (fun v w => g.Edge w v) target backward) (hfv : forward.has v = true)
    (hbv : backward.has v = true) : g.IsPath source target (join forward backward v) := by
  obtain ⟨hfchain, hfhead, hflast⟩ := hf.back hfv
  obtain ⟨hbchain, hbhead, hblast⟩ := hb.back hbv
  obtain ⟨rest, hrest⟩ := List.head?_eq_some_iff.1 hbhead
  rw [hrest] at hbchain hblast
  have hjoin : join forward backward v = (forward.back v).reverse ++ rest := by
    rw [join, hrest]
    rfl
  have hlast : (forward.back v).reverse.getLast? = some v := by rw [List.getLast?_reverse, hfhead]
  rw [hjoin]
  refine ⟨?_, ?_, ?_⟩
  · rw [List.isChain_append]
    refine ⟨List.isChain_reverse.2 hfchain, hbchain.tail, fun x hx y hy => ?_⟩
    rw [hlast] at hx
    obtain ⟨rest', rfl⟩ := List.head?_eq_some_iff.1 hy
    cases hx
    exact (List.isChain_cons_cons.1 hbchain).1
  · rw [List.head?_append, List.head?_reverse, hflast]
    rfl
  · rw [List.getLast?_append, hlast]
    rw [List.getLast?_cons] at hblast
    cases hr : rest.getLast? with
    | none => simpa [hr] using hblast
    | some w => simpa [hr] using hblast

/-- What a search that is under way knows: it has two sides, which have not met. -/
structure Searching (g : Digraph α) (source target : α) (forward : Trail α) (front : List α)
    (backward : Trail α) (rear : List α) : Prop where
  fromSource : Side g.Edge source forward front
  fromTarget : Side (fun v w => g.Edge w v) target backward rear
  disjoint : ∀ v, forward.has v = true → backward.has v = false

namespace Searching

variable {forward backward : Trail α} {front rear : List α}
  (h : Searching g source target forward front backward rear)
include h

/-- A round of the source's side finds a path, or leads on. -/
lemma forwardRound {s : Sweep α} (hs : s = sweep backward (ahead g.successors front) forward []) :
    (∀ v, s.meeting = some v → g.IsPath source target (join s.trail backward v)) ∧
      (s.meeting = none → Searching g source target s.trail s.frontier backward rear ∧
        s.trail.length = forward.length + s.frontier.length) := by
  obtain ⟨hswept, hside⟩ := h.fromSource.round (fun v w => mem_successors) hs
  refine ⟨fun v hv => ?_, fun hnone => ⟨⟨hside hnone, h.fromTarget, fun v hv => ?_⟩, hswept.grows⟩⟩
  · obtain ⟨hback, hforw⟩ := hswept.meets v hv
    exact isPath_join hswept.grown h.fromTarget.grown hforw hback
  · exact (hswept.isNew hnone v hv).elim (h.disjoint v) And.right

/-- A round of the target's side finds a path, or leads on. -/
lemma backwardRound {s : Sweep α} (hs : s = sweep forward (ahead g.predecessors rear) backward []) :
    (∀ v, s.meeting = some v → g.IsPath source target (join forward s.trail v)) ∧
      (s.meeting = none → Searching g source target forward front s.trail s.frontier ∧
        s.trail.length = backward.length + s.frontier.length) := by
  obtain ⟨hswept, hside⟩ := h.fromTarget.round (fun v w => mem_predecessors) hs
  refine ⟨fun v hv => ?_, fun hnone => ⟨⟨h.fromSource, hside hnone, fun v hv => ?_⟩, hswept.grows⟩⟩
  · obtain ⟨hforw, hback⟩ := hswept.meets v hv
    exact isPath_join h.fromSource.grown hswept.grown hforw hback
  · by_contra hback
    have hback : s.trail.has v = true := by simpa using hback
    rcases hswept.isNew hnone v hback with hold | ⟨-, hnot⟩
    · rw [h.disjoint v hv] at hold
      cases hold
    · rw [hv] at hnot
      cases hnot

section Reach

variable (hreach : Relation.ReflTransGen g.Edge source target)
include hreach

lemma front_ne_nil : front ≠ [] := by
  rintro rfl
  have hmet := h.disjoint target (h.fromSource.has_of_reach hreach)
  rw [h.fromTarget.grown.has_start] at hmet
  cases hmet

lemma rear_ne_nil : rear ≠ [] := by
  rintro rfl
  have hback : backward.has source = true :=
    h.fromTarget.has_of_reach (Relation.reflTransGen_swap.2 hreach)
  rw [h.disjoint source h.fromSource.grown.has_start] at hback
  cases hback

end Reach

/-- A search that is under way holds at most the ends of all edges. -/
lemma length_le : forward.length + backward.length ≤ 2 * g.edges.length + 2 := by
  have hf := h.fromSource.grown.length_le (g.edges.map (·.2)) fun v w hvw =>
    List.mem_map.2 ⟨(v, w), hvw, rfl⟩
  have hb := h.fromTarget.grown.length_le (g.edges.map (·.1)) fun v w hvw =>
    List.mem_map.2 ⟨(w, v), hvw, rfl⟩
  rw [List.length_map] at hf hb
  omega

end Searching

lemma isPath_of_search {n : Nat} {forward backward : Trail α} {front rear path : List α}
    (h : Searching g source target forward front backward rear)
    (hp : search g n forward front backward rear = some path) : g.IsPath source target path := by
  induction n generalizing forward front backward rear with
  | zero => cases hp
  | succ n ih =>
    rw [search] at hp
    split at hp
    · cases hp
    · split at hp
      · obtain ⟨hmeet, hnext⟩ := h.forwardRound rfl
        dsimp only at hp
        split at hp
        · rename_i v hv
          cases hp
          exact hmeet v hv
        · rename_i hnone
          exact ih (hnext hnone).1 hp
      · obtain ⟨hmeet, hnext⟩ := h.backwardRound rfl
        dsimp only at hp
        split at hp
        · rename_i v hv
          cases hp
          exact hmeet v hv
        · rename_i hnone
          exact ih (hnext hnone).1 hp

/-- Every round that does not end the search reaches some end of an edge for the first time, so that
the rounds suffice. -/
lemma exists_search {n : Nat} {forward backward : Trail α} {front rear : List α}
    (h : Searching g source target forward front backward rear)
    (hreach : Relation.ReflTransGen g.Edge source target)
    (hn : 2 * g.edges.length + 3 ≤ forward.length + backward.length + n) :
    ∃ path, search g n forward front backward rear = some path := by
  induction n generalizing forward front backward rear with
  | zero =>
    have hle := h.length_le
    omega
  | succ n ih =>
    have hnonempty : (front.isEmpty || rear.isEmpty) = false := by
      simp [h.front_ne_nil hreach, h.rear_ne_nil hreach]
    rw [search, hnonempty, if_neg (by simp)]
    split
    · obtain ⟨-, hnext⟩ := h.forwardRound rfl
      dsimp only
      split
      · exact ⟨_, rfl⟩
      · rename_i hnone
        obtain ⟨hsearching, hlen⟩ := hnext hnone
        have hpos := List.length_pos_of_ne_nil (hsearching.front_ne_nil hreach)
        exact ih hsearching (by omega)
    · obtain ⟨-, hnext⟩ := h.backwardRound rfl
      dsimp only
      split
      · exact ⟨_, rfl⟩
      · rename_i hnone
        obtain ⟨hsearching, hlen⟩ := hnext hnone
        have hpos := List.length_pos_of_ne_nil (hsearching.rear_ne_nil hreach)
        exact ih hsearching (by omega)

lemma searching_initial (h : source ≠ target) :
    Searching g source target [(source, none)] [source] [(target, none)] [target] := by
  refine ⟨side_initial _ _, side_initial _ _, fun v hv => ?_⟩
  obtain rfl : source = v := by simpa using hv
  simpa using h.symm

/-- **What the path search finds is a path.** -/
theorem isPath_of_shortestPath {path : List α} (hp : g.shortestPath source target = some path) :
    g.IsPath source target path := by
  rw [shortestPath] at hp
  split at hp
  · rename_i heq
    cases hp
    exact ⟨.singleton _, rfl, by simp [heq]⟩
  · rename_i hne
    exact isPath_of_search (searching_initial hne) hp

/-- **The path search finds a path if there is one.** -/
theorem exists_shortestPath (hreach : Relation.ReflTransGen g.Edge source target) :
    ∃ path, g.shortestPath source target = some path := by
  rw [shortestPath]
  split
  · exact ⟨_, rfl⟩
  · rename_i hne
    exact exists_search (searching_initial hne) hreach (by simp only [List.length_singleton]; omega)

end RefFlow.Digraph
