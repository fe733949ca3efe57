import Mathlib.Data.List.Nodup
import RefFlow.Proofs.Digraph.Path

/-!
# The path search finds a shortest path

No path of the graph has fewer nodes than the one that `Digraph.shortestPath` finds
(`length_le_of_shortestPath`), and so the path visits no node twice (`nodup_of_shortestPath`).

Each side of the search fills a *ball* around its start (`Ball step start t radius`): its trail
holds every node that `radius` steps lead to, and goes back from each of its nodes in no more than
`radius` steps.  A round without a meeting makes the radius larger by one (`Ball.round`).

While the balls have no node in common, every path has more nodes than both radii together allow,
for a shorter one would have a node in either ball (`Searching.lt_length`).  A round stops at the
first meeting, before its level is complete.  That is soon enough: whatever a round adds is one step
outside the ball (`near_sweep`), so the two ways to the meeting are together as short as any path
can be.
-/

namespace RefFlow.Digraph

variable {α : Type} [DecidableEq α]

open Trail

/-! ## Balls -/

section Ball

variable {step : α → α → Prop} {start : α} {other t : Trail α} {frontier : List α} {radius : Nat}

/-- The trail holds all nodes that so many steps lead to, and no node is further from the start. -/
structure Ball (step : α → α → Prop) (start : α) (t : Trail α) (radius : Nat) : Prop where
  near : ∀ v, t.has v = true → (t.back v).length ≤ radius + 1
  full : ∀ (path : List α) (v : α), path.IsChain step → path.head? = some start →
    path.getLast? = some v → path.length ≤ radius + 1 → t.has v = true

lemma ball_initial (step : α → α → Prop) (start : α) : Ball step start [(start, none)] 0 := by
  refine ⟨fun v hv => ?_, fun path v _ hhead hlast hlength => ?_⟩
  · obtain rfl : start = v := by simpa using hv
    simp [back]
  · obtain ⟨rest, rfl⟩ := List.head?_eq_some_iff.1 hhead
    obtain rfl : rest = [] := by simpa using hlength
    obtain rfl : start = v := by simpa using hlast
    simp

/-- A new node does not change the ways back from the old ones. -/
lemma back_cons_of_has {u : Option α} {v w : α} (hv : t.has v = true) (hw : t.has w = false) :
    back ((w, u) :: t) v = back t v := by
  have hne : w ≠ v := by
    rintro rfl
    rw [hv] at hw
    cases hw
  simp [back, hne]

/-- What a sweep adds to a trail is one step further than the nodes that it starts from. -/
lemma near_sweep {n : Nat} {edges : List (α × α)}
    (hedges : ∀ e ∈ edges, t.has e.1 = true ∧ (t.back e.1).length ≤ n)
    (ht : ∀ v, t.has v = true → (t.back v).length ≤ n + 1) {v : α}
    (hv : (sweep other edges t frontier).trail.has v = true) :
    ((sweep other edges t frontier).trail.back v).length ≤ n + 1 := by
  induction edges generalizing t frontier with
  | nil => exact ht v hv
  | cons e edges ih =>
    obtain ⟨u, w⟩ := e
    obtain ⟨⟨hu, hun⟩, hedges⟩ := List.forall_mem_cons.1 hedges
    -- The trail after the first edge, for which the same is known.
    have hnext : ∃ t' : Trail α, t' = (if !t.has w then (w, some u) :: t else t) ∧
        (∀ e ∈ edges, t'.has e.1 = true ∧ (t'.back e.1).length ≤ n) ∧
        ∀ x, t'.has x = true → (t'.back x).length ≤ n + 1 := by
      refine ⟨_, rfl, ?_⟩
      cases hw : t.has w with
      | true => exact ⟨hedges, ht⟩
      | false =>
        refine ⟨fun e he => ?_, fun x hx => ?_⟩
        · obtain ⟨hold, hlength⟩ := hedges e he
          refine ⟨by simp [hold], ?_⟩
          simpa [back_cons_of_has hold hw] using hlength
        · have hx' : w = x ∨ t.has x = true := by simpa using hx
          rcases hx' with rfl | hx'
          · simpa [back] using hun
          · simpa [back_cons_of_has hx' hw] using ht x hx'
    obtain ⟨t', ht', hedges', hnear⟩ := hnext
    rw [sweep, ← ht'] at hv ⊢
    split at hv
    · rename_i hother
      rw [if_pos hother]
      exact hnear v hv
    · rename_i hother
      rw [if_neg hother]
      exact ih hedges' hnear hv

/-- The nodes of the frontier, from which a round starts, lie in the ball. -/
lemma Ball.near_ahead (hb : Ball step start t radius) (hs : Side step start t frontier)
    {neighbours : α → List α} {e : α × α} (he : e ∈ ahead neighbours frontier) :
    t.has e.1 = true ∧ (t.back e.1).length ≤ radius + 1 := by
  obtain ⟨v, hv, he⟩ := List.mem_flatMap.1 he
  obtain ⟨w, -, rfl⟩ := List.mem_map.1 he
  have hhas := hs.inTrail v hv
  exact ⟨hhas, hb.near v hhas⟩

/-- A round goes one step further, and if it does not come to a meeting, it goes there from all
nodes. -/
lemma Ball.round (hb : Ball step start t radius) (hs : Side step start t frontier)
    {neighbours : α → List α} (hn : ∀ v w, w ∈ neighbours v ↔ step v w) {s : Sweep α}
    (hsweep : s = sweep other (ahead neighbours frontier) t []) :
    (∀ v, s.trail.has v = true → (s.trail.back v).length ≤ radius + 2) ∧
      (s.meeting = none → Ball step start s.trail (radius + 1)) := by
  obtain ⟨hswept, -⟩ := hs.round hn hsweep
  have hnear : ∀ v, s.trail.has v = true → (s.trail.back v).length ≤ radius + 2 := by
    subst hsweep
    intro v hv
    have hold : ∀ v, t.has v = true → (t.back v).length ≤ radius + 1 + 1 :=
      fun v hv => Nat.le_succ_of_le (hb.near v hv)
    exact near_sweep (fun e he => hb.near_ahead hs he) hold hv
  refine ⟨hnear, fun hnone => ⟨hnear, fun path w hchain hhead hlast hlength => ?_⟩⟩
  obtain ⟨front, rfl⟩ := List.getLast?_eq_some_iff.1 hlast
  obtain ⟨hfront, -, hstep⟩ := List.isChain_append.1 hchain
  cases hfrontlast : front.getLast? with
  | none =>
    obtain rfl := List.getLast?_eq_none_iff.1 hfrontlast
    obtain rfl : w = start := by simpa using hhead
    exact hswept.mono w hs.grown.has_start
  | some v =>
    have hne : front ≠ [] := by
      rintro rfl
      cases hfrontlast
    -- The last node but one lies in the ball, and the step from it has been taken.
    have hv : t.has v = true := by
      refine hb.full front v hfront ?_ hfrontlast ?_
      · rwa [List.head?_append_of_ne_nil _ hne] at hhead
      · simpa using hlength
    have hvw : step v w := hstep v hfrontlast w rfl
    by_cases hin : v ∈ frontier
    · refine hswept.reached hnone (v, w) (List.mem_flatMap.2 ⟨v, hin, ?_⟩)
      exact List.mem_map.2 ⟨w, (hn v w).2 hvw, rfl⟩
    · exact hswept.mono w (hs.closed v w hv hin hvw)

end Ball

/-! ## Meetings -/

variable {g : Digraph α} {source target : α} {forward backward : Trail α} {front rear : List α}
  {near far : Nat}

/-- While the two balls have no node in common, a path has more nodes than the radii allow. -/
lemma Searching.lt_length (h : Searching g source target forward front backward rear)
    (hf : Ball g.Edge source forward near) (hb : Ball (fun v w => g.Edge w v) target backward far)
    {path : List α} (hpath : g.IsPath source target path) : near + far + 1 < path.length := by
  obtain ⟨hchain, hhead, hlast⟩ := hpath
  by_contra hshort
  have hpos : 0 < path.length := by
    rw [List.length_pos_iff]
    rintro rfl
    cases hhead
  -- A node of the path that is near the source, and from which the target is near.
  obtain ⟨k, hk, hknear, hkfar⟩ : ∃ k, k < path.length ∧ k ≤ near ∧ path.length ≤ k + far + 1 :=
    ⟨min near (path.length - 1), by omega, by omega, by omega⟩
  have hforward : forward.has path[k] = true := by
    refine hf.full (path.take (k + 1)) _ (hchain.take _) ?_ ?_ ?_
    · rwa [List.head?_take, if_neg (by omega)]
    · rw [List.getLast?_take, if_neg (by omega), Nat.add_sub_cancel, List.getElem?_eq_getElem hk]
      rfl
    · rw [List.length_take]
      omega
  have hbackward : backward.has path[k] = true := by
    refine hb.full (path.drop k).reverse _ ?_ ?_ ?_ ?_
    · exact List.isChain_reverse.2 (hchain.drop k)
    · rw [List.head?_reverse, List.getLast?_drop, if_neg (by omega), hlast]
    · rw [List.getLast?_reverse, List.head?_drop, List.getElem?_eq_getElem hk]
    · rw [List.length_reverse, List.length_drop]
      omega
  rw [h.disjoint _ hforward] at hbackward
  cases hbackward

/-- The two ways to a meeting share it. -/
lemma length_join (forward : Trail α) {v : α}
    (hb : Grown (fun v w => g.Edge w v) target backward) (hv : backward.has v = true) :
    (join forward backward v).length + 1 = (forward.back v).length + (backward.back v).length := by
  obtain ⟨-, hhead, -⟩ := hb.back hv
  obtain ⟨rest, hrest⟩ := List.head?_eq_some_iff.1 hhead
  simp only [join, hrest, List.length_append, List.length_reverse, List.length_drop,
    List.length_cons]
  omega

section Rounds

variable (h : Searching g source target forward front backward rear)
  (hf : Ball g.Edge source forward near) (hb : Ball (fun v w => g.Edge w v) target backward far)
include h hf hb

/-- A round of the source's side finds a path that no other is shorter than, or its ball grows. -/
lemma Searching.forwardBall {s : Sweep α}
    (hs : s = sweep backward (ahead g.successors front) forward []) :
    (∀ v, s.meeting = some v → (join s.trail backward v).length ≤ near + far + 2) ∧
      (s.meeting = none → Ball g.Edge source s.trail (near + 1)) := by
  obtain ⟨hswept, -⟩ := h.fromSource.round (fun v w => mem_successors) hs
  obtain ⟨hnear, hball⟩ := hf.round h.fromSource (fun v w => mem_successors) hs
  refine ⟨fun v hv => ?_, hball⟩
  obtain ⟨hback, hforw⟩ := hswept.meets v hv
  have hjoin := length_join s.trail h.fromTarget.grown hback
  have hfv := hnear v hforw
  have hbv := hb.near v hback
  omega

/-- A round of the target's side finds a path that no other is shorter than, or its ball grows. -/
lemma Searching.backwardBall {s : Sweep α}
    (hs : s = sweep forward (ahead g.predecessors rear) backward []) :
    (∀ v, s.meeting = some v → (join forward s.trail v).length ≤ near + far + 2) ∧
      (s.meeting = none → Ball (fun v w => g.Edge w v) target s.trail (far + 1)) := by
  obtain ⟨hswept, -⟩ := h.fromTarget.round (fun v w => mem_predecessors) hs
  obtain ⟨hnear, hball⟩ := hb.round h.fromTarget (fun v w => mem_predecessors) hs
  refine ⟨fun v hv => ?_, hball⟩
  obtain ⟨hforw, hback⟩ := hswept.meets v hv
  have hjoin := length_join forward hswept.grown hback
  have hfv := hf.near v hforw
  have hbv := hnear v hback
  omega

end Rounds

lemma length_le_of_search {n : Nat} {path other : List α}
    (h : Searching g source target forward front backward rear)
    (hf : Ball g.Edge source forward near) (hb : Ball (fun v w => g.Edge w v) target backward far)
    (hp : search g n forward front backward rear = some path)
    (hother : g.IsPath source target other) : path.length ≤ other.length := by
  induction n generalizing forward front backward rear near far with
  | zero => cases hp
  | succ n ih =>
    have hlong := h.lt_length hf hb hother
    rw [search] at hp
    split at hp
    · cases hp
    · split at hp
      · obtain ⟨hmeet, hball⟩ := h.forwardBall hf hb rfl
        obtain ⟨-, hnext⟩ := h.forwardRound rfl
        dsimp only at hp
        split at hp
        · rename_i v hv
          cases hp
          exact (hmeet v hv).trans hlong
        · rename_i hnone
          exact ih (hnext hnone).1 (hball hnone) hb hp
      · obtain ⟨hmeet, hball⟩ := h.backwardBall hf hb rfl
        obtain ⟨-, hnext⟩ := h.backwardRound rfl
        dsimp only at hp
        split at hp
        · rename_i v hv
          cases hp
          exact (hmeet v hv).trans hlong
        · rename_i hnone
          exact ih (hnext hnone).1 hf (hball hnone) hp

/-- **No path is shorter than the one that the search finds.** -/
theorem length_le_of_shortestPath {path other : List α}
    (hp : g.shortestPath source target = some path) (hother : g.IsPath source target other) :
    path.length ≤ other.length := by
  rw [shortestPath] at hp
  split at hp
  · cases hp
    rw [List.length_singleton, Nat.one_le_iff_ne_zero, ne_eq, List.length_eq_zero_iff]
    rintro rfl
    cases hother.head
  · rename_i hne
    exact length_le_of_search (searching_initial hne) (ball_initial _ _) (ball_initial _ _) hp
      hother

/-! ## Repetitions -/

/-- A list with a repetition has a piece between two equal members. -/
lemma exists_repetition {path : List α} (h : ¬path.Nodup) :
    ∃ before v between after, path = before ++ v :: (between ++ v :: after) := by
  induction path with
  | nil => exact absurd List.nodup_nil h
  | cons x rest ih =>
    by_cases hx : x ∈ rest
    · obtain ⟨between, after, rfl⟩ := List.append_of_mem hx
      exact ⟨[], x, between, after, rfl⟩
    · have hrest : ¬rest.Nodup := fun hrest => h (List.nodup_cons.2 ⟨hx, hrest⟩)
      obtain ⟨before, v, between, after, rfl⟩ := ih hrest
      exact ⟨x :: before, v, between, after, rfl⟩

omit [DecidableEq α] in
/-- A path stays one if the piece between two visits of a node is left out. -/
lemma IsPath.leave_out {before between after : List α} {v : α}
    (h : g.IsPath source target (before ++ v :: (between ++ v :: after))) :
    g.IsPath source target (before ++ v :: after) := by
  obtain ⟨hchain, hhead, hlast⟩ := h
  obtain ⟨hbefore, hbetween⟩ := List.isChain_split.1 hchain
  rw [← List.cons_append] at hbetween
  refine ⟨List.isChain_split.2 ⟨hbefore, (List.isChain_split.1 hbetween).2⟩, ?_, ?_⟩
  · cases before with
    | nil => exact hhead
    | cons x before => exact hhead
  · rw [List.getLast?_append_cons] at hlast ⊢
    rw [← List.cons_append, List.getLast?_append_cons] at hlast
    exact hlast

/-- **The path that the search finds visits no node twice.** -/
theorem nodup_of_shortestPath {path : List α} (hp : g.shortestPath source target = some path) :
    path.Nodup := by
  by_contra hnot
  obtain ⟨before, v, between, after, rfl⟩ := exists_repetition hnot
  have hle := length_le_of_shortestPath hp (isPath_of_shortestPath hp).leave_out
  simp only [List.length_append, List.length_cons] at hle
  omega

end RefFlow.Digraph
