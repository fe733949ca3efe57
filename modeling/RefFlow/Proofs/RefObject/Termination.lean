import RefFlow.Proofs.Property.Termination
import RefFlow.Proofs.RefObject.Walk

/-!
# Collecting references to ref objects comes to an end

A ref object is followed by functions that call each other: a pattern receives it, an identifier in
the pattern is bound to it, the variable of the identifier occurs elsewhere, and an occurrence or a
member expression hands it on to the next pattern.  Objects may be handed on in circles, and all
that is known of it is that an identifier is marked as followed before the occurrences of its
variable are gone through.

Here these functions are written down without a budget, together with an account of the identifiers
whose occurrences have been gone through.  `following_ends` shows that they always come to an end,
with the findings that `followSite` has, and that the occurrences of no identifier are gone through
twice while any number of sites are followed.  An object that is made of ref objects is followed by
way of its properties, and so the same is stated there for an extractor of properties.
-/

namespace RefFlow

open Fallible

namespace RefObject

/-! ## Walks -/

/-- What has been found, and an account of what has been done for it. -/
structure Pass where
  findings : Findings := {}
  /-- The numbers of the identifiers whose occurrences have been gone through, the last first. -/
  entered : List Nat := []

/-- The identifiers that are marked, and those that have been entered. -/
def Pass.ledger (s : Pass) : Ledger Nat := ⟨s.findings.followed, s.entered⟩

/-- An attempt to follow ref objects. -/
abbrev Walk := Attempt Pass

namespace Walk

/-- Adds to what has been found. -/
def add (g : Findings → Findings) : Walk Unit := modify fun s => { s with findings := g s.findings }

mutual

/-- A pattern receives the object. -/
def receive (p : Program) (site : Site) (target : Option Node) (source : Node) : Nat → Walk Unit
  | 0 => .giveUp
  | depth + 1 =>
    match target with
    | none => return
    | some n =>
      match n.kind with
      | .identifier => do
        add (·.derive source n)
        bind p site n depth
      | .objectPattern => do
        add (·.derive source n)
        add (·.record
          { node := n, form := .pattern, isTarget := true, method := site.method, site := site })
      | .assignmentPattern => do receive p site (← n.child .left) source depth
      | _ => return

/-- An identifier is bound to the object. -/
def bind (p : Program) (site : Site) (identifier : Node) : Nat → Walk Unit
  | 0 => .giveUp
  | depth + 1 => do
    if (← get).findings.followed.contains identifier.id then return
    else
      modify fun s =>
        { findings := s.findings.follow identifier, entered := identifier.id :: s.entered }
      (← p.occurrences identifier).forM fun r => occur p site identifier r depth

/-- The variable of the identifier occurs somewhere. -/
def occur (p : Program) (site : Site) (binding : Node) (r : Reference) : Nat → Walk Unit
  | 0 => .giveUp
  | depth + 1 => do
    let n := r.identifier
    let definition := p.soleDefinition? r
    if definition.any (n.id == ·.identifier.id) then return
    else
      (if n.id == binding.id then return else add (·.derive binding n))
      if ← (if r.access.reads then rebind p site n depth else return false) then return
      else
        add (·.record
          { node := n, form := .identifier, isTarget := r.access.writes, method := site.method
            site := site, owner := definition.bind (·.declaration) })

/-- Hands the object on to the pattern that an expression is bound or assigned to.  Says whether
there is one. -/
def rebind (p : Program) (site : Site) (n : Node) : Nat → Walk Bool
  | 0 => .giveUp
  | depth + 1 =>
    match p.parent? n with
    | none => return false
    | some parent =>
      match parent.kind with
      | .assignmentExpression => do
        if (← parent.text? .operator) == some "=" then
          if n.isNode (← parent.child .right) then
            receive p site (← parent.child .left) n depth
            return true
          else return false
        else return false
      | .variableDeclarator => do
        if n.isNode (← parent.child .init) then
          receive p site (← parent.child .id) n depth
          return true
        else return false
      | _ => return false

end

/-- A member expression has the object as its value. -/
def carry (p : Program) (site : Site) (member source : Node) : Unbounded Pass Unit :=
  fun depth => do
    add (·.derive source member)
    if ← rebind p site member depth then return
    else
      add (·.record
        { node := member, form := .expression, isTarget := false, method := site.method
          site := site })

/-- A value that is made of ref objects goes to a pattern.  A new extractor finds what is read from
it. -/
def spread (p : Program) (site : Site) (target : Option Node) : Unbounded Pass Unit :=
  fun depth => do
    let found ← (Property.Walk.ofPattern p target depth).apart {}
    (found.properties.keys.flatMap found.nests).forM fun
      | .expression member => carry p site member site.node depth
      | .pattern target => receive p site target site.node depth

/-- Follows the object that a call creates. -/
def followSite (p : Program) (site : Site) : Unbounded Pass Unit :=
  fun depth => do
    add (·.start site.node)
    match ← destination? p site.node with
    | some target =>
      if site.method == Site.spreading then spread p site target depth
      else receive p site target site.node depth
    | none =>
      if site.method == Site.spreading then return
      else
        add (·.record
          { node := site.node, form := .expression, isTarget := false, method := site.method
            site := site })

/-- Follows the objects of one site after the other, as they are found. -/
def followAll (p : Program) : Search Site → Unbounded Pass Unit
  | .done => fun _ => return
  | .broken f => fun _ => throw f
  | .found site rest => fun depth => do
    followSite p site depth
    followAll p rest depth

/-! ## What a walk does -/

/-- With this state, the walk comes to an end.  It has these findings, unless it breaks off with the
same fault; and it enters no identifier twice, nor one that was followed before. -/
def Does (w : Unbounded Pass Unit) (s : Pass) (x : Except Fault Findings) : Prop :=
  ∃ (r : Except Fault Unit) (after : Pass), w.Ends s r after ∧
    (r.map fun _ => after.findings) = x ∧ s.ledger.Extends after.ledger

section Rules

variable {α : Type} {w w' : Unbounded Pass Unit} {s : Pass} {x : Except Fault Findings}

lemma Does.of_succ (h : Does (fun d => w (d + 1)) s x) : Does w s x := by
  obtain ⟨r, after, hends, hafter⟩ := h
  exact ⟨r, after, hends.of_succ, hafter⟩

lemma does_pure : Does (fun _ => pure ()) s (.ok s.findings) :=
  ⟨.ok (), s, Unbounded.ends_of_forall fun _ => rfl, rfl, .refl _⟩

lemma does_throw (f : Fault) : Does (fun _ => throw f) s (.error f) :=
  ⟨.error f, s, Unbounded.ends_of_forall fun _ => rfl, rfl, .refl _⟩

/-- One walk after the other.  Identifiers that have been followed stay so. -/
lemma Does.bind {k : Step} (h : Does w s x)
    (hk : ∀ s' : Pass, s.findings.followed ⊆ s'.findings.followed → Does w' s' (k s'.findings)) :
    Does (fun d => w d >>= fun _ => w' d) s (x >>= k) := by
  obtain ⟨r, after, hends, rfl, hext⟩ := h
  cases r with
  | error f => exact ⟨.error f, after, hends.bind_error, rfl, hext⟩
  | ok u =>
    obtain ⟨r, last, hends', hx, hext'⟩ := hk after hext.marked_subset
    exact ⟨r, last, hends.bind_ok hends', hx, hext.trans hext'⟩

/-- What is added to the findings leaves the marks as they are. -/
lemma does_add_bind {g : Findings → Findings} (hg : (g s.findings).followed = s.findings.followed)
    (h : Does w { s with findings := g s.findings } x) :
    Does (fun d => add g >>= fun _ => w d) s x := by
  obtain ⟨r, after, hends, hx, hext⟩ := h
  refine ⟨r, after, hends, hx, ?_⟩
  rwa [Pass.ledger, hg] at hext

lemma does_add {g : Findings → Findings} (hg : (g s.findings).followed = s.findings.followed) :
    Does (fun _ => add g) s (.ok (g s.findings)) :=
  does_add_bind hg does_pure

lemma does_unless_add_bind {c : Bool} {g : Findings → Findings}
    (hg : (g s.findings).followed = s.findings.followed)
    (h : Does w { s with findings := if c then s.findings else g s.findings } x) :
    Does (fun d => (if c then pure () else add g) >>= fun _ => w d) s x := by
  cases c with
  | true => exact h
  | false => exact does_add_bind hg h

/-- A part that a node is asked for, and what is done with it. -/
lemma does_lift_bind {y : Except Fault α} {k : Nat → α → Walk Unit}
    {l : α → Except Fault Findings} (h : ∀ a, y = .ok a → Does (fun d => k d a) s (l a)) :
    Does (fun d => liftM y >>= k d) s (y >>= l) := by
  cases y with
  | error f => exact does_throw f
  | ok a => exact h a rfl

/-- The result of a computation with a state of its own, and what is done with it. -/
lemma does_apart_bind {τ : Type} {v : Unbounded τ α} {t t' : τ} {y : Except Fault α}
    {k : Nat → α → Walk Unit} {l : α → Except Fault Findings} (hv : v.Ends t y t')
    (h : ∀ a, y = .ok a → Does (fun d => k d a) s (l a)) :
    Does (fun d => (v d).apart t >>= k d) s (y >>= l) := by
  cases y with
  | error f => exact ⟨.error f, s, (hv.apart s).bind_error, rfl, .refl _⟩
  | ok a =>
    obtain ⟨r, after, hends, hafter⟩ := h a rfl
    exact ⟨r, after, (hv.apart s).bind_ok hends, hafter⟩

/-- A walk for each member of a list. -/
lemma does_forM {k : Nat → α → Walk Unit} {l : Findings → α → Except Fault Findings} {as : List α}
    (h : ∀ a ∈ as, ∀ s' : Pass, s.findings.followed ⊆ s'.findings.followed →
      Does (fun d => k d a) s' (l s'.findings a)) :
    Does (fun d => as.forM (k d)) s (as.foldlM l s.findings) := by
  induction as generalizing s with
  | nil => exact does_pure
  | cons a as ih =>
    obtain ⟨ha, has⟩ := List.forall_mem_cons.1 h
    rw [List.foldlM_cons]
    refine (ha s (List.Subset.refl _)).bind fun s' hs' => ih fun b hb s'' hs'' => ?_
    exact has b hb s'' (List.Subset.trans hs' hs'')

end Rules

/-! ## One identifier -/

section Targets

variable {p : Program}

/-- The target, if there is one, is a node of the program. -/
def TargetIn (p : Program) (o : Option (Option Node)) : Prop := ∀ target ∈ o, ∀ t ∈ target, p.Has t

lemma targetIn_none : TargetIn p none := fun o h => absurd h (Option.not_mem_none o)

lemma gives_some_child {q : Node} (hq : p.Has q) (f : Field) :
    Gives (some <$> q.child f) (TargetIn p) := by
  refine (hq.gives_child f).map fun target ht => ?_
  rintro _ ⟨⟩
  exact ht

/-- Whatever is bound or assigned goes to a node of the program. -/
lemma gives_rebinding? (n : Node) : Gives (rebinding? p n) (TargetIn p) := by
  rw [rebinding?]
  cases hparent : p.parent? n with
  | none => exact gives_ok targetIn_none
  | some q =>
    have hchild := gives_some_child (Program.has_of_parent? hparent)
    dsimp only
    generalize q.kind = kind
    cases kind with
    | assignmentExpression =>
      refine gives_true.bind fun operator _ => ?_
      split
      · refine gives_true.bind fun o _ => ?_
        split
        · exact hchild .left
        · exact gives_pure targetIn_none
      · exact gives_pure targetIn_none
    | variableDeclarator =>
      refine gives_true.bind fun o _ => ?_
      split
      · exact hchild .id
      · exact gives_pure targetIn_none
    | _ => exact gives_ok targetIn_none

/-- Whatever a call goes to is a node of the program. -/
lemma gives_destination? (n : Node) : Gives (destination? p n) (TargetIn p) := by
  rw [destination?]
  cases hparent : p.parent? n with
  | none => exact gives_ok targetIn_none
  | some q =>
    have hchild := gives_some_child (Program.has_of_parent? hparent)
    dsimp only
    generalize q.kind = kind
    cases kind with
    | variableDeclarator =>
      refine gives_true.bind fun o _ => ?_
      split
      · exact hchild .id
      · exact gives_pure targetIn_none
    | assignmentExpression =>
      refine gives_true.bind fun operator _ => ?_
      split
      · exact hchild .left
      · exact gives_pure targetIn_none
    | _ => exact gives_ok targetIn_none

end Targets

section Identifier

variable {p : Program} {site : Site} {s : Pass} {onIdentifier : Node → Step}

/-- To hand on an object means to ask for the target and to let it receive the object. -/
lemma rebind_succ (n : Node) (depth : Nat) : rebind p site n (depth + 1) = do
    match ← rebinding? p n with
    | some target =>
      receive p site target n depth
      return true
    | none => return false := by
  rw [rebind, rebinding?]
  cases p.parent? n with
  | none => rfl
  | some q =>
    dsimp only
    generalize q.kind = kind
    cases kind with
    | assignmentExpression =>
      dsimp only
      cases q.text? .operator with
      | error f => rfl
      | ok operator =>
        rw [ok_bind]
        change (if operator == some "=" then _ else _) = _
        split
        · cases q.child .right with
          | error f => rfl
          | ok o =>
            rw [ok_bind]
            change (if n.isNode o then _ else _) = _
            split
            · cases q.child .left <;> rfl
            · rfl
        · rfl
    | variableDeclarator =>
      dsimp only
      cases q.child .init with
      | error f => rfl
      | ok o =>
        rw [ok_bind]
        change (if n.isNode o then _ else _) = _
        split
        · cases q.child .id <;> rfl
        · rfl
    | _ => rfl

lemma does_receive_none (source : Node) : Does (receive p site none source) s (.ok s.findings) := by
  refine Does.of_succ ?_
  simp only [receive]
  exact does_pure

variable (hidentifier : ∀ n, p.Has n → ∀ s' : Pass,
  s.findings.followed ⊆ s'.findings.followed → Does (bind p site n) s' (onIdentifier n s'.findings))
include hidentifier

/-- A walk down to what a pattern is without its defaults. -/
lemma does_receive {target : Option Node} (ht : ∀ t ∈ target, p.Has t) (source : Node) :
    Does (receive p site target source) s
      (RefObject.receive site onIdentifier target source s.findings) := by
  cases target with
  | none => exact does_receive_none source
  | some t =>
    -- Each default that is taken off leaves a smaller pattern.
    replace ht : p.Has t := ht t rfl
    induction t using Tree.induction with
    | step t ih =>
      refine Does.of_succ ?_
      simp only [receive]
      rw [RefObject.receive]
      by_cases hdefault : t.kind = .assignmentPattern
      · rw [hdefault, Node.withoutDefault_of_eq hdefault]
        dsimp only
        cases hl : t.child .left with
        | error f => exact does_throw f
        | ok l =>
          cases l with
          | none => exact does_receive_none source
          | some l => exact ih l (Shape.mem_children_of_child hl) (ht.child hl)
      · rw [Node.withoutDefault_of_ne hdefault, ok_bind]
        dsimp only
        revert hdefault
        generalize t.kind = kind
        intro hdefault
        cases kind with
        | assignmentPattern => exact absurd rfl hdefault
        | identifier => exact does_add_bind rfl (hidentifier t ht _ (List.Subset.refl _))
        | objectPattern => exact does_add_bind rfl (does_add rfl)
        | _ => exact does_pure

/-- A walk to the pattern that an expression is bound or assigned to, or else another one. -/
lemma does_rebind {w : Walk Unit} {x : Except Fault Findings} (hw : Does (fun _ => w) s x)
    (n : Node) : Does (fun d => do if ← rebind p site n d then return else w) s (do
      match ← rebinding? p n with
      | some target => RefObject.receive site onIdentifier target n s.findings
      | none => x) := by
  refine Does.of_succ ?_
  simp only [rebind_succ, bind_assoc]
  refine does_lift_bind fun o ho => ?_
  cases o with
  | none => exact hw
  | some target =>
    have hreceive := does_receive hidentifier (gives_rebinding? n _ ho target rfl) n
    have hrest := hreceive.bind (k := pure) fun s' _ => does_pure (s := s')
    rw [bind_pure] at hrest
    simp only [bind_assoc]
    exact hrest

lemma does_carry (member source : Node) : Does (carry p site member source) s
    (RefObject.carry p site onIdentifier member source s.findings) :=
  does_add_bind rfl
    (does_rebind (s := ⟨s.findings.derive source member, s.entered⟩) hidentifier (does_add rfl)
      member)

lemma does_occur (binding : Node) (r : Reference) : Does (occur p site binding r) s
    (RefObject.occur p site onIdentifier binding r s.findings) := by
  refine Does.of_succ ?_
  simp only [occur]
  rw [RefObject.occur]
  dsimp only
  split
  · exact does_pure
  refine does_unless_add_bind rfl ?_
  -- The findings with the step from the binding to the occurrence, unless they are the same.
  set f₁ := if r.identifier.id == binding.id then s.findings
    else s.findings.derive binding r.identifier with hf₁
  have hsame : f₁.followed = s.findings.followed := by
    rw [hf₁]
    split <;> rfl
  cases r.access.reads with
  | true =>
    refine does_rebind (s := ⟨f₁, s.entered⟩) (fun n hn s' hs' => ?_) (does_add rfl) r.identifier
    exact hidentifier n hn s' (hsame ▸ hs')
  | false => exact does_add (s := ⟨f₁, s.entered⟩) (g := (·.record _)) rfl

end Identifier

/-! ## One identifier after the other -/

section Identifiers

variable {p : Program} {site : Site} {s : Pass} {n : Node} {k : Nat}

/-- An identifier that has been followed is not entered again. -/
lemma does_bind_of_mem (h : n.id ∈ s.findings.followed) :
    Does (bind p site n) s (RefObject.bind p site k n s.findings) := by
  have hcontains : s.findings.followed.contains n.id := List.contains_iff_mem.2 h
  have hmodel : RefObject.bind p site k n s.findings = .ok s.findings := by
    cases k with
    | zero => rfl
    | succ k => rw [RefObject.bind, if_pos hcontains]
  rw [hmodel]
  refine ⟨.ok (), s, Unbounded.Ends.of_succ (Unbounded.ends_of_forall fun d => ?_), rfl, .refl _⟩
  rw [bind, Attempt.run_get_bind, if_pos hcontains]
  rfl

/-- As long as the budget suffices for the nodes that have not been followed, walking without a
budget does the same as following with it. -/
lemma does_bind (hn : p.Has n) (hbudget : Budget p s.findings k) :
    Does (bind p site n) s (RefObject.bind p site k n s.findings) := by
  induction k generalizing n s with
  | zero => exact does_bind_of_mem (hbudget.mem_followed hn)
  | succ k ih =>
    by_cases hfollowed : n.id ∈ s.findings.followed
    · exact does_bind_of_mem hfollowed
    have hcontains : ¬s.findings.followed.contains n.id :=
      fun hc => hfollowed (List.contains_iff_mem.1 hc)
    have hbudget' : Budget p (s.findings.follow n) k := hbudget.follow hn hfollowed
    have hoccurrences : Does (fun d => do (← p.occurrences n).forM fun r => occur p site n r d)
        ⟨s.findings.follow n, n.id :: s.entered⟩
        (p.occurrences n >>= fun rs => rs.foldlM
          (fun f r => RefObject.occur p site (RefObject.bind p site k) n r f)
          (s.findings.follow n)) := by
      refine does_lift_bind fun rs _ => does_forM fun r _ s' hs' => ?_
      refine does_occur (fun m hm s'' hs'' => ih hm ?_) n r
      exact hbudget'.extends (List.Subset.trans hs' hs'')
    obtain ⟨r, after, hends, hx, hext⟩ := hoccurrences
    rw [RefObject.bind, if_neg hcontains]
    refine ⟨r, after, Unbounded.Ends.of_succ (hends.congr fun d => ?_), hx,
      (Ledger.extends_cons hfollowed).trans hext⟩
    rw [bind, Attempt.run_get_bind, if_neg hcontains, Attempt.run_modify_bind]

end Identifiers

/-! ## Sites -/

section Sites

variable {p : Program} {s : Pass}

/-- A walk from an identifier of the program, whatever has been followed. -/
lemma does_bind_places (site : Site) {n : Node} (hn : p.Has n) :
    Does (bind p site n) s (RefObject.bind p site p.places.length n s.findings) :=
  does_bind hn (budget_initial p s.findings)

lemma does_spread (site : Site) {target : Option Node} (ht : ∀ t ∈ target, p.Has t) :
    Does (spread p site target) s
      (RefObject.spread p site (RefObject.bind p site p.places.length) target s.findings) := by
  obtain ⟨_, hends, -⟩ := (Property.Question.target (p := p) target).does_walk {}
  refine does_apart_bind hends fun found hfound => does_forM fun nest hnest s' _ => ?_
  have hin : nest.In p := (Property.found_in_ofPattern ht hfound).nest hnest
  cases nest with
  | expression member =>
    exact does_carry (fun n hn _ _ => does_bind_places site hn) member site.node
  | pattern t => exact does_receive (fun n hn _ _ => does_bind_places site hn) hin site.node

/-- A walk from a site. -/
lemma does_followSite (site : Site) :
    Does (followSite p site) s (RefObject.followSite p site s.findings) := by
  refine does_add_bind rfl (does_lift_bind fun o ho => ?_)
  cases o with
  | some target =>
    have ht := gives_destination? site.node _ ho target rfl
    dsimp only
    split
    · exact does_spread site ht
    · exact does_receive (fun n hn _ _ => does_bind_places site hn) ht site.node
  | none =>
    dsimp only
    split
    · exact does_pure
    · exact does_add rfl

/-- A walk from one site after the other. -/
lemma does_followAll (sites : Search Site) : Does (followAll p sites) s
    (sites.foldM (fun f site => RefObject.followSite p site f) s.findings) := by
  induction sites generalizing s with
  | done => exact does_pure
  | broken f => exact does_throw f
  | found site rest ih => exact (does_followSite site).bind fun s' _ => ih

end Sites

end Walk

/-- **Following values comes to an end.**  Whatever the program, and in whatever circles values are
handed on in it:

* one extractor of properties, whatever it remembers and has visited at first, answers any number of
  questions one after the other, as the extractor with a budget does, and goes through the reads of
  no variable twice for them, nor through those of a variable that was visited at first;
* the walks from any number of sites, whatever has been found before, come to an end, with the
  findings or the fault of those with a budget, and go through the occurrences of no identifier
  twice, nor through those of an identifier that was followed before.

`extract` is the case of all sites of the program, with nothing found before. -/
theorem following_ends (p : Program) :
    (∀ (m : Property.Memo) (qs : List (Property.Question p)), ∃ answers after,
      Unbounded.Ends (Property.Question.walkAll qs) { memo := m } (.ok answers) after ∧
      (Property.Question.askAll qs).run m = (answers, after.memo) ∧
      after.entered.Nodup ∧ ∀ v ∈ after.entered, v ∉ m.visited) ∧
    ∀ (f : Findings) (sites : Search Site), ∃ (r : Except Fault Unit) (after : Pass),
      Unbounded.Ends (Walk.followAll p sites) { findings := f } r after ∧
      sites.foldM (fun f site => followSite p site f) f = (r.map fun _ => after.findings) ∧
      after.entered.Nodup ∧ ∀ i ∈ after.entered, i ∉ f.followed := by
  refine ⟨fun m qs => ?_, fun f sites => ?_⟩
  · obtain ⟨after, hends, hmemo, hext⟩ := Property.Question.ends_walkAll qs { memo := m }
    exact ⟨_, after, hends, Prod.ext rfl hmemo.symm, hext.entered_once rfl⟩
  · obtain ⟨r, after, hends, hx, hext⟩ :=
      Walk.does_followAll (p := p) (s := { findings := f }) sites
    exact ⟨r, after, hends, hx.symm, hext.entered_once rfl⟩

end RefObject

end RefFlow
