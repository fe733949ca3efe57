import RefFlow.Proofs.RefObject.Walk

/-!
# The records are the references to ref objects

The walk records exactly the nodes that the rules of `RefObject.Flow` make references: none is
missing although an identifier is followed only once, whichever site comes to it first, and none is
there without a site whose object reaches it (`record_iff_recorded`).

That none is missing is an induction along the rules.  In the end everything that was begun is dealt
with, so each rule leads from a stand that is dealt with to another one (`settled_of_reaches`).
-/

namespace RefFlow.RefObject

open Fallible

variable {p : Program} {f : Findings} {s : Site}

/-- The stand is dealt with. -/
def Stand.Settled (p : Program) (f : Findings) : Stand → Prop
  | .target t => TargetSettled f t
  | .occurrence r => OccurrenceSettled p f r
  | .member m => MemberSettled p f m

/-- If all that was begun is dealt with, so is whatever an object reaches. -/
lemma settled_of_reaches (hs : IsSite p s) (hsite : SiteSettled p f s)
    (hall : ∀ i ∈ f.followed, Settled p f i) {x : Stand} (h : Reaches p s x) : x.Settled p f := by
  induction h with
  | bound single destination => exact (hsite.1 single).1 _ destination
  | spreadPattern spreads destination nest => exact hsite.2 spreads _ _ destination nest _ rfl
  | spreadMember spreads destination nest => exact hsite.2 spreads _ _ destination nest
  | default _ isDefault left ih => exact fun c hc => ih c (.left isDefault left hc)
  | @occurrence b v r received isIdentifier means reference isUse ih =>
    have hplain : b.kind ≠ .assignmentPattern := by
      rw [isIdentifier]
      decide
    have hfollowed : b.id ∈ f.followed := (ih b (.self hplain)).1 isIdentifier
    exact hall b.id hfollowed b v r (received.standIn hs.has) rfl means reference isUse
  | reboundOccurrence _ reads rebinds ih => exact ih.1 _ reads rebinds
  | reboundMember _ rebinds ih => exact ih.1 _ rebinds

/-- If all that was begun is dealt with, every reference has a record. -/
lemma records_of_recorded (hs : IsSite p s) (hsite : SiteSettled p f s)
    (hall : ∀ i ∈ f.followed, Settled p f i) {n : Node} (h : Recorded p s n) : f.Records n := by
  cases h with
  | call single unbound => exact (hsite.1 single).2 unbound
  | pattern received isPattern =>
    have hplain : n.kind ≠ .assignmentPattern := by
      rw [isPattern]
      decide
    exact (settled_of_reaches hs hsite hall received n (.self hplain)).2 isPattern
  | occurrence occurs unbound => exact (settled_of_reaches hs hsite hall occurs).2 unbound
  | member carries unbound => exact (settled_of_reaches hs hsite hall carries).2 unbound

/-- **The records are the references to ref objects.**  If all references to ref objects can be
extracted from a program, a node has a record exactly if the rules make it a reference to the object
of one of the sites. -/
theorem record_iff_recorded (h : extract p = .ok f) (n : Node) :
    (∃ r, f.get? n.id = some r ∧ r.node = n) ↔ ∃ s, IsSite p s ∧ Recorded p s n := by
  obtain ⟨hsound, hall, hsites⟩ := extract_settled h
  constructor
  · rintro ⟨r, hr, rfl⟩
    obtain ⟨-, hs, hrec, -⟩ := hsound.record _ r hr
    exact ⟨r.site, hs, hrec⟩
  · rintro ⟨s, hs, hrec⟩
    have hhas : (f.get? n.id).isSome := records_of_recorded hs (hsites s hs) hall hrec
    obtain ⟨r, hr⟩ := Option.isSome_iff_exists.1 hhas
    obtain ⟨hid, hrs, hrrec, -⟩ := hsound.record _ r hr
    exact ⟨r, hr, (hrrec.has hrs.has).eq_of_id_eq (hrec.has hs.has) hid⟩

/-! ## A circle of variables -/

/-- The text `import {ref} from 'vue';let a=ref(),b=a;a=b`, in which two variables are assigned to
each other. -/
def circleSource : Source := ⟨"import {ref} from 'vue';let a=ref(),b=a;a=b".toUTF8.toList⟩

/-- The concrete tree of the text. -/
def circleTree : Concrete Unit :=
  .node "program" none 0 43
    [.node "import_statement" none 0 24
      [.node "import_clause" none 7 12
        [.node "named_imports" none 7 12
          [.node "import_specifier" none 8 11 [.identifier (some "name") 8 11]]],
       .node "string" (some "source") 18 23 []],
     .node "lexical_declaration" none 24 40
      [.token "let" (some "kind") 24 27,
       .node "variable_declarator" none 28 35
        [.identifier (some "name") 28 29,
         .node "call_expression" (some "value") 30 35
          [.identifier (some "function") 30 33, .node "arguments" (some "arguments") 33 35 []]],
       .node "variable_declarator" none 36 39
        [.identifier (some "name") 36 37, .identifier (some "value") 38 39]],
     .node "expression_statement" none 40 43
      [.node "assignment_expression" none 40 43
        [.identifier (some "left") 40 41, .identifier (some "right") 42 43]]]

/-- The analysed program. -/
def circle : Except Fault Program := Program.analyze circleSource {} circleTree

/-- In the circle the assigned `a` has a record, and is a reference to the object. -/
theorem record_circle : ∃ p f n, circle = .ok p ∧ extract p = .ok f ∧ n.id = 16 ∧
    f.Records n ∧ ∃ s, IsSite p s ∧ Recorded p s n := by
  have hall : circle.toOption.any fun p => (extract p).toOption.any fun f =>
      (f.get? 16).any fun r => r.node.id == 16 := by decide +kernel
  obtain ⟨p, hp, hall⟩ := exists_ok_of_any hall
  obtain ⟨f, hf, hall⟩ := exists_ok_of_any hall
  obtain ⟨r, hr, hid⟩ := (Option.any_eq_true _ _).1 hall
  rw [← beq_iff_eq.1 hid] at hr
  have hrecorded := (record_iff_recorded hf r.node).1 ⟨r, hr, rfl⟩
  exact ⟨p, f, r.node, hp, hf, beq_iff_eq.1 hid, Option.isSome_of_eq_some hr, hrecorded⟩

end RefFlow.RefObject
