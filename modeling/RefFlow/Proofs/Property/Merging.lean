import RefFlow.Proofs.Property.Aliases
import RefFlow.Proofs.Session
import RefFlow.Proofs.Table

/-!
# Merging what is found

What is found in several places is merged into one result, and results that are merged may be merged
again.  Such a result has another form each time, but all that is ever asked of it are three things:
whether the reads can be known at all, which nodes read which property, and where the values of a
property go.  Two results that answer these alike are the `Same`, and up to this merging is a monoid
with an absorbing element (`merge_forms_monoid`).

## What a merged result answers

`Comprises` says it part by part: the tables of the parts are united, and where the values go is
listed for one part after the other.  The two are computed apart from each other, and nothing makes
them agree but that both follow the reads of the parts in their order.  So the laws are shown for
the reads, where nothing is left of the form (`reads_merged`).

## Results of a session

Earlier results stay what they are, whatever is asked afterwards (`earlier_after`), and all results
are obtained from the program (`obtained_after`).  For these, the places where the values of a
property go are, one by one, those of the nodes that are listed under its name (`Agrees`).
-/

namespace RefFlow

open Fallible

namespace Found

variable {p : Program} {f g : Found} {fs gs : List Found}

/-- The results answer everything alike. -/
structure Same (f g : Found) : Prop where
  isAny : f.isAny = g.isAny
  /-- The names and the nodes under a name are in the same order, too. -/
  properties : f.properties = g.properties
  nests : ∀ name, f.nests name = g.nests name

lemma same_of_reads (hany : f.isAny = g.isAny) (hreads : f.reads = g.reads) : Same f g where
  isAny := hany
  properties := by rw [properties, hreads, properties]
  nests name := by rw [nests, hreads, nests]

/-! ## What a merged result answers -/

/-- The reads as entries of a table, one for each. -/
def entries (f : Found) : Table String (List Node) := f.reads.map fun r => (r.name, [r.node])

lemma properties_eq_union (f : Found) : f.properties = Table.union [] f.entries := by
  rw [Table.union, entries, List.foldl_map]
  rfl

/-- Uniting a table with the properties of a result means to add one read after the other. -/
lemma union_properties (t : Table String (List Node)) (f : Found) :
    t.union f.properties = t.union f.entries := by
  rw [properties_eq_union, Table.union_assoc (r := []) List.nodup_nil]
  rfl

/-- The properties of several results, taken together. -/
def united (fs : List Found) : Table String (List Node) :=
  fs.foldl (fun t f => t.union f.properties) []

lemma united_eq_union (fs : List Found) : united fs = Table.union [] (fs.flatMap entries) := by
  rw [united]
  generalize ([] : Table String (List Node)) = t
  induction fs generalizing t with
  | nil => rfl
  | cons f fs ih =>
    rw [List.foldl_cons, ih, union_properties, List.flatMap_cons]
    exact (List.foldl_append ..).symm

/-- The result answers what the parts answer, taken together. -/
structure Comprises (f : Found) (fs : List Found) : Prop where
  isAny : f.isAny = fs.any Found.isAny
  properties : f.properties = if fs.any Found.isAny then [] else united fs
  nests : ∀ name, f.nests name = if fs.any Found.isAny then [] else fs.flatMap (·.nests name)

lemma isAny_merge_eq (fs : List Found) : (merge fs).isAny = fs.any isAny := by
  rw [Bool.eq_iff_iff, isAny_merge, List.any_eq_true]

lemma merge_of_any (h : fs.any isAny = true) : merge fs = any := by
  rw [← isAny_merge_eq] at h
  cases hmerge : merge fs with
  | any => rfl
  | _ => rw [hmerge] at h; cases h

lemma comprises_merge (fs : List Found) : (merge fs).Comprises fs := by
  by_cases hany : fs.any isAny = true
  · rw [merge_of_any hany]
    exact ⟨hany.symm, (if_pos hany).symm, fun name => (if_pos hany).symm⟩
  · have hmerge : (merge fs).isAny = false := by rwa [isAny_merge_eq, ← Bool.not_eq_true]
    have hreads := reads_merge hmerge
    refine ⟨isAny_merge_eq fs, ?_, fun name => ?_⟩
    · rw [if_neg hany, properties_eq_union, united_eq_union, entries, hreads, List.map_flatMap]
      rfl
    · rw [if_neg hany, nests, hreads, List.filter_flatMap, List.map_flatMap]
      rfl

/-- Results that comprise parts which answer alike answer alike. -/
lemma Comprises.same (hf : f.Comprises fs) (hg : g.Comprises gs) (h : List.Forall₂ Same fs gs) :
    Same f g := by
  have hany : fs.any Found.isAny = gs.any Found.isAny := by
    clear hf hg
    induction h with
    | nil => rfl
    | cons hsame _ ih => rw [List.any_cons, List.any_cons, hsame.isAny, ih]
  have hunited : united fs = united gs := by
    clear hf hg hany
    rw [united, united]
    generalize ([] : Table String (List Node)) = t
    induction h generalizing t with
    | nil => rfl
    | cons hsame _ ih => rw [List.foldl_cons, List.foldl_cons, hsame.properties, ih]
  have hnests : ∀ name, fs.flatMap (·.nests name) = gs.flatMap (·.nests name) := by
    clear hf hg hany hunited
    intro name
    induction h with
    | nil => rfl
    | cons hsame _ ih => rw [List.flatMap_cons, List.flatMap_cons, hsame.nests, ih]
  refine ⟨?_, ?_, fun name => ?_⟩
  · rw [hf.isAny, hg.isAny, hany]
  · rw [hf.properties, hg.properties, hany, hunited]
  · rw [hf.nests, hg.nests, hany, hnests]

/-! ## Groups of results -/

/-- Results in groups, which may again be in groups. -/
inductive Grouping where
  | single (f : Found)
  | group (gs : List Grouping)

namespace Grouping

mutual

/-- Each group is merged, the groups in it first. -/
def merged : Grouping → Found
  | single f => f
  | group gs => .merge (mergedAll gs)

/-- `merged` on a list. -/
def mergedAll : List Grouping → List Found
  | [] => []
  | g :: gs => merged g :: mergedAll gs

end

mutual

/-- The results in all groups, in order. -/
def parts : Grouping → List Found
  | single f => [f]
  | group gs => partsAll gs

/-- `parts` on a list. -/
def partsAll : List Grouping → List Found
  | [] => []
  | g :: gs => parts g ++ partsAll gs

end

mutual

lemma isAny_merged : ∀ g : Grouping, g.merged.isAny = g.parts.any Found.isAny
  | single f => by simp [merged, parts]
  | group gs => by rw [merged, isAny_merge_eq, any_mergedAll gs, parts]

/-- `isAny_merged` on a list. -/
lemma any_mergedAll : ∀ gs : List Grouping,
    (mergedAll gs).any Found.isAny = (partsAll gs).any Found.isAny
  | [] => rfl
  | g :: gs => by
    rw [mergedAll, partsAll, List.any_cons, List.any_append, isAny_merged g, any_mergedAll gs]

end

mutual

/-- Merging groups changes neither the reads nor their order. -/
lemma reads_merged : ∀ g : Grouping, g.merged.isAny = false →
    g.merged.reads = g.parts.flatMap reads
  | single f, _ => by simp [merged, parts]
  | group gs, h => by
    have hall : (mergedAll gs).any Found.isAny = false := by rwa [merged, isAny_merge_eq] at h
    rw [merged] at h ⊢
    rw [reads_merge h, reads_mergedAll gs hall, parts]

/-- `reads_merged` on a list. -/
lemma reads_mergedAll : ∀ gs : List Grouping, (mergedAll gs).any Found.isAny = false →
    (mergedAll gs).flatMap reads = (partsAll gs).flatMap reads
  | [], _ => rfl
  | g :: gs, h => by
    rw [mergedAll, List.any_cons, Bool.or_eq_false_iff] at h
    rw [mergedAll, partsAll, List.flatMap_cons, List.flatMap_append, reads_merged g h.1,
      reads_mergedAll gs h.2]

end

/-- In whatever groups results are merged, it is as if they were merged at once. -/
lemma same_merge_parts (g : Grouping) : Same g.merged (.merge g.parts) := by
  have hany : g.merged.isAny = (Found.merge g.parts).isAny := by
    rw [isAny_merged, isAny_merge_eq]
  refine same_of_reads hany ?_
  cases hknown : g.merged.isAny with
  | true => rw [reads_of_isAny hknown, reads_of_isAny (hany.symm.trans hknown)]
  | false => rw [reads_merged g hknown, reads_merge (hany.symm.trans hknown)]

end Grouping

/-! ## Nodes and places -/

/-- The places where the values of a property go are, one by one and in the same order, those of the
nodes that are listed under its name. -/
def Agrees (p : Program) (f : Found) : Prop :=
  ∀ name, List.Forall₂ (fun n nest => PropertyRead.Made p ⟨name, n, nest⟩)
      ((f.properties.get? name).getD []) (f.nests name) ∧
    (name ∉ f.properties.keys → f.nests name = [])

lemma Obtained.agrees (h : f.Obtained p) : f.Agrees p := by
  intro name
  have hnodes : (f.properties.get? name).getD [] =
      (f.reads.filter (·.name == name)).map (·.node) := by
    rw [get?_properties]
    split
    · rename_i hempty
      rw [List.isEmpty_iff.1 hempty]
      rfl
    · rfl
  constructor
  · rw [hnodes, nests, List.forall₂_map_left_iff, List.forall₂_map_right_iff, List.forall₂_same]
    intro r hr
    obtain ⟨hmem, hname⟩ := List.mem_filter.1 hr
    rw [← beq_iff_eq.1 hname]
    exact h.made r hmem
  · intro hname
    have hnone : f.properties.get? name = none := by
      rw [← Option.not_isSome_iff_eq_none]
      exact fun hhas => hname (Table.has_iff_mem_keys.1 hhas)
    rw [hnone, Option.getD_none, eq_comm, List.map_eq_nil_iff] at hnodes
    rw [nests, hnodes, List.map_nil]

end Found

/-! ## Results of a session -/

/-- If the answer is a result, it was obtained from the program. -/
def Answer.Obtained (p : Program) (a : Answer) : Prop := ∀ f, a = .properties f → f.Obtained p

namespace Session

variable {p : Program} {s : Session} {q : Query}

/-- The session after some more questions. -/
def after (s : Session) (qs : List Query) : Session := qs.foldl (fun s q => (s.ask q).2) s

lemma after_append (s : Session) (qs rs : List Query) :
    s.after (qs ++ rs) = (s.after qs).after rs := List.foldl_append

/-! ### Earlier results -/

lemma found_reply (s : Session) (q : Query) : (s.reply q).2.found = s.found := by
  cases q with
  | patternProperties node =>
    cases node with
    | none => rfl
    | some n =>
      unfold reply
      dsimp only
      split <;> rfl
  | expressionProperties n =>
    unfold reply
    dsimp only
    split <;> rfl
  | _ => rfl

/-- Each question adds one place to the results, and changes none. -/
lemma found_ask (s : Session) (q : Query) : s.found <+: (s.ask q).2.found := by
  rw [← found_reply s q]
  exact List.prefix_append _ _

lemma found_after (s : Session) (qs : List Query) : s.found <+: (s.after qs).found := by
  induction qs generalizing s with
  | nil => exact List.prefix_refl _
  | cons q qs ih => exact (found_ask s q).trans (ih (s.ask q).2)

/-- Whatever is asked, earlier results stay what they are. -/
lemma earlier_after {n : Nat} (h : n < s.found.length) (qs : List Query) :
    (s.after qs).earlier n = s.earlier n := by
  obtain ⟨more, hmore⟩ := found_after s qs
  rw [earlier, ← hmore, List.getElem?_append_left h, earlier]

lemma ask_nests (s : Session) (n : Nat) (name : String) : (s.ask (.nests n name)).1 = do
    return .nests ((← s.earlier n).nests name) := rfl

lemma ask_mergeProperties (s : Session) (ns : List Nat) : (s.ask (.mergeProperties ns)).1 = do
    return .properties (.merge (← ns.mapM s.earlier)) := rfl

/-! ### Obtained results -/

lemma obtained_orNothing {α : Type} {k : α → Answer} (h : ∀ a, Answer.Obtained p (k a))
    (o : Option α) : Answer.Obtained p (orNothing k o) := by
  cases o with
  | none => exact nofun
  | some a => exact h a

/-- All results that the session holds or remembers were obtained from the program. -/
structure Sound (p : Program) (s : Session) : Prop where
  program : s.program = p
  memo : s.memo.Obtained p
  found : ∀ f, some f ∈ s.found → f.Obtained p

lemma sound_fresh (p : Program) : Sound p (fresh p) := ⟨rfl, ⟨nofun, nofun⟩, nofun⟩

lemma Sound.gives_earlier (h : Sound p s) (n : Nat) : Gives (s.earlier n) (Found.Obtained p) := by
  unfold earlier
  split
  · rename_i f hf
    exact gives_ok (h.found f (List.mem_of_getElem? hf))
  · exact gives_throw

/-- Questions that change nothing are not answered by results, unless these are merged. -/
lemma Sound.gives_answer (h : Sound p s) (q : Query) : Gives (s.answer q) (Answer.Obtained p) := by
  cases q with
  | mergeProperties ns =>
    refine (gives_mapM fun n _ => h.gives_earlier n).bind fun fs hfs => gives_pure ?_
    rintro f hf
    cases hf
    exact .merge hfs
  | findName => exact gives_true.bind fun _ _ => gives_pure (obtained_orNothing nofun _)
  | findNode | staticName =>
    refine gives_true.bind fun _ _ => gives_true.bind fun _ _ => gives_pure ?_
    exact obtained_orNothing nofun _
  | acquire => exact gives_ok (obtained_orNothing nofun _)
  | innermost | identifiers | isEscaped | describe | describeScope =>
    exact gives_true.bind fun _ _ => gives_true.bind fun _ _ => gives_pure nofun
  | text | isModified | factories | macros | escapeCalls | nests =>
    exact gives_true.bind fun _ _ => gives_pure nofun
  | _ => exact gives_ok nofun

lemma gives_node (s : Session) (n : Nat) : Gives (s.node n) s.program.Has := by
  unfold node
  split
  · rename_i place hplace
    exact gives_ok (Program.has_of_mem_places (List.mem_of_getElem? hplace))
  · exact gives_throw

lemma Sound.askProperties (h : Sound p s) {x : Property.Extractor Found}
    (hx : Property.Yields p x (Found.Obtained p)) :
    Sound p (s.askProperties x).2 ∧ Gives (s.askProperties x).1 (Answer.Obtained p) := by
  obtain ⟨hmemo, hresult⟩ := hx s.memo h.memo
  refine ⟨⟨h.program, hmemo, h.found⟩, hresult.map fun f hf g hg => ?_⟩
  cases hg
  exact hf

/-- The reply to a question is obtained from the program, and so is all that is remembered after
it, also if it fails. -/
lemma Sound.reply (h : Sound p s) (q : Query) :
    Sound p (s.reply q).2 ∧ Gives (s.reply q).1 (Answer.Obtained p) := by
  obtain rfl := h.program
  have hanswer := h.gives_answer q
  cases q with
  | refRecord | reactiveRecord =>
    exact ⟨⟨rfl, h.memo, h.found⟩, gives_true.map fun _ _ => obtained_orNothing nofun _⟩
  | refHas | refChain | refDerivation | refCount | reactiveHas | reactiveCount =>
    exact ⟨⟨rfl, h.memo, h.found⟩, gives_true.map fun _ _ => nofun⟩
  | newExtractor => exact ⟨⟨rfl, ⟨nofun, nofun⟩, h.found⟩, gives_ok nofun⟩
  | patternProperties n =>
    cases n with
    | none => exact h.askProperties (Property.yields_ofPattern nofun)
    | some n =>
      unfold Session.reply
      dsimp only
      split
      · rename_i t ht
        refine h.askProperties (Property.yields_ofPattern ?_)
        rintro m ⟨⟩
        exact s.gives_node n t ht
      · exact ⟨h, gives_throw⟩
  | expressionProperties n =>
    unfold Session.reply
    dsimp only
    split
    · rename_i e he
      exact h.askProperties (Property.yields_ofExpression (s.gives_node n e he))
    · exact ⟨h, gives_throw⟩
  | _ => exact ⟨h, hanswer⟩

lemma Sound.ask (h : Sound p s) (q : Query) : Sound p (s.ask q).2 := by
  obtain ⟨hs, ha⟩ := h.reply q
  refine ⟨hs.program, hs.memo, fun f hf => ?_⟩
  rcases List.mem_append.1 hf with hf | hf
  · exact hs.found f hf
  · split at hf
    · rename_i g hg
      obtain rfl : f = g := by simpa using hf
      exact ha _ hg f rfl
    · simp at hf

lemma Sound.after (h : Sound p s) (qs : List Query) : Sound p (s.after qs) := by
  induction qs generalizing s with
  | nil => exact h
  | cons q qs ih => exact ih (h.ask q)

/-- All results of a session were obtained from its program. -/
lemma obtained_after (p : Program) (qs : List Query) {f : Found}
    (h : some f ∈ ((fresh p).after qs).found) : f.Obtained p :=
  ((sound_fresh p).after qs).found f h

end Session

/-! ## The laws -/

namespace Found

/-- **Merging is a monoid.**  A merged result answers what its parts answer, taken together.  So it
makes no difference in what groups results are merged, nor in what form the parts are as long as
they answer alike; a part of which nothing is read can be left out anywhere, a result by itself is
not changed, and a part whose reads cannot be known makes the reads of the whole unknown.  Merging
changes no result that there is already: whatever a session merges and is asked after that, it
answers as before what it is asked about an earlier result.  This holds because results are values,
so that a session can only add to the list of them.  All results of a session are obtained from the
program, and in a result that is, the nodes that are listed under a name and the places where the
values go are in step. -/
theorem merge_forms_monoid :
    (∀ fs, (merge fs).Comprises fs) ∧
    (∀ g : Grouping, g.merged.Same (merge g.parts)) ∧
    (∀ fs gs, List.Forall₂ Same fs gs → (merge fs).Same (merge gs)) ∧
    (∀ fs gs, merge (fs ++ never :: gs) = merge (fs ++ gs)) ∧
    (∀ f, merge [f] = f) ∧
    (∀ fs gs, merge (fs ++ any :: gs) = any) ∧
    (∀ (s : Session) (ns : List Nat) (qs : List Query) (n : Nat), n < s.found.length →
      let t := s.after (.mergeProperties ns :: qs)
      (t.ask (.mergeProperties [n])).1 = (s.ask (.mergeProperties [n])).1 ∧
        ∀ name, (t.ask (.nests n name)).1 = (s.ask (.nests n name)).1) ∧
    ∀ p, (∀ qs f, some f ∈ ((Session.fresh p).after qs).found → f.Obtained p) ∧
      ∀ f : Found, f.Obtained p → f.Agrees p := by
  refine ⟨comprises_merge, Grouping.same_merge_parts, ?_, ?_, ?_, ?_, ?_, ?_⟩
  · exact fun fs gs => (comprises_merge fs).same (comprises_merge gs)
  · intro fs gs
    simp [merge, isNever]
  · intro f
    cases f <;> simp [merge, isNever, isAny]
  · intro fs gs
    exact merge_of_any (by simp [isAny])
  · intro s ns qs n hn
    have hearlier := Session.earlier_after hn (.mergeProperties ns :: qs)
    constructor
    · rw [Session.ask_mergeProperties, Session.ask_mergeProperties, List.mapM_cons, List.mapM_cons,
        hearlier, List.mapM_nil, List.mapM_nil]
    · intro name
      rw [Session.ask_nests, Session.ask_nests, hearlier]
  · exact fun p => ⟨fun qs f => Session.obtained_after p qs, fun f => Obtained.agrees⟩

/-- The program `const {a,b}=s;t.a`. -/
def sharedName : Except Fault Program :=
  Program.analyze ⟨"const {a,b}=s;t.a".toUTF8.toList⟩ {} <|
    .node "program" none 0 17
      [.node "lexical_declaration" none 0 14
        [.token "const" (some "kind") 0 5,
         .node "variable_declarator" none 6 13
          [.node "object_pattern" (some "name") 6 11
            [.node "shorthand_property_identifier_pattern" none 7 8 [],
             .node "shorthand_property_identifier_pattern" none 9 10 []],
           .identifier (some "value") 12 13]],
       .node "expression_statement" none 14 17
        [.node "member_expression" none 14 17
          [.identifier (some "object") 14 15,
           .node "property_identifier" (some "property") 16 17 []]]]

/-- A session is asked for the properties of the pattern, of `t` and of nothing, and merges them
with those of the pattern once more.  The name that pattern and member share comes first and has
three nodes, and what the pattern gave by itself is still there. -/
theorem merge_sharedName : ∃ p f g, sharedName = .ok p ∧
    let asked : List Query := [.patternProperties (some 3), .expressionProperties 13,
      .patternProperties none]
    let s := (Session.fresh p).after asked
    let t := s.after [.mergeProperties [0, 1, 2, 0], .newExtractor]
    s.found[0]? = some (some f) ∧ t.found[3]? = some (some g) ∧
      f.properties.keys = ["a", "b"] ∧ g.properties.keys = ["a", "b"] ∧
      (g.nests "a").length = 3 ∧ g.Agrees p ∧ Same (merged [f, never]) f ∧
      Same (merge [merged [f, never], g]) (merge [f, g]) ∧
      (t.ask (.nests 0 "a")).1 = (s.ask (.nests 0 "a")).1 := by
  have hall : sharedName.toOption.any fun p =>
      let s := (Session.fresh p).after [.patternProperties (some 3), .expressionProperties 13,
        .patternProperties none]
      let t := s.after [.mergeProperties [0, 1, 2, 0], .newExtractor]
      s.found[0]?.any fun o => o.any fun f => f.properties.keys == ["a", "b"] && !f.isAny &&
        t.found[3]?.any fun o => o.any fun g => g.properties.keys == ["a", "b"] &&
          (g.nests "a").length == 3 := by decide +kernel
  obtain ⟨p, hp, hall⟩ := exists_ok_of_any hall
  obtain ⟨_, hf, hall⟩ := (Option.any_eq_true _ _).1 hall
  obtain ⟨f, rfl, hall⟩ := (Option.any_eq_true _ _).1 hall
  obtain ⟨hfound, hall⟩ := Bool.and_eq_true_iff.1 hall
  obtain ⟨hfkeys, hknown⟩ := Bool.and_eq_true_iff.1 hfound
  obtain ⟨_, hg, hall⟩ := (Option.any_eq_true _ _).1 hall
  obtain ⟨g, rfl, hall⟩ := (Option.any_eq_true _ _).1 hall
  obtain ⟨hgkeys, hlength⟩ := Bool.and_eq_true_iff.1 hall
  obtain ⟨-, -, hcongr, -, -, -, hunchanged, hobtained⟩ := merge_forms_monoid
  have hknown : f.isAny = false := by simpa using hknown
  have hsame : Same (merged [f, never]) f :=
    same_of_reads hknown.symm (by simp [reads, readsAll])
  have hsome : 0 < List.length _ := (List.getElem?_eq_some_iff.1 hf).1
  refine ⟨p, f, g, hp, hf, hg, beq_iff_eq.1 hfkeys, beq_iff_eq.1 hgkeys, beq_iff_eq.1 hlength, ?_,
    hsame, ?_, ?_⟩
  · have hmem := List.mem_of_getElem? hg
    rw [← Session.after_append] at hmem
    exact (hobtained p).2 g ((hobtained p).1 _ g hmem)
  · exact hcongr _ _ (.cons hsame (.cons ⟨rfl, rfl, fun _ => rfl⟩ .nil))
  · exact (hunchanged _ [0, 1, 2, 0] [.newExtractor] 0 hsome).2 "a"

end Found

end RefFlow
