import RefFlow.Proofs.Scope.WellFormed

/-!
# Names that are known to be there

A program may be analysed with different lists of names that are known to be there without a
declaration.  These names are declared in the global scope before anything else happens, and have no
definitions there.  This module compares two analyses of a program that differ in nothing else.

Up to the end, the global scope is open and nothing is resolved to it, so the two analyses run
abreast: their states differ only in what the global scope declares without a definition
(`Analysis.abreast_run`).  When the global scope closes, references are resolved in the one analysis
and left over in the other one.  The finished graphs are still alike in everything else
(`Graph.Alike`), and hence a name means the same in both, unless it means something without a
definition (`Nearest.alike`).
-/

namespace RefFlow

open Fallible

/-! ## Scopes that agree on definitions -/

namespace Scope

/-- The definitions of a name.  A name that is not declared has none. -/
def definitionsOf (s : Scope) (name : String) : List Definition :=
  ((s.find? name).map (·.definitions)).getD []

variable {s t : Scope}

lemma definitionsOf_declare (hs : s.Coherent) (key : String) :
    (s.declare key).definitionsOf = s.definitionsOf := by
  funext name
  unfold declare
  split
  · rfl
  · rename_i hnew
    unfold definitionsOf find?
    dsimp only
    rw [Table.get?_set]
    by_cases hkey : key = name
    · subst hkey
      have hnone : s.find? key = none := Option.not_isSome_iff_eq_none.1 hnew
      unfold find? at hnone
      rw [hnone]
      simp
    · rw [if_neg (by simpa using hkey)]
      cases hk : s.table.get? name with
      | none => rfl
      | some k =>
        obtain ⟨v, hv, -⟩ := (hs.table name k).1 hk
        simp [getElem?_append_left_of_some hv, hv]

lemma definitionsOf_define (hs : s.Coherent) (d : Definition) (name : String) :
    (s.define d).definitionsOf name =
      s.definitionsOf name ++ if d.name = name then [d] else [] := by
  have hdeclare := hs.declare d.name
  rw [← definitionsOf_declare hs d.name]
  unfold define definitionsOf
  rw [hdeclare.find?_modifyVariable]
  cases hv : (s.declare d.name).find? name with
  | none =>
    have hne : d.name ≠ name := by
      rintro rfl
      have hsome := s.declares_declare d.name
      rw [declares, hv] at hsome
      cases hsome
    simp [hne]
  | some v =>
    have hname : v.name = name := (hdeclare.find?_eq_some_iff.1 hv).2
    by_cases hd : d.name = name
    · simp [hd, hname, Variable.define]
    · simp [hd, hname, Ne.symm hd]

lemma definitionsOf_of_uses (s : Scope) (key : String) (rs : List Nat) :
    (s.modifyVariable key fun v => { v with references := v.references ++ rs }).definitionsOf =
      s.definitionsOf := by
  funext name
  unfold definitionsOf find? modifyVariable
  dsimp only
  cases s.table.get? name with
  | none => rfl
  | some k =>
    split
    · simp only [Option.bind_eq_bind, Option.bind_some, List.getElem?_modify]
      split <;> cases s.declared[k]? <;> rfl
    · rfl

/-- The scopes are coherent, differ only in what they declare, and have the same definitions. -/
structure Agrees (s t : Scope) : Prop where
  coherent : s.Coherent ∧ t.Coherent
  same : ∃ vs table, t = { s with declared := vs, table := table }
  definitions : s.definitionsOf = t.definitionsOf

lemma Agrees.refl (hs : s.Coherent) : s.Agrees s := ⟨⟨hs, hs⟩, ⟨s.declared, s.table, rfl⟩, rfl⟩

lemma Agrees.symm (h : s.Agrees t) : t.Agrees s := by
  refine ⟨h.coherent.symm, ?_, h.definitions.symm⟩
  obtain ⟨vs, table, rfl⟩ := h.same
  exact ⟨s.declared, s.table, rfl⟩

/-- A change that leaves alone what is declared, and does not depend on it. -/
lemma Agrees.congr (h : s.Agrees t) {f : Scope → Scope}
    (hf : ∀ s, (f s).declared = s.declared ∧ (f s).table = s.table)
    (hrest : ∀ (s : Scope) vs table, f { s with declared := vs, table := table } =
      { f s with declared := vs, table := table }) : (f s).Agrees (f t) := by
  have hsame : ∀ s, (f s).definitionsOf = s.definitionsOf := by
    intro s
    funext name
    rw [definitionsOf, find?, (hf s).1, (hf s).2]
    rfl
  obtain ⟨hs, ht⟩ := h.coherent
  refine ⟨⟨hs.congr (hf s).1 (hf s).2, ht.congr (hf t).1 (hf t).2⟩, ?_, ?_⟩
  · obtain ⟨vs, table, rfl⟩ := h.same
    exact ⟨vs, table, hrest s vs table⟩
  · rw [hsame, hsame, h.definitions]

lemma exists_declare (s : Scope) (name : String) :
    ∃ vs table, s.declare name = { s with declared := vs, table := table } := by
  unfold Scope.declare
  split
  · exact ⟨s.declared, s.table, rfl⟩
  · exact ⟨_, _, rfl⟩

lemma Agrees.declare (h : s.Agrees t) (name : String) :
    (s.declare name).Agrees (t.declare name) := by
  obtain ⟨hs, ht⟩ := h.coherent
  refine ⟨⟨hs.declare name, ht.declare name⟩, ?_, ?_⟩
  · obtain ⟨vs, table, rfl⟩ := h.same
    obtain ⟨us, table', hs'⟩ := s.exists_declare name
    obtain ⟨us', table'', ht'⟩ := exists_declare { s with declared := vs, table := table } name
    exact ⟨us', table'', by rw [hs', ht']⟩
  · rw [definitionsOf_declare hs, definitionsOf_declare ht, h.definitions]

lemma Agrees.define (h : s.Agrees t) (d : Definition) : (s.define d).Agrees (t.define d) := by
  obtain ⟨hs, ht⟩ := h.coherent
  refine ⟨⟨hs.define d, ht.define d⟩, ?_, ?_⟩
  · obtain ⟨vs, table, hsame⟩ := (h.declare d.name).same
    exact ⟨_, _, by unfold Scope.define; rw [hsame]; rfl⟩
  · funext name
    rw [definitionsOf_define hs, definitionsOf_define ht, h.definitions]

end Scope

/-! ## Analyses that run abreast -/

namespace Graph

/-- The graphs are the same, but for what the first scope declares without a definition. -/
structure Abreast (g h : Graph) : Prop where
  references : g.references = h.references
  scopes : ∃ s t ss, g.scopes = s :: ss ∧ h.scopes = t :: ss ∧ s.Agrees t

namespace Abreast

variable {g h : Graph} (hgh : g.Abreast h)

include hgh

lemma symm : h.Abreast g := by
  obtain ⟨hrefs, s, t, ss, hg, hh, hst⟩ := hgh
  exact ⟨hrefs.symm, t, s, ss, hh, hg, hst.symm⟩

lemma modifyInner {i : Nat} (hi : i ≠ 0) (f : Scope → Scope) :
    (g.modifyScope i f).Abreast (h.modifyScope i f) := by
  obtain ⟨hrefs, s, t, ss, hg, hh, hst⟩ := hgh
  obtain ⟨j, rfl⟩ := Nat.exists_eq_succ_of_ne_zero hi
  exact ⟨hrefs, s, t, ss.modify j f, by simp [Graph.modifyScope, hg],
    by simp [Graph.modifyScope, hh], hst⟩

lemma modifyScope (i : Nat) {f : Scope → Scope}
    (hf : ∀ s t : Scope, s.Agrees t → (f s).Agrees (f t)) :
    (g.modifyScope i f).Abreast (h.modifyScope i f) := by
  by_cases hi : i = 0
  · subst hi
    obtain ⟨hrefs, s, t, ss, hg, hh, hst⟩ := hgh
    exact ⟨hrefs, f s, f t, ss, by simp [Graph.modifyScope, hg], by simp [Graph.modifyScope, hh],
      hf s t hst⟩
  · exact hgh.modifyInner hi f

lemma append (new : Scope) :
    Abreast { g with scopes := g.scopes ++ [new] } { h with scopes := h.scopes ++ [new] } := by
  obtain ⟨hrefs, s, t, ss, hg, hh, hst⟩ := hgh
  exact ⟨hrefs, s, t, ss ++ [new], by simp [hg], by simp [hh], hst⟩

lemma map_scopes {β : Type} {view : Scope → β}
    (hview : ∀ s t, Scope.Agrees s t → view s = view t) :
    g.scopes.map view = h.scopes.map view := by
  obtain ⟨-, s, t, ss, hg, hh, hst⟩ := hgh
  rw [hg, hh, List.map_cons, List.map_cons, hview s t hst]

lemma length_scopes : g.scopes.length = h.scopes.length := by
  obtain ⟨-, s, t, ss, hg, hh, -⟩ := hgh
  rw [hg, hh, List.length_cons, List.length_cons]

lemma home (i : Nat) : g.scopes[i]?.map (·.home) = h.scopes[i]?.map (·.home) := by
  rw [← List.getElem?_map, ← List.getElem?_map, hgh.map_scopes]
  rintro s t hst
  obtain ⟨vs, table, rfl⟩ := hst.same
  rfl

lemma declares {i : Nat} (hi : i ≠ 0) (name : String) :
    g.declares i name = h.declares i name := by
  obtain ⟨-, s, t, ss, hg, hh, -⟩ := hgh
  cases i with
  | zero => exact absurd rfl hi
  | succ i => simp [Graph.declares, hg, hh]

end Abreast

end Graph

namespace Analysis

variable {g h : Graph} {i : Nat}

lemma abreast_settle (hgh : g.Abreast h) (hi : i ≠ 0) (ref : Nat) :
    (settle g i ref).1.Abreast (settle h i ref).1 ∧ (settle g i ref).2 = (settle h i ref).2 := by
  unfold settle
  rw [← hgh.references]
  cases g.references[ref]? with
  | none => exact ⟨hgh, rfl⟩
  | some r =>
    dsimp only
    rw [hgh.declares hi]
    split
    · exact ⟨⟨rfl, (hgh.modifyInner hi _).scopes⟩, rfl⟩
    · exact ⟨hgh.modifyInner hi _, rfl⟩

lemma abreast_settleAll (hgh : g.Abreast h) (hi : i ≠ 0) (refs : List Nat) :
    (settleAll g i refs).1.Abreast (settleAll h i refs).1 ∧
      (settleAll g i refs).2 = (settleAll h i refs).2 := by
  induction refs generalizing g h with
  | nil => exact ⟨hgh, rfl⟩
  | cons ref refs ih =>
    obtain ⟨hfirst, hleft⟩ := abreast_settle hgh hi ref
    obtain ⟨hrest, hmore⟩ := ih hfirst
    simp only [settleAll]
    exact ⟨hrest, by rw [hleft, hmore]⟩

/-- The same scopes are open, and the graphs are the same, but for what the first scope declares
without a definition. -/
structure Abreast (a b : Analysis) : Prop where
  frames : a.frames = b.frames
  graph : a.graph.Abreast b.graph

variable {a b a' b' : Analysis} {es : List Event} {n : Node}

lemma Abreast.symm (hab : a.Abreast b) : b.Abreast a := ⟨hab.frames.symm, hab.graph.symm⟩

lemma abreast_enter (hab : a.Abreast b) (kind : ScopeKind) (block : Node) :
    (a.enter kind block).Abreast (b.enter kind block) := by
  obtain ⟨hframes, hgraph⟩ := hab
  unfold enter
  rw [← hframes, ← hgraph.length_scopes]
  cases a.frames with
  | nil => exact ⟨rfl, hgraph.append _⟩
  | cons f fs =>
    dsimp only
    rw [← hgraph.home]
    refine ⟨rfl, (hgraph.modifyScope f.scope fun s t hst => ?_).append _⟩
    exact hst.congr (f := fun s => { s with inner := s.inner ++ [a.graph.scopes.length] })
      (fun s => ⟨rfl, rfl⟩) fun s vs table => rfl

lemma abreast_inScope (hab : a.Abreast b) {hoisted : Bool} {f : Scope → Scope}
    (hf : ∀ s t : Scope, s.Agrees t → (f s).Agrees (f t)) (ha : a.inScope hoisted f = .ok a')
    (hb : b.inScope hoisted f = .ok b') : a'.Abreast b' := by
  obtain ⟨hframes, hgraph⟩ := hab
  unfold inScope at ha hb
  rw [← hframes] at hb
  cases hu : a.frames with
  | nil =>
    rw [hu] at ha
    cases ha
  | cons u us =>
    rw [hu] at ha hb
    dsimp only at ha hb
    rw [← hgraph.home] at hb
    cases ha
    cases hb
    exact ⟨rfl, hgraph.modifyScope _ hf⟩

lemma abreast_mention (hab : a.Abreast b) {o : Occurrence} (ha : a.mention o = .ok a')
    (hb : b.mention o = .ok b') : a'.Abreast b' := by
  obtain ⟨hframes, hgraph⟩ := hab
  cases hf : a.frames with
  | nil =>
    unfold mention at ha
    rw [hf] at ha
    cases ha
  | cons u us =>
    rw [mention_eq hf] at ha
    rw [mention_eq (hframes ▸ hf)] at hb
    cases ha
    cases hb
    rw [hgraph.references]
    have hmade := hgraph.modifyScope u.scope (f := fun s =>
        { s with references := s.references ++ [b.graph.references.length] }) fun s t hst => by
      exact hst.congr
        (f := fun s => { s with references := s.references ++ [b.graph.references.length] })
        (fun s => ⟨rfl, rfl⟩) fun s vs table => rfl
    exact ⟨rfl, rfl, hmade.scopes⟩

/-- Closing a scope other than the first one. -/
lemma abreast_leave (hab : a.Abreast b) (hinner : a.openScopes.head? ≠ some 0)
    (ha : a.leave = .ok a') (hb : b.leave = .ok b') : a'.Abreast b' := by
  obtain ⟨hframes, hgraph⟩ := hab
  unfold leave at ha hb
  rw [← hframes] at hb
  unfold openScopes at hinner
  cases hf : a.frames with
  | nil =>
    rw [hf] at ha
    cases ha
  | cons u us =>
    rw [hf] at ha hb hinner
    have hne : u.scope ≠ 0 := by simpa using hinner
    obtain ⟨hsettled, hleft⟩ := abreast_settleAll hgraph hne u.pending
    cases ha
    cases hb
    exact ⟨by rw [hleft], hsettled⟩

/-- **The same events keep two analyses abreast.** -/
lemma abreast_run (hn : Event.Nested n es) (hab : a.Abreast b) (ha : es.foldlM step a = .ok a')
    (hb : es.foldlM step b = .ok b') : a'.Abreast b' := by
  induction hn generalizing a b a' b' with
  | nil =>
    cases ha
    cases hb
    exact hab
  | append _ _ ih ih' =>
    rw [List.foldlM_append] at ha hb
    obtain ⟨a₁, ha₁, ha⟩ := bind_ok_iff.1 ha
    obtain ⟨b₁, hb₁, hb⟩ := bind_ok_iff.1 hb
    exact ih' (ih hab ha₁ hb₁) ha hb
  | hoist =>
    exact abreast_inScope hab (f := id) (fun _ _ hst => hst) (by simpa [step] using ha)
      (by simpa [step] using hb)
  | @declare _ name =>
    exact abreast_inScope hab (fun _ _ hst => hst.declare name) (by simpa [step] using ha)
      (by simpa [step] using hb)
  | @define _ _ d =>
    exact abreast_inScope hab (fun _ _ hst => hst.define d) (by simpa [step] using ha)
      (by simpa [step] using hb)
  | mention =>
    exact abreast_mention hab (by simpa [step] using ha) (by simpa [step] using hb)
  | @within n block kind es _ _ hes ih =>
    rw [Event.within, List.cons_append, List.foldlM_cons] at ha hb
    obtain ⟨a₁, ha₁, ha⟩ := bind_ok_iff.1 ha
    obtain ⟨b₁, hb₁, hb⟩ := bind_ok_iff.1 hb
    cases ha₁
    cases hb₁
    rw [List.foldlM_append] at ha hb
    obtain ⟨a₂, ha₂, ha⟩ := bind_ok_iff.1 ha
    obtain ⟨b₂, hb₂, hb⟩ := bind_ok_iff.1 hb
    refine abreast_leave (ih (abreast_enter hab kind block) ha₂ hb₂) ?_ (by simpa [step] using ha)
      (by simpa [step] using hb)
    -- The scope that closes is the one that was entered, which is not the first.
    obtain ⟨-, s, t, ss, hs, -⟩ := hab.graph
    rw [openScopes_run hes ha₂, openScopes_enter, hs]
    simp

/-- Declaring names without a definition in the first scope keeps it abreast. -/
lemma abreast_declare (hab : a.Abreast b) (hopen : a.openScopes.head? = some 0)
    {names : List String} (ha : (names.map Event.declare).foldlM step a = .ok a') :
    a'.Abreast b := by
  induction names generalizing a with
  | nil =>
    cases ha
    exact hab
  | cons name names ih =>
    rw [List.map_cons, List.foldlM_cons] at ha
    obtain ⟨c, hc, ha⟩ := bind_ok_iff.1 ha
    refine ih ?_ (by rw [openScopes_inScope hc, hopen]) ha
    obtain ⟨hframes, hrefs, s, t, ss, hs, ht, hst⟩ := hab
    simp only [step, inScope] at hc
    unfold openScopes at hopen
    cases hu : a.frames with
    | nil =>
      rw [hu] at hc
      cases hc
    | cons u us =>
      rw [hu] at hc hopen
      have hzero : u.scope = 0 := by simpa using hopen
      cases hc
      refine ⟨hu ▸ hframes, hrefs, s.declare name, t, ss, ?_, ht, ?_, ?_, ?_⟩
      · simp [Graph.modifyScope, hzero, hs]
      · exact ⟨hst.coherent.1.declare name, hst.coherent.2⟩
      · obtain ⟨vs, table, rfl⟩ := hst.same
        obtain ⟨us, table', hdeclare⟩ := s.exists_declare name
        exact ⟨vs, table, by rw [hdeclare]⟩
      · rw [Scope.definitionsOf_declare hst.coherent.1, hst.definitions]

end Analysis

/-! ## Finished graphs -/

namespace Graph

/-- What a reference is, apart from what it means. -/
def standing (r : Reference) : Occurrence × Nat := (r.toOccurrence, r.scope)

/-- The graphs have the same scopes and references, all scopes but the first declare the same names,
and all names have the same definitions. -/
structure Alike (g h : Graph) : Prop where
  emptied : g.emptied = h.emptied
  standing : g.references.map standing = h.references.map standing
  declares : ∀ i ≠ 0, ∀ name, g.declares i name = h.declares i name
  definitions : g.scopes.map Scope.definitionsOf = h.scopes.map Scope.definitionsOf

variable {f g h : Graph}

lemma Alike.symm (hgh : g.Alike h) : h.Alike g :=
  ⟨hgh.emptied.symm, hgh.standing.symm, fun i hi name => (hgh.declares i hi name).symm,
    hgh.definitions.symm⟩

lemma Alike.trans (hfg : f.Alike g) (hgh : g.Alike h) : f.Alike h :=
  ⟨hfg.emptied.trans hgh.emptied, hfg.standing.trans hgh.standing,
    fun i hi name => (hfg.declares i hi name).trans (hgh.declares i hi name),
    hfg.definitions.trans hgh.definitions⟩

lemma Abreast.alike (hgh : g.Abreast h) : g.Alike h := by
  refine ⟨hgh.map_scopes fun s t hst => ?_, by rw [hgh.references],
    fun i hi name => hgh.declares hi name, hgh.map_scopes fun _ _ hst => hst.definitions⟩
  obtain ⟨vs, table, rfl⟩ := hst.same
  rfl

end Graph

/-- Closing a scope resolves references, and changes nothing else. -/
lemma Analysis.alike_leave {a b : Analysis} (h : a.leave = .ok b) : b.graph.Alike a.graph := by
  obtain ⟨u, us, c⟩ := closing_of_leave h
  refine ⟨emptied_step (e := .leave) rfl h, ?_, fun i _ name => c.declares i name,
    map_scopes_leave Scope.definitionsOf_of_uses (fun _ _ => rfl) h⟩
  apply List.ext_getElem?
  intro k
  rw [List.getElem?_map, List.getElem?_map, c.references, Option.map_map]
  refine congrFun (congrArg _ (funext fun r => ?_)) _
  rw [Function.comp_apply, Graph.standing, Graph.standing]
  split
  · rw [toOccurrence_resolveIn, scope_resolveIn]
  · rfl

/-! ## What names mean in graphs that are alike -/

namespace Graph

lemma outline_of_emptied_eq {g h : Graph} (he : g.emptied = h.emptied) : g.outline = h.outline := by
  have hmap := congrArg (List.map Scope.outline) he
  unfold emptied at hmap
  rwa [List.map_map, List.map_map] at hmap

lemma innermost_of_emptied_eq {g h : Graph} (he : g.emptied = h.emptied) (start offset : Nat) :
    g.innermost start offset = h.innermost start offset := by
  have hself (g : Graph) :
      g.innermost start offset = ({ scopes := g.emptied } : Graph).innermost start offset := by
    unfold innermost emptied
    rw [List.zipIdx_map, List.foldl_map]
    rfl
  rw [hself g, hself h, he]

/-- A name means the same variable in both graphs, unless that is one of the first scope and the
second graph does not declare it there. -/
lemma Nearest.alike {g h : Graph} (hgh : g.Alike h) (hrooted : Rooted g.outline) {name : String}
    {i : Nat} {v : VariableId} (hv : g.Nearest name i v)
    (hfirst : v.scope = 0 → h.declares 0 name = true) : h.Nearest name i v := by
  induction hv with
  | @here i declares =>
    refine .here ?_
    by_cases hi : i = 0
    · rw [hi]
      exact hfirst hi
    · rwa [← hgh.declares i hi]
  | @outward i j v passes upper _ ih =>
    have hlt := upper.lt hrooted
    have hchain : h.chain i = g.chain i := by
      unfold chain
      rw [outline_of_emptied_eq hgh.emptied]
    refine .outward ?_ (isUpper_iff.2 ?_) (ih hfirst)
    · rwa [← hgh.declares i (by omega)]
    · rw [hchain]
      exact isUpper_iff.1 upper

namespace Alike

variable {g h : Graph} (hgh : g.Alike h) {v : VariableId} {i : Nat} {name : String}

include hgh

/-- A variable that has definitions is in both graphs, and has the same definitions. -/
lemma exists_get? {x : Variable} (hx : g.get? v = some x) (hne : x.definitions ≠ []) :
    ∃ y, h.get? v = some y ∧ y.definitions = x.definitions := by
  obtain ⟨s, hs, hfind⟩ := Option.bind_eq_some_iff.1 hx
  have hdefs := congrArg (·[v.scope]?) hgh.definitions
  simp only [List.getElem?_map, hs, Option.map_some] at hdefs
  obtain ⟨t, ht, hst⟩ := Option.map_eq_some_iff.1 hdefs.symm
  have hname := congrFun hst v.name
  simp only [Scope.definitionsOf, hfind, Option.map_some, Option.getD_some] at hname
  cases hy : t.find? v.name with
  | none =>
    rw [hy] at hname
    exact absurd hname.symm hne
  | some y =>
    rw [hy] at hname
    exact ⟨y, Option.bind_eq_some_iff.2 ⟨t, ht, hy⟩, hname⟩

lemma lookup (hrooted : Rooted g.outline) (hv : g.lookup i name = some v)
    (hfirst : v.scope = 0 → h.declares 0 name = true) : h.lookup i name = some v := by
  have hrooted' : Rooted h.outline := outline_of_emptied_eq hgh.emptied ▸ hrooted
  rw [lookup_eq_some_iff hrooted] at hv
  exact (lookup_eq_some_iff hrooted').2 (hv.alike hgh hrooted hfirst)

/-- A name means the same in both graphs if it means a variable that has definitions. -/
lemma lookup_of_defined (hrooted : Rooted g.outline) (hv : g.lookup i name = some v)
    {x : Variable} (hx : g.get? v = some x) (hne : x.definitions ≠ []) :
    h.lookup i name = some v := by
  obtain ⟨y, hy, -⟩ := hgh.exists_get? hx hne
  refine hgh.lookup hrooted hv fun hzero => ?_
  rw [← ((lookup_eq_some_iff hrooted).1 hv).name_eq, ← hzero, ← isSome_get?, hy]
  rfl

/-- The references of both graphs correspond to each other. -/
lemma exists_reference {r : Reference} (hr : r ∈ g.references) :
    ∃ r' ∈ h.references, r'.toOccurrence = r.toOccurrence ∧ r'.scope = r.scope := by
  have hmem : Graph.standing r ∈ h.references.map Graph.standing :=
    hgh.standing ▸ List.mem_map_of_mem hr
  obtain ⟨r', hr', he⟩ := List.mem_map.1 hmem
  exact ⟨r', hr', congrArg Prod.fst he, congrArg Prod.snd he⟩

end Alike

end Graph

/-! ## Two analyses of a program -/

namespace Event

variable {sourceType : String} {globals globals' : List String} {n : Node}

/-- What a node contributes does not depend on the names that are known to be there, unless it is a
program. -/
lemma contribution_eq {s : Shape Visited} (h : s.kind = .program → s.IsGeneric) :
    contribution sourceType globals n s = contribution sourceType globals' n s := by
  have hvisit : visitRule sourceType globals n s = visitRule sourceType globals' n s := by
    by_cases hkind : s.kind = .program
    · -- A construct that bears the name of a program has no statements, so that both fail.
      obtain ⟨ts, hts⟩ := h hkind
      have hitems : s.items .body = .error (.missingField .program .body) := by
        rw [Shape.items, Shape.slot, Shape.slot?, hts, hkind]
        rfl
      simp only [visitRule, hkind, ofProgram, hitems]
      rfl
    · unfold visitRule
      split
      · rename_i hprogram
        exact absurd hprogram hkind
      all_goals rfl
  unfold contribution
  rw [hvisit]

lemma annotate_contribution_eq (h : ∀ u, n.Contains u → u.kind = .program → u.shape.IsGeneric) :
    n.annotate (contribution sourceType globals) =
      n.annotate (contribution sourceType globals') := by
  induction n using Tree.induction with
  | step n ih =>
    have hshape : n.shape.map (Tree.annotate (contribution sourceType globals)) =
        n.shape.map (Tree.annotate (contribution sourceType globals')) :=
      Shape.map_congr fun c hc => ih c hc fun u hu => h u ((Tree.contains_child hc).trans hu)
    have hlabel : (n.annotate (contribution sourceType globals)).label =
        (n.annotate (contribution sourceType globals')).label := by
      rw [Tree.label_annotate, Tree.label_annotate, hshape]
      exact contribution_eq fun hkind => Tree.isGeneric_map.2 (h n (.refl n) hkind)
    rw [← Tree.mk_label_shape (n.annotate _), hlabel, Tree.shape_annotate, hshape,
      ← Tree.shape_annotate, Tree.mk_label_shape]

end Event

namespace Node

variable {sourceType : String} {globals globals' : List String} {root : Node} {g h : Graph}

lemma bodyEvents_eq {k : Ranging} (hconforming : root.Conforming k) (hk : k.sole) :
    root.bodyEvents sourceType globals = root.bodyEvents sourceType globals' := by
  unfold bodyEvents
  have hshape : root.shape.map (Tree.annotate (Event.contribution sourceType globals)) =
      root.shape.map (Tree.annotate (Event.contribution sourceType globals')) := by
    refine Shape.map_congr fun c hc => Event.annotate_contribution_eq fun u hu hkind => ?_
    obtain ⟨w, hw, hmem⟩ := Tree.exists_parent_of_contains_child hc hu
    exact ((hconforming w hw).2.inner u hmem).generic hk hkind
  rw [hshape]

/-- **Two analyses of a program that differ in the names that are known to be there** have graphs
that are alike. -/
lemma alike_scopeGraph {k : Ranging} (hroot : root.kind = .program)
    (hconforming : root.Conforming k) (hk : k.sole)
    (hg : root.scopeGraph sourceType globals = .ok g)
    (hh : root.scopeGraph sourceType globals' = .ok h) : g.Alike h := by
  obtain ⟨body, a, b, c, hbody, ha, hb, hc, rfl⟩ := run_program hroot hg
  obtain ⟨body', a', b', c', hbody', ha', hb', hc', rfl⟩ := run_program hroot hh
  obtain rfl : body = body' :=
    Except.ok.inj (hbody.symm.trans ((bodyEvents_eq hconforming hk).trans hbody'))
  have hstart : (Analysis.enter {} .global root).Abreast (Analysis.enter {} .global root) :=
    ⟨rfl, rfl, _, _, _, rfl, rfl, .refl (.of_empty rfl rfl)⟩
  have hdeclared : a.Abreast a' :=
    Analysis.abreast_declare (Analysis.abreast_declare hstart rfl ha').symm rfl ha
  have hrun := (Analysis.abreast_run (nested_moduleEvents hbody) hdeclared hb hb').graph.alike
  exact (Analysis.alike_leave hc).trans (hrun.trans (Analysis.alike_leave hc').symm)

end Node

end RefFlow
