import RefFlow.Proofs.Reactive.Records

/-!
# Reactive variables and their records

In `Proofs/Reactive/Records` the records are described by the identifiers that are followed.  Here
they are described by the variables.

* `Binds` says which variables a macro call binds: it is the initial value of a declarator, and one
  of the identifiers that it takes from the pattern (`Takes`) means the variable.
  `exists_declared_iff` shows that these are the identifiers that are followed.
* `Uses` says which nodes are uses of a variable that count.
* `explained_extract` shows that every record is that of a use of a variable that its site binds.
  This is kept by every step, whichever of several sites an occurrence is recorded for.

The main theorem is `record_iff_bound`.
-/

namespace RefFlow

open Fallible

namespace Program

variable {p : Program}

/-- The identifier of a definition belongs to the program. -/
lemma has_of_mem_definitionsOf {v : VariableId} {d : Definition}
    (hd : d ∈ p.graph.definitionsOf v) : p.Has d.identifier := by
  obtain ⟨es, hvisits, -, hheld⟩ := Node.exists_events p.graph_eq
  unfold Graph.definitionsOf at hd
  cases hx : p.graph.get? v with
  | none =>
    rw [hx] at hd
    cases hd
  | some x =>
    rw [hx] at hd
    obtain ⟨s, hs, hx, -⟩ := (Graph.entered_scopeGraph p.graph_eq).coherent.get? hx
    have hmem := Scope.mem_held hx hd
    have hflat : (x.name, d) ∈ p.graph.held.flatten :=
      List.mem_flatten.2 ⟨_, List.mem_map_of_mem (List.mem_of_getElem? hs), hmem⟩
    exact (hvisits.defined (hheld.subset hflat)).2.1

end Program

namespace Reactive

variable {p : Program} {calls : List Node} {site : Site} {f : Findings} {n b : Node}
  {r : Reference} {v : VariableId} {d : Definition}

/-! ## What a macro call binds -/

/-- The identifiers of a pattern that a macro makes reactive: one macro takes the whole pattern, the
others a single identifier. -/
def Takes (site : Site) (pattern b : Node) : Prop :=
  if site.method = Site.destructuring then ∃ bs, Node.identifiers pattern = .ok bs ∧ b ∈ bs
  else pattern.kind = .identifier ∧ b = pattern

/-- The node is the declarator of the pattern, and the call is its initial value. -/
structure Initialises (p : Program) (site : Site) (declarator pattern : Node) : Prop where
  has : p.Has declarator
  isDeclarator : declarator.kind = .variableDeclarator
  init : declarator.child .init = .ok (some site.node)
  id : declarator.child .id = .ok (some pattern)

/-- The site is the call of a macro that binds the variable. -/
structure Binds (p : Program) (site : Site) (v : VariableId) : Prop where
  isMacro : ∃ sites, Site.ofMacros p = .ok sites ∧ site ∈ sites
  bound : ∃ declarator pattern b, Initialises p site declarator pattern ∧ Takes site pattern b ∧
    p.find b = .ok (some v)

/-- The node is an occurrence of a variable, other than the name in its definition, and the variable
has one definition, that of a plain variable. -/
structure Uses (p : Program) (n : Node) (v : VariableId) (d : Definition) : Prop where
  reference : ∃ r ∈ p.graph.references, r.identifier = n ∧ r.resolved = some v
  definitions : p.graph.definitionsOf v = [d]
  isVariable : d.kind = .variable
  notName : d.identifier ≠ n

/-- The identifiers of a pattern that a macro makes reactive, as a list. -/
def taken (site : Site) (pattern : Node) : Except Fault (List Node) :=
  if site.method == Site.destructuring then Node.identifiers pattern
  else if pattern.kind == .identifier then return [pattern]
  else return []

lemma exists_taken_iff {pattern : Node} :
    (∃ bs, taken site pattern = .ok bs ∧ b ∈ bs) ↔ Takes site pattern b := by
  unfold taken Takes
  by_cases hmethod : site.method = Site.destructuring
  · simp [hmethod]
  · by_cases hkind : pattern.kind = .identifier
    · simp [hmethod, hkind, pure_ok_iff]
    · simp [hmethod, hkind, pure_ok_iff]

lemma declared_of_initialises (hsite : p.Has site.node) {declarator pattern : Node}
    (h : Initialises p site declarator pattern) : declared p site = taken site pattern := by
  have hparent := h.has.parent?_of_mem_children (Shape.mem_children_of_child h.init)
  have hnode := (hsite.isNode_iff h.has h.init).2 rfl
  rw [declared, hparent]
  dsimp only
  rw [if_pos (by simpa using h.isDeclarator), h.init, ok_bind, if_pos hnode, h.id, ok_bind]
  rfl

/-- A call that is not the initial value of a declarator makes nothing reactive. -/
lemma exists_initialises (hsite : p.Has site.node) {bs : List Node}
    (h : declared p site = .ok bs) (hb : b ∈ bs) :
    ∃ declarator pattern, Initialises p site declarator pattern := by
  have hempty (hbs : (.ok [] : Except Fault (List Node)) = .ok bs) : False := by
    cases hbs
    cases hb
  unfold declared at h
  split at h
  · exact (hempty h).elim
  · rename_i q hq
    obtain ⟨hhas, -⟩ := hsite.parent hq
    split at h
    · rename_i hkind
      obtain ⟨o, ho, h⟩ := bind_ok_iff.1 h
      split at h
      · rename_i hinit
        obtain ⟨t, ht, h⟩ := bind_ok_iff.1 h
        rw [(hsite.isNode_iff hhas ho).1 hinit] at ho
        cases t with
        | none => exact (hempty h).elim
        | some pattern => exact ⟨q, pattern, hhas, by simpa using hkind, ho, ht⟩
      · exact (hempty h).elim
    · exact (hempty h).elim

/-- What a macro call makes reactive is taken from the pattern of the declarator that it
initialises. -/
lemma exists_declared_iff (hsite : p.Has site.node) :
    (∃ bs, declared p site = .ok bs ∧ b ∈ bs) ↔
      ∃ declarator pattern, Initialises p site declarator pattern ∧ Takes site pattern b := by
  constructor
  · rintro ⟨bs, h, hb⟩
    obtain ⟨declarator, pattern, hinit⟩ := exists_initialises hsite h hb
    rw [declared_of_initialises hsite hinit] at h
    exact ⟨declarator, pattern, hinit, exists_taken_iff.1 ⟨bs, h, hb⟩⟩
  · rintro ⟨declarator, pattern, hinit, htakes⟩
    rw [declared_of_initialises hsite hinit]
    exact exists_taken_iff.2 htakes

/-! ## Records -/

lemma uses_iff : Uses p n v d ↔ ∃ r ∈ p.graph.references, r.identifier = n ∧ r.resolved = some v ∧
    p.soleDefinition? r = some d ∧ d.identifier.id ≠ n.id := by
  have hsole : p.graph.definitionsOf v = [d] ↔
      ∃ x, p.graph.get? v = some x ∧ x.definitions = [d] := by
    unfold Graph.definitionsOf
    cases p.graph.get? v <;> simp
  constructor
  · rintro ⟨⟨r, hr, rfl, hv⟩, hdefinitions, hkind, hne⟩
    have hhas := Program.has_of_mem_definitionsOf (hdefinitions ▸ List.mem_singleton.2 rfl)
    obtain ⟨x, hx, hd⟩ := hsole.1 hdefinitions
    refine ⟨r, hr, rfl, hv, Program.soleDefinition?_eq_some_iff.2 ⟨v, x, hv, hx, hd, hkind⟩, ?_⟩
    exact fun heq => hne (hhas.eq_of_id_eq (Program.has_of_mem_references hr).1 heq)
  · rintro ⟨r, hr, rfl, hv, hd, hne⟩
    obtain ⟨w, x, hw, hx, hd, hkind⟩ := Program.soleDefinition?_eq_some_iff.1 hd
    obtain rfl : v = w := Option.some_inj.1 (hv.symm.trans hw)
    exact ⟨⟨r, hr, rfl, hv⟩, hsole.2 ⟨x, hx, hd⟩, hkind, fun heq => hne (congrArg Node.id heq)⟩

/-- The record is that of a use of a variable that its site binds, its method is that of the site,
and its owner is the declaration of the variable. -/
def Explained (p : Program) (record : Record) : Prop :=
  record.method = record.site.method ∧
    ∃ v d, Uses p record.node v d ∧ Binds p record.site v ∧ record.owner = d.declaration

/-- All records are explained. -/
def AllExplained (p : Program) (f : Findings) : Prop :=
  ∀ n record, f.get? n = some record → Explained p record

lemma explained_occur (hf : AllExplained p f) (hr : r ∈ p.graph.references)
    (hv : r.resolved = some v) (hbinds : Binds p site v) :
    Gives (occur p calls site f r) (AllExplained p) := by
  unfold occur
  dsimp only
  split
  · exact gives_ok hf
  · rename_i d hd
    split
    · exact gives_ok hf
    · rename_i hne
      refine gives_true.bind fun e _ => gives_pure fun n record hrecord => ?_
      rw [Findings.get?, Table.get?_set] at hrecord
      split at hrecord
      · cases hrecord
        have huses := uses_iff.2 ⟨r, hr, rfl, hv, hd, by simpa using hne⟩
        exact ⟨rfl, v, d, huses, hbinds, rfl⟩
      · exact hf n record hrecord

lemma explained_bind (hf : AllExplained p f)
    (hbinds : ∀ v, p.find b = .ok (some v) → Binds p site v) :
    Gives (bind p calls site f b) (AllExplained p) := by
  by_cases hb : b.id ∈ f.followed
  · rw [bind_of_mem hb]
    exact gives_ok hf
  · rw [bind_of_not_mem hb]
    intro f' h
    obtain ⟨rs, hrs, h⟩ := bind_ok_iff.1 h
    have hstart : AllExplained p { f with followed := b.id :: f.followed } := hf
    refine gives_foldlM (fun f₁ r hr hf₁ => ?_) hstart f' h
    obtain ⟨v, hv, hr, hresolved⟩ := (Program.mem_occurrences_iff hrs).1 hr
    exact explained_occur hf₁ hr hresolved (hbinds v hv)

lemma explained_follow (hf : AllExplained p f) {sites : List Site}
    (hsites : Site.ofMacros p = .ok sites) (hsite : site ∈ sites) :
    Gives (follow p calls f site) (AllExplained p) := by
  have hhas := Site.gives_ambientCalls _ sites hsites site hsite
  intro f' h
  obtain ⟨bs, hbs, h⟩ := bind_ok_iff.1 h
  refine gives_foldlM (fun f₁ b hb hf₁ => explained_bind hf₁ fun v hv => ?_) hf f' h
  obtain ⟨declarator, pattern, hinit, htakes⟩ := (exists_declared_iff hhas).1 ⟨bs, hbs, hb⟩
  exact ⟨⟨sites, hsites, hsite⟩, declarator, pattern, b, hinit, htakes, hv⟩

/-- **Every record has an explanation.** -/
lemma explained_extract (h : extract p = .ok f) : AllExplained p f := by
  rw [extract_eq] at h
  obtain ⟨calls, -, h⟩ := bind_ok_iff.1 h
  obtain ⟨sites, hsites, h⟩ := bind_ok_iff.1 h
  refine gives_foldlM (fun f₁ site hsite hf₁ => explained_follow hf₁ hsites hsite) ?_ f h
  intro n record hrecord
  cases hrecord

/-- The site of a macro is called by its name. -/
lemma Binds.named (h : Binds p site v) : site.method ∈ Site.macros ∧ ∃ callee,
    site.node.child .callee = .ok (some callee) ∧ callee.text? .name = .ok (some site.method) := by
  obtain ⟨sites, hsites, hsite⟩ := h.isMacro
  obtain ⟨r, hr, hname, -, hcallOf⟩ := (Site.mem_ambientCalls_iff_exposed hsites).1 hsite
  obtain ⟨-, -, hcallee, hmethod⟩ := (Site.callOf_eq_some_iff hr).1 hcallOf
  obtain ⟨-, -, htext⟩ := Node.named_of_mem_references p.graph_eq hr
  rw [hmethod]
  exact ⟨hname, r.identifier, hcallee, htext⟩

lemma Binds.makes (h : Binds p site v) : ∃ b, Makes p b ∧ p.find b = .ok (some v) := by
  obtain ⟨⟨sites, hsites, hsite⟩, declarator, pattern, b, hinit, htakes, hfind⟩ := h
  have hhas := Site.gives_ambientCalls _ sites hsites site hsite
  obtain ⟨bs, hbs, hb⟩ := (exists_declared_iff hhas).2 ⟨declarator, pattern, hinit, htakes⟩
  exact ⟨b, ⟨sites, hsites, site, hsite, bs, hbs, hb⟩, hfind⟩

/-- A use of the variable is reached from the identifier that is bound. -/
lemma Uses.reaches (h : Uses p n v d) (hb : p.find b = .ok (some v)) : Reaches p b n := by
  obtain ⟨r, hr, rfl, hv, hd, hne⟩ := uses_iff.1 h
  exact reaches_iff.2 ⟨v, r, hb, hr, hv, ⟨d, hd, hne⟩, rfl⟩

/-- **Which references are recorded.**  If the extraction succeeds, a node has a record exactly if
it is a use of a variable that a macro call binds, where the variable has one definition, that of a
plain variable, and the node is not the name in it.  The site of the record is such a call, its
method is the name by which the macro is called, and its owner is the declaration of the
variable. -/
theorem record_iff_bound (h : extract p = .ok f) (hn : p.Has n) :
    ((f.get? n.id).isSome ↔ ∃ v d site, Uses p n v d ∧ Binds p site v) ∧
    ∀ record, f.get? n.id = some record → record.node = n ∧
      (∃ v d, Uses p n v d ∧ Binds p record.site v ∧ record.owner = d.declaration) ∧
      record.method ∈ Site.macros ∧ ∃ callee, record.site.node.child .callee = .ok (some callee) ∧
        callee.text? .name = .ok (some record.method) := by
  obtain ⟨calls, hcalls, -⟩ := bind_ok_iff.1 h
  obtain ⟨hrecords, hrecorded⟩ := gives_extract hcalls h
  have hall (record : Record) (hrecord : f.get? n.id = some record) : record.node = n ∧
      record.method = record.site.method ∧
      ∃ v d, Uses p n v d ∧ Binds p record.site v ∧ record.owner = d.declaration := by
    obtain ⟨hid, ⟨b, -, hreaches⟩, -⟩ := hrecords n.id record hrecord
    obtain rfl := hreaches.has.eq_of_id_eq hn hid
    exact ⟨rfl, explained_extract h _ record hrecord⟩
  refine ⟨⟨fun hsome => ?_, ?_⟩, fun record hrecord => ?_⟩
  · obtain ⟨record, hrecord⟩ := Option.isSome_iff_exists.1 hsome
    obtain ⟨-, -, v, d, huses, hbinds, -⟩ := hall record hrecord
    exact ⟨v, d, record.site, huses, hbinds⟩
  · rintro ⟨v, d, site, huses, hbinds⟩
    obtain ⟨b, hmakes, hfind⟩ := hbinds.makes
    obtain ⟨record, hrecord, -⟩ := hrecorded b n hmakes (huses.reaches hfind)
    exact Option.isSome_iff_exists.2 ⟨record, hrecord⟩
  · obtain ⟨hnode, hmethod, v, d, huses, hbinds, howner⟩ := hall record hrecord
    rw [hmethod]
    exact ⟨hnode, ⟨v, d, huses, hbinds, howner⟩, hbinds.named⟩

end Reactive

/-- The tree of `let [a]=$(o),c=$ref(a);c`, in which one macro takes a pattern apart, and another
one takes what it gave. -/
def Concrete.patternMacro : Concrete Unit :=
  let call (start mid stop : Nat) := node "call_expression" (some "value") start stop
    [identifier (some "function") start mid,
     node "arguments" (some "arguments") mid stop [identifier none (mid + 1) (mid + 2)]]
  node "program" none 0 24
    [node "lexical_declaration" none 0 23
      [token "let" (some "kind") 0 3,
       node "variable_declarator" none 4 12
        [node "array_pattern" (some "name") 4 7 [identifier none 5 6], call 8 9 12],
       node "variable_declarator" none 13 22
        [identifier (some "name") 13 14, call 15 19 22]],
     node "expression_statement" none 23 24 [identifier none 23 24]]

/-- The source of `patternMacro`. -/
def Source.patternMacro : Source := ⟨"let [a]=$(o),c=$ref(a);c".toUTF8.toList⟩

/-- The name that is handed to the second macro has a record of the first one, and the same name in
the pattern has none. -/
theorem Reactive.record_iff_bound_patternMacro : ∃ p f n m record,
    Program.analyze .patternMacro {} .patternMacro = .ok p ∧ extract p = .ok f ∧
      p.Has n ∧ n.text? .name = .ok (some "a") ∧ f.get? n.id = some record ∧
      record.method = Site.destructuring ∧ record.node = n ∧
      (∃ v d, Uses p n v d ∧ Binds p record.site v ∧ record.owner = d.declaration) ∧
      p.Has m ∧ m.text? .name = .ok (some "a") ∧ f.get? m.id = none ∧
      ¬∃ v d site, Uses p m v d ∧ Binds p site v := by
  have hall : (Program.analyze .patternMacro {} .patternMacro).toOption.any fun p =>
      (extract p).toOption.any fun f =>
        p.anyNamed "a" (fun n => (f.get? n.id).any (·.method == Site.destructuring)) &&
          p.anyNamed "a" fun n => (f.get? n.id).isNone := by
    decide +kernel
  obtain ⟨p, hp, hall⟩ := exists_ok_of_any hall
  obtain ⟨f, hf, hall⟩ := exists_ok_of_any hall
  obtain ⟨hrecorded, hother⟩ := Bool.and_eq_true_iff.1 hall
  obtain ⟨n, hn, hname, hrecorded⟩ := Program.exists_of_anyNamed hrecorded
  obtain ⟨m, hm, hname', hnone⟩ := Program.exists_of_anyNamed hother
  obtain ⟨record, hrecord, hmethod⟩ := (Option.any_eq_true _ _).1 hrecorded
  have hnone := Option.isNone_iff_eq_none.1 hnone
  obtain ⟨hnode, hbound, -⟩ := (record_iff_bound hf hn).2 record hrecord
  refine ⟨p, f, n, m, record, hp, hf, hn, hname, hrecord, beq_iff_eq.1 hmethod, hnode, hbound, hm,
    hname', hnone, fun hother => ?_⟩
  have hsome := (record_iff_bound hf hm).1.2 hother
  rw [hnone] at hsome
  cases hsome

end RefFlow
