import RefFlow.Proofs.Scope.Resolution

/-!
# The blocks of scopes

Every scope opens at a node of the program, its block.  The scopes of a program are those that its
events open, in order (`Analysis.blocks_run`), so what is known about the events is known about the
scopes: each stands in the program, and only programs have global scopes (`Node.opens_scopes`).

The blocks stand in each other as the scopes do, and a reference stands in the block of the scope in
which it is made (`Graph.Housed`).  This is shown by following a run: whatever a construct does, it
does in a scope whose block contains the construct (`Analysis.housed_run`).

Where there is a program at the root of the tree, its global scope is the first of all
(`Node.blocks_program`), so that the scope that is taken for the global one is one
(`Node.global_program`).  It is that of the root unless there are programs inside programs
(`Node.block_global`).
-/

namespace RefFlow

open Fallible

/-- The scope that an event opens, by its kind and its block. -/
def Event.opened : Event → List (ScopeKind × Node)
  | .enter kind block => [(kind, block)]
  | _ => []

/-- The scope stands in the node, and is global only if its block is a program. -/
def Event.OpensIn (n : Node) (e : ScopeKind × Node) : Prop :=
  n.Contains e.2 ∧ (e.1 = .global → e.2.kind = .program ∧ ¬e.2.shape.IsGeneric)

lemma Event.Nested.opensIn {n : Node} {es : List Event} (h : Nested n es) :
    ∀ e ∈ es.flatMap opened, OpensIn n e := by
  induction h with
  | append _ _ ih ih' =>
    intro e he
    rw [List.flatMap_append, List.mem_append] at he
    exact he.elim (ih e) (ih' e)
  | @within n block kind es inside isProgram _ ih =>
    intro e he
    have he : e = (kind, block) ∨ e ∈ es.flatMap opened := by
      simpa [Event.within, opened] using he
    rcases he with rfl | he
    · exact ⟨inside, isProgram⟩
    · exact ⟨inside.trans (ih e he).1, (ih e he).2⟩
  | _ => simp [opened]

/-! ## Blocks through a run -/

namespace Graph

variable {g : Graph}

/-- The kinds and the blocks of all scopes. -/
def blocks (g : Graph) : List (ScopeKind × Node) := g.scopes.map fun s => (s.kind, s.block)

lemma blocks_getElem? (g : Graph) (i : Nat) :
    g.blocks[i]? = g.scopes[i]?.map fun s => (s.kind, s.block) :=
  List.getElem?_map

lemma blocks_modifyScope (i : Nat) {f : Scope → Scope}
    (hf : ∀ s, (f s).kind = s.kind ∧ (f s).block = s.block) :
    (g.modifyScope i f).blocks = g.blocks :=
  map_modifyScope i fun s _ => Prod.ext (hf s).1 (hf s).2

end Graph

lemma Scope.block_declare (s : Scope) (name : String) :
    (s.declare name).kind = s.kind ∧ (s.declare name).block = s.block := by
  unfold declare
  split <;> exact ⟨rfl, rfl⟩

namespace Analysis

variable {a b : Analysis} {es : List Event}

lemma blocks_settleAll (g : Graph) (scope : Nat) (rs : List Nat) :
    (settleAll g scope rs).1.blocks = g.blocks := by
  have hsettle (g : Graph) (r : Nat) : (settle g scope r).1.blocks = g.blocks := by
    unfold settle
    split
    · rfl
    · split
      · exact Graph.blocks_modifyScope (g := g) scope fun _ => ⟨rfl, rfl⟩
      · exact Graph.blocks_modifyScope scope fun _ => ⟨rfl, rfl⟩
  induction rs generalizing g with
  | nil => rfl
  | cons r rs ih =>
    simp only [settleAll]
    rw [ih, hsettle]

lemma blocks_inScope {hoisted : Bool} {f : Scope → Scope}
    (hf : ∀ s, (f s).kind = s.kind ∧ (f s).block = s.block) (h : a.inScope hoisted f = .ok b) :
    b.graph.blocks = a.graph.blocks := by
  unfold inScope at h
  split at h
  · cases h
  · cases h
    exact Graph.blocks_modifyScope _ hf

lemma blocks_enter (a : Analysis) (kind : ScopeKind) (block : Node) :
    (a.enter kind block).graph.blocks = a.graph.blocks ++ [(kind, block)] := by
  unfold enter
  cases a.frames with
  | nil => simp [Graph.blocks]
  | cons f fs =>
    have hmodify := Graph.blocks_modifyScope (g := a.graph) f.scope
      (f := fun s => { s with inner := s.inner ++ [a.graph.scopes.length] }) fun _ => ⟨rfl, rfl⟩
    simp only [Graph.blocks, Graph.modifyScope] at hmodify
    simp [Graph.blocks, hmodify]

/-- A step opens the scope that its event says, and leaves the blocks of the others alone. -/
lemma blocks_step {e : Event} (h : a.step e = .ok b) :
    b.graph.blocks = a.graph.blocks ++ e.opened := by
  cases e with
  | enter kind block =>
    cases h
    exact blocks_enter a kind block
  | leave =>
    simp only [step, leave] at h
    split at h
    · cases h
    · cases h
      simp [Event.opened, blocks_settleAll]
  | hoist => simp [blocks_inScope (fun _ => ⟨rfl, rfl⟩) h, Event.opened]
  | declare name =>
    simp [blocks_inScope (fun s => s.block_declare name) h, Event.opened]
  | define hoisted d =>
    simp [blocks_inScope (f := (·.define d)) (fun s => s.block_declare d.name) h, Event.opened]
  | mention o =>
    simp only [step, mention] at h
    split at h
    · cases h
    · rename_i u us hf
      cases h
      have hmodify := Graph.blocks_modifyScope (g := a.graph) u.scope
        (f := fun s => { s with references := s.references ++ [a.graph.references.length] })
        fun _ => ⟨rfl, rfl⟩
      simpa [Event.opened, Graph.blocks] using hmodify

/-- The scopes of a run are those that its events open, in order. -/
lemma blocks_run (h : es.foldlM step a = .ok b) :
    b.graph.blocks = a.graph.blocks ++ es.flatMap Event.opened := by
  induction es generalizing a with
  | nil =>
    cases h
    exact (List.append_nil _).symm
  | cons e es ih =>
    rw [List.foldlM_cons] at h
    obtain ⟨c, hc, h⟩ := bind_ok_iff.1 h
    rw [ih h, blocks_step hc, List.append_assoc, List.flatMap_cons]

end Analysis

/-! ## Blocks inside blocks -/

namespace Graph

/-- The block of the scope contains the node. -/
def Houses (g : Graph) (i : Nat) (n : Node) : Prop := ∃ e, g.blocks[i]? = some e ∧ e.2.Contains n

/-- The block of each scope stands in the block of the scope right around it, and each reference in
the block of the scope in which it is made. -/
structure Housed (g : Graph) : Prop where
  block : ∀ {i u : Nat} {o : Outline} {us : List Nat}, g.outline[i]? = some o → o.outer = u :: us →
    ∃ e, g.blocks[i]? = some e ∧ g.Houses u e.2
  reference : ∀ r ∈ g.references, g.Houses r.scope r.identifier

variable {g g' : Graph} {i : Nat} {n m : Node}

lemma Houses.trans (h : g.Houses i n) (hm : n.Contains m) : g.Houses i m := by
  obtain ⟨e, he, hn⟩ := h
  exact ⟨e, he, hn.trans hm⟩

lemma Houses.append (h : g.Houses i n) {es : List (ScopeKind × Node)}
    (hg : g'.blocks = g.blocks ++ es) : g'.Houses i n := by
  obtain ⟨e, he, hn⟩ := h
  refine ⟨e, ?_, hn⟩
  rw [hg]
  exact getElem?_append_left_of_some he

lemma Housed.congr (h : g.Housed) (ho : g'.outline = g.outline) (hb : g'.blocks = g.blocks)
    (hr : ∀ r ∈ g'.references, g.Houses r.scope r.identifier) : g'.Housed := by
  refine ⟨fun hi hu => ?_, fun r hmem => ?_⟩
  · rw [ho] at hi
    simpa only [Houses, hb] using h.block hi hu
  · simpa only [Houses, hb] using hr r hmem

end Graph

namespace Analysis

variable {a b : Analysis} {n : Node} {es : List Event}

/-- The block of the innermost open scope, if there is one, contains the node. -/
def IsIn (a : Analysis) (n : Node) : Prop := ∀ i ∈ a.openScopes.head?, a.graph.Houses i n

lemma housed_inScope (ha : a.graph.Housed) {hoisted : Bool} {f : Scope → Scope}
    (hf : ∀ s, (f s).kind = s.kind ∧ (f s).block = s.block) (ho : ∀ s, (f s).outline = s.outline)
    (h : a.inScope hoisted f = .ok b) : b.graph.Housed := by
  unfold inScope at h
  split at h
  · cases h
  · cases h
    exact ha.congr (Graph.outline_modifyScope _ ho) (Graph.blocks_modifyScope _ hf) ha.reference

/-- A new scope opens in the innermost open one. -/
lemma housed_enter (ha : a.graph.Housed) (hin : a.IsIn n) (kind : ScopeKind) {block : Node}
    (hblock : n.Contains block) : (a.enter kind block).graph.Housed := by
  have hblocks := blocks_enter a kind block
  refine ⟨?_, fun r hr => (ha.reference r hr).append hblocks⟩
  intro i u o us hi hu
  rw [outline_enter] at hi
  rcases getElem?_concat_cases hi with hi | ⟨rfl, rfl⟩
  · obtain ⟨e, he, hhouses⟩ := ha.block hi hu
    exact ⟨e, by rw [hblocks]; exact getElem?_append_left_of_some he, hhouses.append hblocks⟩
  · have hlength : a.graph.outline.length = a.graph.blocks.length := by
      rw [Graph.length_outline, Graph.blocks, List.length_map]
    refine ⟨(kind, block), by rw [hblocks, hlength, List.getElem?_concat_length], ?_⟩
    have hhead : u ∈ a.openScopes.head? := by
      unfold nextOutline at hu
      unfold openScopes
      cases hf : a.frames with
      | nil =>
        rw [hf] at hu
        cases hu
      | cons f fs =>
        rw [hf] at hu
        cases hu
        rfl
    exact ((hin u hhead).trans hblock).append hblocks

lemma housed_leave (ha : a.graph.Housed) (h : a.leave = .ok b) : b.graph.Housed := by
  have hblocks : b.graph.blocks = a.graph.blocks := by
    simpa [Event.opened] using blocks_step (e := .leave) h
  obtain ⟨u, us, c⟩ := closing_of_leave h
  refine ha.congr c.outline hblocks fun r' hr' => ?_
  obtain ⟨k, hk⟩ := List.mem_iff_getElem?.1 hr'
  rw [c.references] at hk
  obtain ⟨r, hr, rfl⟩ := Option.map_eq_some_iff.1 hk
  have hold := ha.reference r (List.mem_of_getElem? hr)
  split
  · rwa [scope_resolveIn, toOccurrence_resolveIn]
  · exact hold

lemma housed_mention (ha : a.graph.Housed) (hin : a.IsIn n) {o : Occurrence}
    (ho : n.Contains o.identifier) (h : a.mention o = .ok b) : b.graph.Housed := by
  have hblocks : b.graph.blocks = a.graph.blocks := by
    simpa [Event.opened] using blocks_step (e := .mention o) h
  cases hf : a.frames with
  | nil =>
    rw [mention, hf] at h
    cases h
  | cons u us =>
    rw [mention_eq hf] at h
    cases h
    refine ha.congr (Graph.outline_modifyScope u.scope fun _ => rfl) hblocks fun r hr => ?_
    rcases List.mem_append.1 hr with hr | hr
    · exact ha.reference r hr
    · have hu : u.scope ∈ a.openScopes.head? := by
        rw [openScopes, hf]
        rfl
      rw [List.mem_singleton.1 hr]
      exact (hin u.scope hu).trans ho

/-- After the events of a construct, made in a scope whose block contains the construct, all scopes
and references stand in the blocks of the scopes around them. -/
lemma housed_run (hn : Event.Nested n es) (hin : a.IsIn n) (ha : a.graph.Housed)
    (h : es.foldlM step a = .ok b) : b.graph.Housed := by
  induction hn generalizing a b with
  | nil =>
    cases h
    exact ha
  | append hes _ ih ih' =>
    rw [List.foldlM_append] at h
    obtain ⟨c, hc, hb⟩ := bind_ok_iff.1 h
    refine ih' (fun i hi => ?_) (ih hin ha hc) hb
    rw [openScopes_run hes hc] at hi
    exact (hin i hi).append (blocks_run hc)
  | hoist =>
    exact housed_inScope ha (f := id) (fun _ => ⟨rfl, rfl⟩) (fun _ => rfl) (by simpa [step] using h)
  | @declare _ name =>
    exact housed_inScope ha (fun s => s.block_declare name) (fun s => s.outline_declare name)
      (by simpa [step] using h)
  | @define _ _ d =>
    exact housed_inScope ha (f := (·.define d)) (fun s => s.block_declare d.name)
      (fun s => s.outline_define d) (by simpa [step] using h)
  | mention inside => exact housed_mention ha hin inside (by simpa [step] using h)
  | @within n block kind es inside _ _ ih =>
    rw [Event.within, List.cons_append, List.foldlM_cons] at h
    obtain ⟨c, hc, h⟩ := bind_ok_iff.1 h
    cases hc
    rw [List.foldlM_append] at h
    obtain ⟨d, hd, h⟩ := bind_ok_iff.1 h
    refine housed_leave (ih ?_ (housed_enter ha hin kind inside) hd) (by simpa [step] using h)
    intro i hi
    rw [openScopes_enter, List.head?_cons, Option.mem_some_iff] at hi
    refine ⟨(kind, block), ?_, .refl _⟩
    rw [blocks_enter, ← hi, ← List.length_map (f := fun s : Scope => (s.kind, s.block))]
    exact List.getElem?_concat_length

end Analysis

/-! ## The blocks of a program -/

namespace Node

variable {sourceType : String} {globals : List String} {root : Node} {g : Graph}

lemma blocks_scopeGraph (h : root.scopeGraph sourceType globals = .ok g) :
    ∃ es, root.events sourceType globals = .ok es ∧ g.blocks = es.flatMap Event.opened := by
  obtain ⟨es, b, hes, hb, rfl⟩ := exists_run h
  exact ⟨es, hes, Analysis.blocks_run hb⟩

/-- The scopes of a program stand in it, and only programs have global scopes. -/
lemma opens_scopes (h : root.scopeGraph sourceType globals = .ok g) :
    ∀ e ∈ g.blocks, Event.OpensIn root e := by
  obtain ⟨es, hes, hblocks⟩ := blocks_scopeGraph h
  rw [hblocks]
  exact (Event.nested_events hes).opensIn

/-- The events of the statements of a program. -/
def bodyEvents (sourceType : String) (globals : List String) (root : Node) :
    Except Fault (List Event) := do
  Event.ofItems (← (root.shape.map
    (Tree.annotate (Event.contribution sourceType globals))).items .body)

lemma nested_bodyEvents : Gives (root.bodyEvents sourceType globals) (Event.Nested root) :=
  ((Event.parts_contribution sourceType globals root).gives_items .body).bind fun _ hts =>
    (Event.gives_ofItems hts).mono fun _ hbody => hbody.nested

lemma nested_moduleEvents {body : List Event} (h : root.bodyEvents sourceType globals = .ok body) :
    Event.Nested root (Event.withinIf (sourceType == "module") .module root body) :=
  (nested_bodyEvents body h).withinIf _ nofun

/-- The statements of a program open scopes further inside. -/
lemma opens_bodyEvents : Gives (root.bodyEvents sourceType globals)
    fun body => ∀ e ∈ body.flatMap Event.opened, ∃ c ∈ root.children, Event.OpensIn c e := by
  unfold bodyEvents
  set s := root.shape.map (Tree.annotate (Event.contribution sourceType globals)) with hs
  refine Gives.bind (P := fun ts => ∀ t ∈ ts, ∀ v ∈ t, v ∈ s.children) ?_ fun ts hts => ?_
  · rintro ts hts t ht v rfl
    exact Shape.mem_children_of_items hts ht
  · refine (gives_mapM (P := fun es => ∀ e ∈ es.flatMap Event.opened,
      ∃ c ∈ root.children, Event.OpensIn c e) fun t ht => ?_).bind fun ess hess => gives_pure ?_
    · cases t with
      | none => exact gives_ok (by simp)
      | some v =>
        have hv := hts (some v) ht v rfl
        rw [hs, Shape.children_map] at hv
        obtain ⟨c, hc, rfl⟩ := List.mem_map.1 hv
        have hsound := Event.sound_contributions sourceType globals c _ (.refl _)
        intro es hes e he
        have hnested := (hsound.visit es hes).nested
        rw [Event.node_contribution] at hnested
        exact ⟨c, hc, hnested.opensIn e he⟩
    · intro e he
      obtain ⟨event, hevent, he⟩ := List.mem_flatMap.1 he
      obtain ⟨es, hes, hevent⟩ := List.mem_flatten.1 hevent
      exact hess es hes e (List.mem_flatMap.2 ⟨event, hevent, he⟩)

/-- The events of a program: its global scope is around all others. -/
lemma events_program (hroot : root.kind = .program) {es : List Event}
    (h : root.events sourceType globals = .ok es) :
    ∃ body, root.bodyEvents sourceType globals = .ok body ∧ es = Event.within .global root
      (globals.map .declare ++ Event.withinIf (sourceType == "module") .module root body) := by
  have hkind : root.shape.kind = .program := hroot
  rw [Node.events, Tree.measure, Tree.label_annotate, Event.contribution, Event.visitRule,
    Shape.kind_map, hkind] at h
  obtain ⟨ts, hts, h⟩ := bind_ok_iff.1 h
  obtain ⟨body, hbody, h⟩ := bind_ok_iff.1 h
  exact ⟨body, bind_ok_iff.2 ⟨ts, hts, hbody⟩, (pure_ok_iff.1 h).symm⟩

/-- The analysis of a program opens the global scope, declares the names that are known to be there,
handles the statements, and closes the global scope. -/
lemma run_program (hroot : root.kind = .program) (h : root.scopeGraph sourceType globals = .ok g) :
    ∃ body a b c, root.bodyEvents sourceType globals = .ok body ∧
      (globals.map Event.declare).foldlM Analysis.step (Analysis.enter {} .global root) = .ok a ∧
      (Event.withinIf (sourceType == "module") .module root body).foldlM Analysis.step a = .ok b ∧
      b.leave = .ok c ∧ c.graph = g := by
  obtain ⟨es, c, hes, hc, hgraph⟩ := exists_run h
  obtain ⟨body, hbody, rfl⟩ := events_program hroot hes
  rw [Event.within, List.cons_append, List.foldlM_cons] at hc
  obtain ⟨start, hstart, hc⟩ := bind_ok_iff.1 hc
  cases hstart
  rw [List.foldlM_append, List.foldlM_append] at hc
  obtain ⟨b, hb, hc⟩ := bind_ok_iff.1 hc
  obtain ⟨a, ha, hb⟩ := bind_ok_iff.1 hb
  exact ⟨body, a, b, c, hbody, ha, hb, by simpa [Analysis.step] using hc, hgraph⟩

/-- The first scope of a program is its global scope. -/
lemma blocks_program (hroot : root.kind = .program)
    (h : root.scopeGraph sourceType globals = .ok g) :
    ∃ rest, g.blocks = (.global, root) :: rest := by
  obtain ⟨es, hes, hblocks⟩ := blocks_scopeGraph h
  obtain ⟨body, -, rfl⟩ := events_program hroot hes
  exact ⟨_, hblocks⟩

/-- The blocks of a program stand in each other as its scopes do, and the references of the program
in the blocks of their scopes. -/
lemma housed_scopeGraph (h : root.scopeGraph sourceType globals = .ok g) : g.Housed := by
  obtain ⟨es, b, hes, hb, rfl⟩ := exists_run h
  refine Analysis.housed_run (Event.nested_events hes) ?_ ⟨?_, ?_⟩ hb
  · intro i hi
    cases hi
  · intro i u o us hi
    cases hi
  · intro r hr
    cases hr

lemma exists_first (hroot : root.kind = .program)
    (h : root.scopeGraph sourceType globals = .ok g) :
    ∃ s, g.scopes[0]? = some s ∧ s.kind = .global := by
  obtain ⟨rest, hblocks⟩ := blocks_program hroot h
  have hzero : g.blocks[0]? = some (.global, root) := by rw [hblocks]; rfl
  rw [Graph.blocks_getElem?] at hzero
  obtain ⟨s, hs, he⟩ := Option.map_eq_some_iff.1 hzero
  exact ⟨s, hs, congrArg Prod.fst he⟩

/-- The scope that is taken for the global one of a program is global, and its block is a program in
the tree. -/
lemma global_program (hroot : root.kind = .program)
    (h : root.scopeGraph sourceType globals = .ok g) :
    ∃ s, g.scopes[g.global]? = some s ∧ s.kind = .global ∧ root.Contains s.block ∧
      s.block.kind = .program := by
  obtain ⟨s, hs, hkind⟩ : ∃ s, g.scopes[g.global]? = some s ∧ s.kind = .global := by
    unfold Graph.global
    split
    · rename_i s i hfind
      rw [List.findRev?_eq_find?_reverse] at hfind
      have hmem := List.mem_reverse.1 (List.mem_of_find?_eq_some hfind)
      exact ⟨s, List.mem_zipIdx_iff_getElem?.1 hmem, by simpa using List.find?_some hfind⟩
    · rename_i hnone
      rw [List.findRev?_eq_find?_reverse, List.find?_eq_none] at hnone
      obtain ⟨s, hs, hkind⟩ := exists_first hroot h
      have hmem : (s, 0) ∈ g.scopes.zipIdx.reverse :=
        List.mem_reverse.2 (List.mem_zipIdx_iff_getElem?.2 hs)
      exact absurd (by simp [hkind]) (hnone _ hmem)
  have hmem : (s.kind, s.block) ∈ g.blocks := List.mem_map_of_mem (List.mem_of_getElem? hs)
  obtain ⟨hin, hprogram⟩ := opens_scopes h _ hmem
  exact ⟨s, hs, hkind, hin, (hprogram hkind).1⟩

/-- Where no program stands inside another one, only the first scope is global. -/
lemma eq_zero_of_global {k : Ranging} (hroot : root.kind = .program)
    (hconforming : root.Conforming k) (hk : k.sole)
    (h : root.scopeGraph sourceType globals = .ok g) {i : Nat} {s : Scope}
    (hs : g.scopes[i]? = some s) (hkind : s.kind = .global) : i = 0 := by
  by_contra hi
  obtain ⟨es, hes, hblocks⟩ := blocks_scopeGraph h
  obtain ⟨body, hbody, rfl⟩ := events_program hroot hes
  have hget : g.blocks[i]? = some (s.kind, s.block) := by rw [Graph.blocks_getElem?, hs]; rfl
  have htail : (.global, s.block) ∈ g.blocks.tail := by
    obtain ⟨j, rfl⟩ := Nat.exists_eq_succ_of_ne_zero hi
    rw [← hkind]
    exact List.mem_of_getElem? (by rw [List.getElem?_tail]; exact hget)
  have hin : (.global, s.block) ∈ body.flatMap Event.opened := by
    rw [hblocks] at htail
    cases hmodule : sourceType == "module" <;>
      simpa [Event.within, Event.withinIf, Event.opened, hmodule] using htail
  -- A global scope further inside would be that of a program below the root.
  obtain ⟨c, hc, hcontains, hprogram⟩ := opens_bodyEvents body hbody _ hin
  obtain ⟨hkind, hgeneric⟩ := hprogram rfl
  obtain ⟨w, hw, hmem⟩ := Tree.exists_parent_of_contains_child hc hcontains
  exact absurd (((hconforming w hw).2.inner _ hmem).generic hk hkind) hgeneric

/-- Where no program stands inside another one, the global scope is the first one. -/
lemma global_eq_zero {k : Ranging} (hroot : root.kind = .program) (hconforming : root.Conforming k)
    (hk : k.sole) (h : root.scopeGraph sourceType globals = .ok g) : g.global = 0 := by
  obtain ⟨s, hs, hkind, -, -⟩ := global_program hroot h
  exact eq_zero_of_global hroot hconforming hk h hs hkind

/-- Where no program stands inside another one, the global scope is that of the root. -/
lemma block_global {k : Ranging} (hroot : root.kind = .program) (hconforming : root.Conforming k)
    (hk : k.sole) (h : root.scopeGraph sourceType globals = .ok g) :
    ∃ s, g.scopes[g.global]? = some s ∧ s.block = root := by
  obtain ⟨rest, hblocks⟩ := blocks_program hroot h
  have hfirst : g.blocks[0]? = some (.global, root) := by rw [hblocks]; rfl
  rw [Graph.blocks_getElem?] at hfirst
  obtain ⟨s, hs, he⟩ := Option.map_eq_some_iff.1 hfirst
  rw [global_eq_zero hroot hconforming hk h]
  exact ⟨s, hs, congrArg Prod.snd he⟩

end Node

end RefFlow
