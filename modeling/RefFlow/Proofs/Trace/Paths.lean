import RefFlow.Proofs.Trace.Globals

/-!
# Paths of what is reported

A report carries the path of names by which the value was reached, and the mark of the trace map
that asked for it.  Path and map are led on side by side, through imports, variables, members and
patterns.  `tracked_sound` says that they never come apart, and that the path is that of the callee.

* On the side of the map, a path of names leads to a member (`TraceMap.descend`).  A module that is
  not described by its exports has one export only, its default one, which is the value that the map
  describes (`TraceMap.importedAt`).
* On the side of the program, `Arrives` says where a path of names is followed to: from where the
  library comes into the program, by reads of variables, by members, by assignments and through
  patterns.  The rules do not mention the map.

Both sides are read off the search: `Marked` collects what holds of path and map, and `Placed` where
the path has been followed to.
-/

namespace RefFlow

open Fallible Search

namespace TraceMap

variable {map next sub : TraceMap} {key name : String} {path : List String}

/-- The path leads from the map to another one: its first name is that of a member, and the others
lead on from there. -/
def LeadsTo (map : TraceMap) (path : List String) (sub : TraceMap) : Prop :=
  ∃ name next rest, (name, next) ∈ map.members ∧ path = name :: rest ∧
    next.descend rest = some sub

/-- The map of what a module exports.  A module that is not described by its exports exports what is
described, by default. -/
def exported (map : TraceMap) : TraceMap :=
  if map.listsExports then map else empty.insert Trace.defaultName map

/-- The map that the path of an import leads to.  The first name is that of a module.  If the module
is not described by its exports, then the second name, if there is one, must be that of the default
export, and stands for the module itself. -/
def importedAt (map : TraceMap) : List String → Option TraceMap
  | [] => none
  | name :: rest => match map.get? name with
    | none => none
    | some next =>
      if next.listsExports then next.descend rest
      else match rest with
        | [] => some next
        | key :: rest => if key = Trace.defaultName then next.descend rest else none

/-- A mark counts if it is there and holds. -/
lemma mark_eq_some_iff {use : Use} {info : Info} :
    map.mark use = some info ↔ map.marks.get use = some info ∧ info.holds = true :=
  Option.filter_eq_some_iff

lemma descend_singleton (map : TraceMap) (key : String) : map.descend [key] = map.get? key := by
  unfold descend
  cases map.get? key <;> rfl

lemma descend_append (map : TraceMap) (path rest : List String) :
    map.descend (path ++ rest) = (map.descend path).bind (·.descend rest) := by
  induction path generalizing map with
  | nil => rfl
  | cons name path ih =>
    rw [List.cons_append, descend, descend]
    cases map.get? name with
    | none => rfl
    | some next => exact ih next

/-- One more name leads to a member of what the names before lead to. -/
lemma descend_concat (h : map.descend path = some sub) (hkey : sub.get? key = some next) :
    map.descend (path ++ [key]) = some next := by
  rw [descend_append, h, Option.bind_some, descend_singleton, hkey]

lemma get?_insert_empty (name : String) (next : TraceMap) (key : String) :
    (empty.insert name next).get? key = if name == key then some next else none :=
  Table.get?_set [] name key next

/-- What is exported is found where the import leads to, unless it is the module as a whole. -/
lemma importedAt_of_descend (hname : map.get? name = some next)
    (h : next.exported.descend path = some sub) (hsub : sub = next.exported → sub = next) :
    map.importedAt (name :: path) = some sub := by
  rw [importedAt, hname]
  unfold exported at h hsub
  dsimp only
  split
  · rename_i hexports
    rwa [if_pos hexports] at h
  · rename_i hexports
    rw [if_neg hexports] at h hsub
    cases path with
    | nil =>
      obtain rfl := Option.some.inj h
      rw [hsub rfl]
    | cons key rest =>
      rw [descend, get?_insert_empty] at h
      by_cases hkey : Trace.defaultName = key
      · subst hkey
        simpa using h
      · simp [hkey] at h

end TraceMap

namespace Trace

variable {p : Program} {path : List String} {map : TraceMap}

/-! ## The way of a path through the program -/

/-- The second node is the first one with type operators or chains around it. -/
def Wrapped (p : Program) : Node → Node → Prop :=
  Relation.ReflTransGen fun n q => p.parent? n = some q ∧ isTransparent q.kind = true

/-- The path of names is followed to the place, from where the library comes into the program. -/
inductive Arrives (p : Program) (start : List String → Carrier → Prop) :
    List String → Carrier → Prop
  | start {path : List String} {c : Carrier} : start path c → Arrives p start path c
  /-- From a variable to where it is read. -/
  | read {path : List String} {v : VariableId} {r : Reference} (reference : r ∈ p.referencesTo v)
      (reads : r.access.reads = true) : Arrives p start path (.holder v) →
      Arrives p start path (.expression r.identifier)
  /-- From an object to the member of the next name. -/
  | member {path : List String} {e m q : Node} {key : String} (wrapped : Wrapped p e m)
      (parent : p.parent? m = some q) (isMember : q.kind = .memberExpression)
      (object : q.child .object = .ok (some m)) (named : q.staticName = .ok (some key)) :
      Arrives p start path (.expression e) → Arrives p start (path ++ [key]) (.expression q)
  /-- From the right side of an assignment to the assignment. -/
  | assignment {path : List String} {e m q : Node} (wrapped : Wrapped p e m)
      (parent : p.parent? m = some q) (isAssignment : q.kind = .assignmentExpression)
      (right : q.child .right = .ok (some m)) :
      Arrives p start path (.expression e) → Arrives p start path (.expression q)
  /-- From what is assigned, or a default or initial value, to the target. -/
  | bound {path : List String} {e m q t : Node} {f g : Field} (wrapped : Wrapped p e m)
      (parent : p.parent? m = some q) (binds : bindingParts q.kind = some (f, g))
      (value : q.child f = .ok (some m)) (target : q.child g = .ok (some t)) :
      Arrives p start path (.expression e) → Arrives p start path (.target t)
  /-- From a target with a default to its left side. -/
  | default {path : List String} {t l : Node} (isDefault : t.kind = .assignmentPattern)
      (left : t.child .left = .ok (some l)) :
      Arrives p start path (.target t) → Arrives p start path (.target l)
  /-- From an object pattern to the target of the next name. -/
  | property {path : List String} {t m u : Node} {ts : List (Option Node)} {key : String}
      (isPattern : t.kind = .objectPattern) (properties : t.items .properties = .ok ts)
      (mem : some m ∈ ts) (isProperty : m.kind = .property)
      (named : m.staticName = .ok (some key)) (value : m.child .value = .ok (some u)) :
      Arrives p start path (.target t) → Arrives p start (path ++ [key]) (.target u)
  /-- From a name to the variable that it means. -/
  | name {path : List String} {t : Node} {v : VariableId} (isIdentifier : t.kind = .identifier)
      (means : p.find t = .ok (some v)) :
      Arrives p start path (.target t) → Arrives p start path (.holder v)

/-- The callee of the node is what the path is followed to, or that with type operators or chains
around it. -/
def CalleeAt (p : Program) (start : List String → Carrier → Prop) (path : List String) (q : Node) :
    Prop :=
  ∃ e c, Arrives p start path (.expression e) ∧ Wrapped p e c ∧ q.child .callee = .ok (some c)

/-- Calls and constructions are reported on calls and constructions of what the path is followed
to. -/
def Tracked.Placed (p : Program) (start : List String → Carrier → Prop) (t : Tracked) : Prop :=
  match t.use with
  | .read => True
  | .call => t.node.kind = .callExpression ∧ CalleeAt p start t.path t.node
  | .construct => t.node.kind = .newExpression ∧ CalleeAt p start t.path t.node

/-- The path is followed to what is reported, or to the variable that is reached. -/
def Outcome.Placed (p : Program) (start : List String → Carrier → Prop) : Outcome → Prop
  | .report t => t.Placed p start
  | .reach v path _ => Arrives p start path (.holder v)

section Placed

variable {start : List String → Carrier → Prop}

lemma placed_reportUse {n : Node} {use : Use}
    (h : ∀ info, (⟨n, path, use, info⟩ : Tracked).Placed p start) :
    All (Tracked.Placed p start) (reportUse n path use map) := by
  unfold reportUse
  split
  · exact all_pure (h _)
  · exact all_done

lemma placed_report {n : Node} {use : Use}
    (h : ∀ info, (⟨n, path, use, info⟩ : Tracked).Placed p start) :
    All (Outcome.Placed p start) (.report <$> reportUse n path use map) :=
  (placed_reportUse h).map fun _ ht => ht

lemma placed_reads {n : Node} : All (Tracked.Placed p start) (reportUse n path .read map) :=
  placed_reportUse fun _ => trivial

lemma placed_read {n : Node} :
    All (Outcome.Placed p start) (.report <$> reportUse n path .read map) :=
  placed_reads.map fun _ ht => ht

/-! ### Targets -/

lemma placed_memberArrivals {t m : Node} {ts : List (Option Node)}
    (isPattern : t.kind = .objectPattern) (properties : t.items .properties = .ok ts)
    (mem : some m ∈ ts)
    (ih : ∀ u, m.Contains u → ∀ {path : List String} {map : TraceMap},
      Arrives p start path (.target u) →
        All (Outcome.Placed p start) (arrivals p (some u) path map))
    (h : Arrives p start path (.target t)) :
    All (Outcome.Placed p start) (memberArrivals p path map (some m)) := by
  rw [memberArrivals]
  split
  · rename_i hkind
    refine all_liftM_bind fun key hkey => ?_
    cases key with
    | none => exact all_done
    | some key =>
      dsimp only
      split
      · exact all_done
      · refine placed_read.append (all_liftM_bind fun o ho => ?_)
        cases o with
        | none => exact all_done
        | some u =>
          refine ih u (Tree.contains_of_child ho) ?_
          exact .property isPattern properties mem (eq_of_beq hkind) hkey ho h
  · exact all_done

lemma placed_arrivals (o : Option Node) (h : ∀ t ∈ o, Arrives p start path (.target t)) :
    All (Outcome.Placed p start) (arrivals p o path map) := by
  cases o with
  | none => exact all_done
  | some t =>
    have h := h t rfl
    induction t using Tree.strongInduction generalizing path map with
    | step t ih =>
      rw [arrivals_some]
      split
      · rename_i hkind
        refine all_liftM_bind fun v hv => ?_
        cases v with
        | none => exact all_done
        | some v => exact all_pure (.name hkind hv h)
      · rename_i hkind
        refine all_liftM_bind fun ts hts => ?_
        refine (all_ofList (P := (· ∈ ts)) fun o ho => ho).bind fun o ho => ?_
        cases o with
        | none => exact all_broken
        | some m =>
          refine placed_memberArrivals hkind hts ho (fun u hu _ _ hu' => ?_) h
          exact ih m (Shape.mem_children_of_items hts ho) u hu (by simpa using hu') hu'
      · rename_i hkind
        refine all_liftM_bind fun o ho => ?_
        cases o with
        | none => exact all_done
        | some l =>
          have hl : Arrives p start path (.target l) := .default hkind ho h
          exact ih l (Shape.mem_children_of_child ho) l (.refl l) (by simpa using hl) hl
      · exact all_done

/-! ### Expressions -/

/-- What is bound to a target. -/
lemma placed_bound {e m q : Node} {f g : Field} (h : Arrives p start path (.expression e))
    (wrapped : Wrapped p e m) (parent : p.parent? m = some q)
    (binds : bindingParts q.kind = some (f, g)) (value : q.child f = .ok (some m)) {o : Option Node}
    (target : q.child g = .ok o) : All (Outcome.Placed p start) (arrivals p o path map) := by
  refine placed_arrivals o ?_
  rintro t rfl
  exact .bound wrapped parent binds value target h

lemma placed_consequences {e m : Node} {above : List Node}
    (h : Arrives p start path (.expression e)) (wrapped : Wrapped p e m) (hm : p.Has m)
    (habove : p.above m = above) :
    All (Outcome.Placed p start) (consequences p path map m above) := by
  induction above generalizing e m path map with
  | nil => exact all_done
  | cons q rest ih =>
    obtain ⟨hq, hrest, -⟩ := hm.above_eq_cons habove
    have parent : p.parent? m = some q := by
      rw [Program.parent?, habove]
      rfl
    rw [consequences]
    split
    · rename_i htransparent
      exact ih h (wrapped.tail ⟨parent, htransparent⟩) hq hrest
    · split
      -- The member of the next name goes on.
      · rename_i hkind
        refine all_liftM_bind fun o ho => ?_
        split
        · rename_i hnode
          obtain rfl := (hm.isNode_iff hq ho).1 hnode
          refine all_liftM_bind fun key hkey => ?_
          cases key with
          | none => exact all_done
          | some key =>
            dsimp only
            split
            · exact all_done
            · have hmember := Arrives.member wrapped parent hkind ho hkey h
              exact placed_read.append (ih hmember .refl hq hrest)
        · exact all_done
      -- The value is called.
      · rename_i hkind
        refine all_liftM_bind fun o ho => ?_
        split
        · rename_i hnode
          obtain rfl := (hm.isNode_iff hq ho).1 hnode
          exact placed_report fun _ => ⟨hkind, e, m, h, wrapped, ho⟩
        · exact all_done
      · rename_i hkind
        refine all_liftM_bind fun o ho => ?_
        split
        · rename_i hnode
          obtain rfl := (hm.isNode_iff hq ho).1 hnode
          exact placed_report fun _ => ⟨hkind, e, m, h, wrapped, ho⟩
        · exact all_done
      -- The value arrives at a target.
      · rename_i hkind
        refine all_liftM_bind fun o ho => ?_
        split
        · rename_i hnode
          obtain rfl := (hm.isNode_iff hq ho).1 hnode
          have hassignment := Arrives.assignment wrapped parent hkind ho h
          refine all_liftM_bind fun t ht => All.append ?_ (ih hassignment .refl hq hrest)
          exact placed_bound h wrapped parent (by rw [hkind]; rfl) ho ht
        · exact all_done
      · rename_i hkind
        refine all_liftM_bind fun o ho => ?_
        split
        · rename_i hnode
          obtain rfl := (hm.isNode_iff hq ho).1 hnode
          refine all_liftM_bind fun t ht => ?_
          exact placed_bound h wrapped parent (by rw [hkind]; rfl) ho ht
        · exact all_done
      · rename_i hkind
        refine all_liftM_bind fun o ho => ?_
        split
        · rename_i hnode
          obtain rfl := (hm.isNode_iff hq ho).1 hnode
          refine all_liftM_bind fun t ht => ?_
          exact placed_bound h wrapped parent (by rw [hkind]; rfl) ho ht
        · exact all_done
      · exact all_done

lemma placed_occurrence {e : Node} (h : Arrives p start path (.expression e)) (he : p.Has e) :
    All (Outcome.Placed p start) (occurrence p e path map) :=
  placed_consequences h .refl he rfl

/-! ### Variables -/

lemma placed_variableOutcomes {v : VariableId} (h : Arrives p start path (.holder v))
    (reportReads : Bool) :
    All (Outcome.Placed p start) (variableOutcomes p v path map reportReads) := by
  refine (all_ofList (P := fun r => r ∈ p.referencesTo v ∧ r.access.reads = true)
    fun r hr => List.mem_filter.1 hr).bind ?_
  rintro r ⟨reference, reads⟩
  obtain ⟨hhas, -⟩ := Program.has_of_mem_referencesTo reference
  refine All.append ?_ (placed_occurrence (.read reference reads h) hhas)
  split
  · exact placed_read
  · exact all_done

lemma placed_followVariable (budget : Nat) (stack : List VariableId) {v : VariableId}
    (h : Arrives p start path (.holder v)) (reportReads : Bool) :
    All (Tracked.Placed p start) (followVariable p budget stack v path map reportReads) := by
  induction budget generalizing stack v path map reportReads with
  | zero => exact all_done
  | succ n ih =>
    rw [followVariable]
    split
    · exact all_done
    · refine (placed_variableOutcomes h reportReads).bind fun o ho => ?_
      cases o with
      | report t => exact all_pure ho
      | reach w path map => exact ih _ ho false

lemma placed_followOutcome {o : Outcome} (h : o.Placed p start) :
    All (Tracked.Placed p start) (followOutcome p o) := by
  cases o with
  | report t => exact all_pure h
  | reach v path map => exact placed_followVariable _ [] h false

end Placed

/-! ## Where the library comes into the program -/

/-- What a specifier takes from a module: an export of some name, the default export, or the module
as a whole. -/
inductive Takes (specifier : Node) : List String → Prop
  | named {name : String} (isNamed : specifier.kind = .importSpecifier)
      (imported : importedName specifier = .ok (some name)) : Takes specifier [name]
  | byDefault (isDefault : specifier.kind = .importDefaultSpecifier) : Takes specifier [defaultName]
  | whole (isNamespace : specifier.kind = .importNamespaceSpecifier) : Takes specifier []

/-- The node is an import of the given module, at the top of the program. -/
structure ImportsFrom (p : Program) (module : String) (d : Node) : Prop where
  top : ∃ s ts, p.globalScope = .ok s ∧ s.block.items .body = .ok ts ∧ some d ∈ ts
  isImport : d.kind = .importDeclaration
  source : ∃ n, d.child .source = .ok (some n) ∧ n.text? .value = .ok (some module)

/-- The variable is bound by an import, to what a specifier takes from a module. -/
inductive Imported (p : Program) : List String → Carrier → Prop
  | specifier {module : String} {d specifier name : Node} {ts : List (Option Node)}
      {v : VariableId} {rest : List String} (declaration : ImportsFrom p module d)
      (specifiers : d.items .specifiers = .ok ts) (mem : some specifier ∈ ts)
      (takes : Takes specifier rest) (binds : specifier.child .localName = .ok (some name))
      (means : p.find name = .ok (some v)) : Imported p (module :: rest) (.holder v)

/-- The name is that of a variable of the global scope, or is not resolved. -/
inductive Ambient (p : Program) : List String → Carrier → Prop
  | declared {s : Scope} {name : String} (scope : p.globalScope = .ok s)
      (declares : s.declares name = true) : Ambient p [name] (.holder ⟨p.global, name⟩)
  | unresolved {s : Scope} {r : Reference} (scope : p.globalScope = .ok s)
      (loose : r ∈ p.graph.referencesOf s.through) (reads : r.access.reads = true) :
      Ambient p [r.name] (.expression r.identifier)

lemma mem_reportUse {n : Node} {use : Use} {t : Tracked}
    (h : t ∈ (reportUse n path use map).toList) :
    t.node = n ∧ t.path = path ∧ t.use = use ∧ map.mark use = some t.info := by
  unfold reportUse at h
  split at h
  · rename_i info hinfo
    obtain rfl := List.mem_singleton.1 h
    exact ⟨rfl, rfl, rfl, hinfo⟩
  · cases h

lemma mem_members {f : Field} {d n : Node} (h : n ∈ (members (d.items f)).toList) :
    ∃ ts, d.items f = .ok ts ∧ some n ∈ ts := by
  obtain ⟨ts, hts, h⟩ := exists_of_mem_liftM_bind h
  obtain ⟨o, ho, h⟩ := exists_of_mem_toList_bind h
  rw [toList_ofList] at ho
  cases o with
  | none => cases h
  | some m =>
    obtain rfl := List.mem_singleton.1 h
    exact ⟨ts, hts, ho⟩

lemma mem_followBinding {specifier : Node} {t : Tracked}
    (h : t ∈ (followBinding p specifier path map).toList) :
    ∃ name v, specifier.child .localName = .ok (some name) ∧ p.find name = .ok (some v) ∧
      t ∈ (follow p v path map false).toList := by
  obtain ⟨name, hname, h⟩ := exists_of_mem_liftM_bind h
  cases name with
  | none => cases h
  | some name =>
    obtain ⟨v, hv, h⟩ := exists_of_mem_liftM_bind h
    cases v with
    | none => cases h
    | some v => exact ⟨name, v, hname, hv, h⟩

/-- What is reported for a specifier: that it is there, or a use of the variable that it binds. -/
lemma mem_followSpecifier {specifier : Node} {t : Tracked}
    (h : t ∈ (followSpecifier p specifier path map).toList) :
    ∃ rest sub, Takes specifier rest ∧ map.descend rest = some sub ∧
      (t.path = path ++ rest ∧ t.use = .read ∧ sub.mark .read = some t.info ∨
        ∃ name v, specifier.child .localName = .ok (some name) ∧ p.find name = .ok (some v) ∧
          t ∈ (follow p v (path ++ rest) sub false).toList) := by
  have hexport {name : String} (htakes : Takes specifier [name])
      (h : t ∈ (followExport p specifier (some name) path map).toList) :
      ∃ rest sub, Takes specifier rest ∧ map.descend rest = some sub ∧
        (t.path = path ++ rest ∧ t.use = .read ∧ sub.mark .read = some t.info ∨
          ∃ name v, specifier.child .localName = .ok (some name) ∧ p.find name = .ok (some v) ∧
            t ∈ (follow p v (path ++ rest) sub false).toList) := by
    unfold followExport at h
    dsimp only at h
    split at h
    · cases h
    · rename_i sub hsub
      refine ⟨[name], sub, htakes, (map.descend_singleton name).trans hsub, ?_⟩
      rcases mem_toList_append h with h | h
      · obtain ⟨-, hpath, huse, hmark⟩ := mem_reportUse h
        exact .inl ⟨hpath, huse, hmark⟩
      · exact .inr (mem_followBinding h)
  unfold followSpecifier at h
  split at h
  · rename_i hkind
    obtain ⟨name, hname, h⟩ := exists_of_mem_liftM_bind h
    cases name with
    | none => cases h
    | some name => exact hexport (.named hkind hname) h
  · rename_i hkind
    exact hexport (.byDefault hkind) h
  · rename_i hkind
    refine ⟨[], map, .whole hkind, rfl, .inr ?_⟩
    rw [List.append_nil]
    exact mem_followBinding h
  · cases h

/-- What is reported for the imports of a program: that a module is imported, or something about one
of the specifiers. -/
lemma mem_imports {t : Tracked} (h : t ∈ (imports p map).toList) :
    ∃ module d next, ImportsFrom p module d ∧ map.get? module = some next ∧
      (t.path = [module] ∧ t.use = .read ∧ next.mark .read = some t.info ∨
        ∃ ts specifier, d.items .specifiers = .ok ts ∧ some specifier ∈ ts ∧
          t ∈ (followSpecifier p specifier [module] next.exported).toList) := by
  obtain ⟨s, hs, h⟩ := exists_of_mem_liftM_bind h
  obtain ⟨d, hd, h⟩ := exists_of_mem_toList_bind h
  obtain ⟨body, hbody, hmem⟩ := mem_members hd
  unfold followImport at h
  split at h
  · rename_i hkind
    obtain ⟨source, hsource, h⟩ := exists_of_mem_liftM_bind h
    cases source with
    | none => cases h
    | some source =>
      obtain ⟨module, hmodule, h⟩ := exists_of_mem_liftM_bind h
      cases module with
      | none => cases h
      | some module =>
        dsimp only at h
        split at h
        · cases h
        · rename_i next hnext
          refine ⟨module, d, next, ?_, hnext, ?_⟩
          · exact ⟨⟨s, body, hs, hbody, hmem⟩, eq_of_beq hkind, source, hsource, hmodule⟩
          rcases mem_toList_append h with h | h
          · obtain ⟨-, hpath, huse, hmark⟩ := mem_reportUse h
            exact .inl ⟨hpath, huse, hmark⟩
          · obtain ⟨specifier, hspecifier, h⟩ := exists_of_mem_toList_bind h
            obtain ⟨ts, hts, hmem⟩ := mem_members hspecifier
            exact .inr ⟨ts, specifier, hts, hmem, h⟩
  · cases h

/-! ## What is asked for -/

/-- The path starts with the name, and goes on to the map as the names of the first map lead. -/
def Below (map : TraceMap) (name : String) (path : List String) (sub : TraceMap) : Prop :=
  ∃ rest, path = name :: rest ∧ map.descend rest = some sub

lemma inherited_below (map : TraceMap) (name : String) : Inherited (Below map name) := by
  rintro path sub next key hkey ⟨rest, rfl, hrest⟩
  exact ⟨rest ++ [key], rfl, TraceMap.descend_concat hrest hkey⟩

/-- The path of what is reported for a global object leads to a map that asks for it. -/
lemma marked_of_mem_globals {t : Tracked} (h : t ∈ (globals p map).toList) :
    ∃ sub, map.LeadsTo t.path sub ∧ sub.mark t.use = some t.info := by
  obtain ⟨s, hs, -⟩ := exists_of_mem_liftM_bind h
  obtain ⟨name, next, hmember, ht⟩ := mem_globals hs h
  have hstart : Below next name [name] next := ⟨[], rfl, rfl⟩
  obtain ⟨sub, ⟨rest, hpath, hrest⟩, hmark⟩ :=
    marked_followGlobal (inherited_below next name) s hstart t ht
  exact ⟨sub, ⟨name, next, rest, hmember, hpath, hrest⟩, hmark⟩

/-- What asks for a use is no module that stands for its default export. -/
lemma eq_of_mark_exported {next : TraceMap} {use : Use} {info : Info}
    (h : next.exported.mark use = some info) : next.exported = next := by
  unfold TraceMap.exported at h ⊢
  split
  · rfl
  · rename_i hexports
    rw [if_neg hexports] at h
    cases use <;> cases h

/-- The path of what is reported for an import leads to a map that asks for it. -/
lemma marked_of_mem_imports {t : Tracked} (h : t ∈ (imports p map).toList) :
    ∃ sub, map.importedAt t.path = some sub ∧ sub.mark t.use = some t.info := by
  obtain ⟨module, d, next, -, hnext, h⟩ := mem_imports h
  rcases h with ⟨hpath, huse, hmark⟩ | ⟨ts, specifier, -, -, h⟩
  · refine ⟨next, ?_, by rw [huse]; exact hmark⟩
    rw [hpath, TraceMap.importedAt, hnext]
    dsimp only
    split <;> rfl
  · obtain ⟨rest, sub, -, hsub, h⟩ := mem_followSpecifier h
    have hmarked : t.Marked (Below next.exported module) := by
      rcases h with ⟨hpath, huse, hmark⟩ | ⟨name, v, -, -, h⟩
      · exact ⟨sub, ⟨rest, hpath, hsub⟩, by rw [huse]; exact hmark⟩
      · have hstart : Below next.exported module ([module] ++ rest) sub := ⟨rest, rfl, hsub⟩
        exact marked_followVariable (inherited_below _ _) _ [] v false hstart t h
    obtain ⟨sub', ⟨rest', hpath, hrest'⟩, hmark⟩ := hmarked
    refine ⟨sub', ?_, hmark⟩
    rw [hpath]
    refine TraceMap.importedAt_of_descend hnext hrest' ?_
    rintro rfl
    exact eq_of_mark_exported hmark

/-! ## Where the path has been followed to -/

lemma placed_of_mem_globals {t : Tracked} (h : t ∈ (globals p map).toList) :
    t.Placed p (Ambient p) := by
  obtain ⟨s, hs, -⟩ := exists_of_mem_liftM_bind h
  obtain ⟨name, next, -, ht⟩ := mem_globals hs h
  have hall : All (Tracked.Placed p (Ambient p)) (followGlobal p s name next) := by
    dsimp only [followGlobal]
    split
    · exact all_done
    · refine All.append ?_ ?_
      · split
        · rename_i hdeclares
          exact placed_followVariable _ [] (.start (.declared hs hdeclares)) true
        · exact all_done
      · refine (all_ofList (P := fun r => r ∈ p.graph.referencesOf s.through ∧ r.name = name ∧
          r.access.reads = true) fun r hr => ?_).bind ?_
        · obtain ⟨hloose, hr⟩ := List.mem_filter.1 hr
          rw [Bool.and_eq_true, beq_iff_eq] at hr
          exact ⟨hloose, hr⟩
        · rintro r ⟨hloose, rfl, hreads⟩
          have hmem := Program.mem_references_of_mem_referencesOf hloose
          obtain ⟨hhas, -⟩ := Program.has_of_mem_references hmem
          refine placed_reads.append ?_
          exact (placed_occurrence (.start (.unresolved hs hloose hreads)) hhas).bind
            fun o ho => placed_followOutcome ho
  exact hall t ht

lemma placed_of_mem_imports {t : Tracked} (h : t ∈ (imports p map).toList) :
    t.Placed p (Imported p) := by
  have hread (huse : t.use = .read) : t.Placed p (Imported p) := by
    rw [Tracked.Placed, huse]
    trivial
  obtain ⟨module, d, next, hdeclaration, -, h⟩ := mem_imports h
  rcases h with ⟨-, huse, -⟩ | ⟨ts, specifier, hts, hmem, h⟩
  · exact hread huse
  · obtain ⟨rest, sub, htakes, -, h⟩ := mem_followSpecifier h
    rcases h with ⟨-, huse, -⟩ | ⟨name, v, hname, hv, h⟩
    · exact hread huse
    · have hstart : Arrives p (Imported p) ([module] ++ rest) (.holder v) :=
        .start (.specifier hdeclaration hts hmem htakes hname hv)
      exact placed_followVariable _ [] hstart false t h

/-- **Reports are sound.**  The path of every report leads from the trace map to a map with a mark
for the use that is reported, the mark holds, and the report carries it.  If an import leads to a
module that is not described by its exports, the second name is that of the default export and
stands for the module.  A call is reported on a call and a construction on a construction, whose
callee is what the path is followed to, or that with type operators or chains around it. -/
theorem tracked_sound (p : Program) (map : TraceMap) :
    (∀ t ∈ (imports p map).toList,
      (∃ sub, map.importedAt t.path = some sub ∧ sub.marks.get t.use = some t.info ∧
        t.info.holds = true) ∧ t.Placed p (Imported p)) ∧
    ∀ t ∈ (globals p map).toList,
      (∃ sub, map.LeadsTo t.path sub ∧ sub.marks.get t.use = some t.info ∧
        t.info.holds = true) ∧ t.Placed p (Ambient p) := by
  refine ⟨fun t ht => ⟨?_, placed_of_mem_imports ht⟩, fun t ht => ⟨?_, placed_of_mem_globals ht⟩⟩
  · obtain ⟨sub, hsub, hmark⟩ := marked_of_mem_imports ht
    exact ⟨sub, hsub, TraceMap.mark_eq_some_iff.1 hmark⟩
  · obtain ⟨sub, hsub, hmark⟩ := marked_of_mem_globals ht
    exact ⟨sub, hsub, TraceMap.mark_eq_some_iff.1 hmark⟩

/-! ### A default import that is taken apart -/

/-- The program `import lib from 'lib';const {build:b}=lib;b!();Vue.ref(0)`. -/
def takenApart : Except Fault Program :=
  Program.analyze
      ⟨"import lib from 'lib';const \x7bbuild:b\x7d=lib;b!();Vue.ref(0)".toUTF8.toList⟩ {} <|
    .node "program" none 0 57
      [.node "import_statement" none 0 22
        [.node "import_clause" none 7 10 [.identifier none 7 10],
         .node "string" (some "source") 16 21 []],
       .node "lexical_declaration" none 22 42
        [.token "const" (some "kind") 22 27,
         .node "variable_declarator" none 28 41
          [.node "object_pattern" (some "name") 28 37
            [.node "pair_pattern" none 29 36
              [.node "property_identifier" (some "key") 29 34 [],
               .identifier (some "value") 35 36]],
           .identifier (some "value") 38 41]],
       .node "expression_statement" none 42 47
        [.node "call_expression" none 42 46
          [.node "non_null_expression" (some "function") 42 44 [.identifier none 42 43],
           .node "arguments" (some "arguments") 44 46 []]],
       .node "expression_statement" none 47 57
        [.node "call_expression" none 47 57
          [.node "member_expression" (some "function") 47 54
            [.identifier (some "object") 47 50,
             .node "property_identifier" (some "property") 51 54 []],
           .node "arguments" (some "arguments") 54 57 [.node "number" none 55 56 []]]]]

/-- The map of a module `lib` that is described by its value, with a function `build`. -/
def builderMap : TraceMap := .mk {} [("lib", .mk {} [("build", functionMap)])]

/-- The call `b!()` is found under the default export of the module, and the call `Vue.ref(0)` under
the global name. -/
theorem tracked_takenApart : ∃ p t u, takenApart = .ok p ∧
    t ∈ (imports p builderMap).toList ∧ t.path = ["lib", "default", "build"] ∧ t.use = .call ∧
    (∃ sub, builderMap.importedAt t.path = some sub ∧ sub.marks.get t.use = some t.info ∧
      t.info.holds = true) ∧
    t.Placed p (Imported p) ∧
    u ∈ (globals p libraryMap).toList ∧ u.path = ["Vue", "ref"] ∧ u.use = .call ∧
    (∃ sub, libraryMap.LeadsTo u.path sub ∧ sub.marks.get u.use = some u.info ∧
      u.info.holds = true) ∧
    u.Placed p (Ambient p) := by
  have hall : takenApart.toOption.any fun p =>
      ((imports p builderMap).toList.any fun t =>
        t.path == ["lib", "default", "build"] && t.use == .call) &&
      (globals p libraryMap).toList.any fun u => u.path == ["Vue", "ref"] && u.use == .call := by
    decide +kernel
  obtain ⟨p, hp, hall⟩ := exists_ok_of_any hall
  obtain ⟨himport, hglobal⟩ := Bool.and_eq_true_iff.1 hall
  obtain ⟨t, ht, htracked⟩ := List.any_eq_true.1 himport
  obtain ⟨u, hu, hutracked⟩ := List.any_eq_true.1 hglobal
  simp only [Bool.and_eq_true, beq_iff_eq] at htracked hutracked
  obtain ⟨himports, -⟩ := tracked_sound p builderMap
  obtain ⟨hasked, hplaced⟩ := himports t ht
  obtain ⟨huasked, huplaced⟩ := (tracked_sound p libraryMap).2 u hu
  exact ⟨p, t, u, hp, ht, htracked.1, htracked.2, hasked, hplaced, hu, hutracked.1, hutracked.2,
    huasked, huplaced⟩

end Trace

end RefFlow
