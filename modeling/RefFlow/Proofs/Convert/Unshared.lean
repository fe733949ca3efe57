import RefFlow.Proofs.Concrete
import RefFlow.Proofs.Convert.Making

/-!
# No node stands in two places

Rules read one construct several times.  The name in a shorthand property is its key and its value;
an imported name without an alias is the name outside and inside; a default in an object pattern
stands for its key and for the pattern.  If a rule put the node that it made for one of them in both
places, the result would not be a tree, and its numbers would not say where a node stands.

That this does not happen is shown rule by rule.  A reading is *fresh* if it spends nothing but
nodes that it makes itself, and a rule that reads fresh components is fresh: whatever it puts in a
part is the result of a step of its own, and it puts it in one part only (`Making.spends_make`).  So
no label is given to two nodes of a draft (`distinct_draft`), and the nodes of the tree that is
built have the numbers from zero on, one after the other (`ids_build`).
-/

namespace RefFlow

open Fallible
open Making hiding bind_ok_iff map_ok_iff

/-! ## Fresh readings -/

/-- Whatever a construct reads as, it is made for this reading. -/
structure Reading.Fresh (r : Reading) : Prop where
  value : Spends 0 r.value
  target : Spends 0 r.target
  name : Spends 0 r.name
  operands : Spends 0 r.operands

/-- The readings of the construct and of all constructs below it are fresh. -/
def Parsed.Fresh (c : Parsed) : Prop := ∀ u, Concrete.Contains c u → u.label.Fresh

/-- The readings of all constructs below the layer are fresh. -/
def Layer.Fresh (y : Layer Parsed) : Prop := ∀ c ∈ y.children, Parsed.Fresh c

namespace Parsed.Fresh

variable {c : Parsed} (h : Fresh c)

include h

lemma reading : c.label.Fresh := h c .refl

lemma layer : c.layer.Fresh := fun _ hd u hu => h u (.head hd hu)

end Parsed.Fresh

namespace Layer.Fresh

variable {y : Layer Parsed} (hy : y.Fresh) {c : Parsed}

include hy

lemma child {role : String} (h : y.child? role = some c) : Parsed.Fresh c := hy c (mem_of_child? h)

lemma constructs (h : c ∈ y.constructs) : Parsed.Fresh c := hy c (mem_of_constructs h)

lemma parts (h : c ∈ y.parts) : Parsed.Fresh c := hy c (mem_of_parts h)

lemma first (h : y.first? = some c) : Parsed.Fresh c := hy c (mem_of_first? h)

lemma construct {symbol : String} (h : y.construct? symbol = some c) : Parsed.Fresh c :=
  hy c (mem_of_construct? h)

end Layer.Fresh

namespace Convert

variable {i : Input} {y : Layer Parsed} {c : Parsed} {stock : Multiset Nat}

/-! ### Components -/

lemma spends_value {o : Option Parsed} (h : ∀ c ∈ o, Parsed.Fresh c) : Spends 0 (value o) := by
  cases o with
  | none => exact spends_pure le_rfl
  | some c => exact (h c rfl).reading.value

lemma spends_target {o : Option Parsed} (h : ∀ c ∈ o, Parsed.Fresh c) : Spends 0 (target o) := by
  cases o with
  | none => exact spends_pure le_rfl
  | some c => exact (h c rfl).reading.target

lemma spends_values {cs : List Parsed} (h : ∀ c ∈ cs, Parsed.Fresh c) : Spends 0 (values cs) :=
  (spends_mapM fun c hc => (h c hc).reading.value).then fun _ => spends_pure (by simp)

lemma spends_partValues (hy : y.Fresh) : Spends 0 (values y.parts) :=
  spends_values fun _ h => hy.parts h

/-- A required component has fresh readings, if it is there. -/
lemma spends_required {α : Type} [HasLabels α] {f : Parsed → Making α} (hy : y.Fresh)
    {role : String} (hf : ∀ c, Parsed.Fresh c → Spends stock (f c)) :
    Spends stock (required y role >>= f) := by
  unfold required
  split
  · rename_i c hc
    rw [pure_bind]
    exact hf c (hy.child hc)
  · intro n a m h
    cases h

lemma spends_requiredText (hy : y.Fresh) (role : String) : Spends 0 (requiredText i y role) :=
  spends_required hy fun _ _ => spends_pure le_rfl

lemma spends_valueAt (hy : y.Fresh) (role : String) : Spends 0 (valueAt y role) :=
  (spends_value fun _ h => hy.child h).then fun _ => spends_pure (by simp)

lemma spends_targetAt (hy : y.Fresh) (role : String) : Spends 0 (targetAt y role) :=
  (spends_target fun _ h => hy.child h).then fun _ => spends_pure (by simp)

lemma spends_firstValue (hy : y.Fresh) : Spends 0 (firstValue y) :=
  (spends_value fun _ h => hy.first h).then fun _ => spends_pure (by simp)

lemma spends_slotFor {f : Parsed → Making Draft} {o : Option Parsed}
    (h : ∀ c ∈ o, Spends 0 (f c)) : Spends 0 (slotFor f o) := by
  cases o with
  | none => exact spends_pure le_rfl
  | some c => exact (h c rfl).map fun _ => by simp

lemma spends_identifier : Spends 0 (identifier i c) := spends_make (by simp)

lemma spends_identifierAt {role : String} : Spends 0 (identifierAt i y role) :=
  spends_slotFor fun _ _ => spends_identifier

lemma spends_literal {span : Span} {value : Slot Draft} {raw : String} (h : labels value = 0) :
    Spends 0 (literal span value raw) :=
  spends_make (by simp [h])

lemma spends_numberLiteral {span : Span} : Spends 0 (numberLiteral i span) := by
  refine spends_literal ?_
  split <;> rfl

lemma spends_moduleName : Spends 0 (moduleName i c) := by
  unfold moduleName
  split
  · exact spends_literal rfl
  · exact spends_identifier

lemma spends_moduleSource : Spends 0 (moduleSource i y) :=
  spends_slotFor fun _ _ => spends_literal rfl

lemma spends_some {x : Making Draft} (h : Spends stock x) : Spends stock (some <$> x) :=
  h.map fun _ => le_rfl

lemma spends_generic (hy : y.Fresh) : Spends 0 (generic y) :=
  (spends_partValues hy).then fun _ => spends_make (by simp)

/-! ### Expressions -/

lemma spends_template (hy : y.Fresh) : Spends 0 (template i y) := by
  refine (spends_values fun c h => hy.constructs (List.mem_of_mem_filter h)).then fun _ =>
    spends_make ?_
  split <;> simp

@[simp] lemma labels_isOptional : labels (isOptional y) = 0 := rfl

lemma spends_member (hy : y.Fresh) : Spends 0 (member y) :=
  (spends_valueAt hy _).then fun _ => (spends_valueAt hy _).then fun _ => spends_make (by simp)

lemma spends_subscript (hy : y.Fresh) : Spends 0 (subscript y) :=
  (spends_valueAt hy _).then fun _ => (spends_valueAt hy _).then fun _ => spends_make (by simp)

lemma spends_arguments (hy : y.Fresh) : Spends 0 (arguments y) := by
  unfold arguments
  split
  · rename_i a ha
    exact (spends_partValues (hy.child ha).layer).then fun _ => spends_pure (by simp)
  · exact spends_pure (by simp)

lemma spends_call (hy : y.Fresh) : Spends 0 (call i y) := by
  refine (spends_valueAt hy _).then fun _ => ?_
  split
  · rename_i t ht
    have ht := hy.child (Option.filter_eq_some_iff.1 ht).1
    exact (spends_template ht.layer).then fun _ => spends_make (by simp)
  · exact (spends_arguments hy).then fun _ => spends_make (by simp)

lemma spends_construction (hy : y.Fresh) : Spends 0 (construction y) :=
  (spends_valueAt hy _).then fun _ => (spends_arguments hy).then fun _ => spends_make (by simp)

lemma spends_assignment (hy : y.Fresh) : Spends 0 (assignment y) :=
  (spends_targetAt hy _).then fun _ => (spends_valueAt hy _).then fun _ => spends_make (by simp)

lemma spends_combiningAssignment (hy : y.Fresh) : Spends 0 (combiningAssignment i y) :=
  (spends_requiredText hy _).then fun _ => (spends_targetAt hy _).then fun _ =>
    (spends_valueAt hy _).then fun _ => spends_make (by simp)

lemma spends_update (hy : y.Fresh) : Spends 0 (update i y) :=
  spends_required hy fun _ _ => spends_required hy fun _ ha =>
    ha.reading.value.then fun _ => spends_make (by simp)

lemma spends_binary (hy : y.Fresh) : Spends 0 (binary i y) :=
  (spends_requiredText hy _).then fun _ => (spends_valueAt hy _).then fun _ =>
    (spends_valueAt hy _).then fun _ => spends_make (by simp)

lemma spends_unary (hy : y.Fresh) : Spends 0 (unary i y) :=
  (spends_requiredText hy _).then fun _ => (spends_valueAt hy _).then fun _ =>
    spends_make (by simp)

lemma spends_conditional (hy : y.Fresh) : Spends 0 (conditional y) :=
  (spends_valueAt hy _).then fun _ => (spends_valueAt hy _).then fun _ =>
    (spends_valueAt hy _).then fun _ => spends_make (by simp [add_assoc])

lemma spends_sequenceOperands (hy : y.Fresh) : Spends 0 (sequenceOperands y) :=
  (spends_mapM fun _ h => (hy.parts h).reading.operands).then fun _ => spends_pure (by simp)

lemma spends_sequence (hy : y.Fresh) : Spends 0 (sequence y) :=
  (spends_sequenceOperands hy).then fun _ => spends_make (by simp)

lemma spends_await (hy : y.Fresh) : Spends 0 (await y) :=
  (spends_firstValue hy).then fun _ => spends_make (by simp)

lemma spends_yield (hy : y.Fresh) : Spends 0 (yield y) :=
  (spends_firstValue hy).then fun _ => spends_make (by simp)

lemma spends_spread (hy : y.Fresh) : Spends 0 (spread y) :=
  (spends_firstValue hy).then fun _ => spends_make (by simp)

lemma spends_ascription (hy : y.Fresh) : Spends 0 (ascription y) :=
  (spends_firstValue hy).then fun _ => spends_make (by simp)

lemma spends_presence (hy : y.Fresh) : Spends 0 (presence y) :=
  (spends_firstValue hy).then fun _ => spends_make (by simp)

/-! ### Statements -/

lemma spends_program (hy : y.Fresh) : Spends 0 (program i y) :=
  (spends_partValues hy).then fun _ => spends_make (by simp)

lemma spends_expressionStatement (hy : y.Fresh) : Spends 0 (expressionStatement y) :=
  (spends_firstValue hy).then fun _ => spends_make (by simp)

lemma spends_block (hy : y.Fresh) : Spends 0 (block y) :=
  (spends_partValues hy).then fun _ => spends_make (by simp)

lemma spends_returnStatement (hy : y.Fresh) : Spends 0 (returnStatement y) :=
  (spends_firstValue hy).then fun _ => spends_make (by simp)

lemma spends_declarator (hc : Parsed.Fresh c) : Spends 0 (declarator c) :=
  (spends_targetAt hc.layer _).then fun _ => (spends_valueAt hc.layer _).then fun _ =>
    spends_make (by simp)

lemma spends_declaration (hy : y.Fresh) : Spends 0 (declaration i y) :=
  (spends_mapM fun _ h => spends_declarator (hy.constructs (List.mem_of_mem_filter h))).then
    fun _ => spends_make (by simp)

lemma spends_ifStatement (hy : y.Fresh) : Spends 0 (ifStatement y) :=
  (spends_valueAt hy _).then fun _ => (spends_valueAt hy _).then fun _ =>
    (spends_valueAt hy _).then fun _ => spends_make (by simp [add_assoc])

lemma spends_loopClause (hy : y.Fresh) {role : String} : Spends 0 (loopClause y role) := by
  unfold loopClause
  split
  · exact spends_pure le_rfl
  · rename_i c hc
    split
    · exact spends_pure le_rfl
    · exact spends_firstValue (hy.child hc).layer
    · exact spends_valueAt hy _

lemma spends_forStatement (hy : y.Fresh) : Spends 0 (forStatement y) :=
  (spends_loopClause hy).then fun _ => (spends_loopClause hy).then fun _ =>
    (spends_valueAt hy _).then fun _ => (spends_valueAt hy _).then fun _ =>
      spends_make (by simp [add_assoc])

/-- The declaration takes over the declarator, which has taken over the target. -/
lemma spends_loopTarget (hy : y.Fresh) : Spends 0 (loopTarget i y) := by
  unfold loopTarget
  split
  · exact spends_targetAt hy _
  · refine spends_required hy fun left hleft => hleft.reading.target.then fun t => ?_
    have hdeclarator : Spends (labels t) (make left.span .variableDeclarator
        [(.id, .ofOption t), (.init, .blank)]) := spends_make (by simp)
    rw [zero_add]
    exact hdeclarator.next fun _ => (spends_make (by simp)).map fun _ => by simp

lemma spends_forEachStatement (hy : y.Fresh) : Spends 0 (forEachStatement i y) :=
  (spends_loopTarget hy).then fun _ => (spends_valueAt hy _).then fun _ =>
    (spends_valueAt hy _).then fun _ => spends_make (by simp [add_assoc])

lemma spends_whileStatement (hy : y.Fresh) : Spends 0 (whileStatement y) :=
  (spends_valueAt hy _).then fun _ => (spends_valueAt hy _).then fun _ => spends_make (by simp)

lemma spends_doStatement (hy : y.Fresh) : Spends 0 (doStatement y) :=
  (spends_valueAt hy _).then fun _ => (spends_valueAt hy _).then fun _ => spends_make (by simp)

lemma spends_tryStatement (hy : y.Fresh) : Spends 0 (tryStatement y) := by
  refine (spends_valueAt hy _).then fun _ => (spends_valueAt hy _).then fun _ => ?_
  split
  · rename_i f hf
    exact (spends_valueAt (hy.child hf).layer _).then fun _ => spends_make (by simp [add_assoc])
  · exact spends_make (by simp)

lemma spends_catchClause (hy : y.Fresh) : Spends 0 (catchClause y) :=
  (spends_targetAt hy _).then fun _ => (spends_valueAt hy _).then fun _ => spends_make (by simp)

/-! ### Functions and classes -/

lemma spends_parameter (hc : Parsed.Fresh c) : Spends 0 (parameter c) := by
  unfold parameter
  dsimp only
  split
  · split
    · exact spends_pure le_rfl
    · rename_i p hp
      have hp := (hc.layer.child hp).reading
      split
      · exact spends_pure le_rfl
      · split
        · exact hp.target
        · rename_i v hv
          exact hp.target.then fun _ => (hc.layer.child hv).reading.value.then fun _ =>
            spends_some (spends_make (by simp))
  · exact hc.reading.target

lemma spends_parameters (hy : y.Fresh) : Spends 0 (parameters y) := by
  unfold parameters
  split
  · exact spends_pure (by simp)
  · rename_i ps hps
    exact (spends_mapM fun _ h => spends_parameter ((hy.child hps).layer.parts h)).then
      fun _ => spends_pure (by simp)

lemma spends_function (hy : y.Fresh) {kind : Kind} {generator : Bool} :
    Spends 0 (function i kind generator y) :=
  spends_identifierAt.then fun _ => (spends_parameters hy).then fun _ =>
    (spends_valueAt hy _).then fun _ => spends_make (by simp [add_assoc])

lemma spends_arrowFunction (hy : y.Fresh) : Spends 0 (arrowFunction y) := by
  have hrest {params : Slot Draft} {isExpression : Bool} : Spends (labels params) (do
        make y.span .arrowFunctionExpression
          [(.id, .blank), (.params, params), (.body, ← valueAt y "body"),
           (.expression, .flag isExpression), (.isAsync, .flag (y.hasToken "async"))]) :=
    (spends_valueAt hy _).then fun _ => spends_make (by simp)
  unfold arrowFunction
  dsimp only
  split
  · rename_i p hp
    exact (hy.child hp).reading.target.then fun _ => hrest.mono (by simp)
  · exact (spends_parameters hy).then fun _ => hrest.mono (by simp)

lemma spends_methodFunction (hy : y.Fresh) : Spends 0 (methodFunction y) :=
  (spends_parameters hy).then fun _ => (spends_valueAt hy _).then fun _ => spends_make (by simp)

instance : HasLabels Key := ⟨fun e => labels e.node⟩

@[simp] lemma labels_key (o : Option Draft) (computed : Bool) :
    labels (⟨o, computed⟩ : Key) = labels o := rfl

@[simp] lemma labels_keyNode (e : Key) : labels e.node = labels e := rfl

lemma spends_key (hc : Parsed.Fresh c) : Spends 0 (key i c) := by
  unfold key
  split
  · exact (spends_value fun _ h => hc.layer.first h).then fun _ => spends_pure (by simp)
  · exact hc.reading.value.then fun _ => spends_pure (by simp)
  · exact hc.reading.value.then fun _ => spends_pure (by simp)
  · exact Spends.then (spends_make (by simp)) fun _ => spends_pure (by simp)
  · exact spends_identifier.then fun _ => spends_pure (by simp)

lemma spends_keyAt (hy : y.Fresh) {role : String} : Spends 0 (keyAt i y role) :=
  spends_required hy fun _ hc => spends_key hc

lemma spends_property {span : Span} {e : Key} {value : Slot Draft} {shorthand method : Bool}
    {kind : String} (h : labels e + labels value ≤ stock) :
    Spends stock (property span e value shorthand method kind) :=
  spends_make (by simpa using h)

/-- The key and the value are two nodes. -/
lemma spends_shorthandProperty : Spends 0 (shorthandProperty i c) :=
  spends_identifier.then fun _ => spends_identifier.then fun _ => spends_property (by simp)

lemma spends_methodDefinition (hy : y.Fresh) : Spends 0 (methodDefinition i y) :=
  (spends_keyAt hy).then fun _ => (spends_methodFunction hy).then fun _ => spends_make (by simp)

lemma spends_fieldDefinition (hy : y.Fresh) : Spends 0 (fieldDefinition i y) := by
  have hrest {e : Key} : Spends (0 + labels e) (do
      make y.span .propertyDefinition
        [(.key, .ofOption e.node), (.computed, .flag e.computed), (.value, ← valueAt y "value"),
         (.static, .flag (y.hasToken "static"))]) :=
    (spends_valueAt hy _).then fun _ => spends_make (by simp)
  unfold fieldDefinition
  dsimp only
  split
  · rename_i c hc
    exact (spends_key (hy.child hc)).then fun _ => hrest
  · exact (spends_keyAt hy).then fun _ => hrest

lemma spends_staticBlock (hy : y.Fresh) : Spends 0 (staticBlock y) := by
  unfold staticBlock
  dsimp only
  split
  · rename_i b hb
    exact (spends_partValues (hy.child hb).layer).then fun _ => spends_make (by simp)
  · exact spends_make (by simp)

lemma spends_classMember (hc : Parsed.Fresh c) : Spends 0 (classMember i c) := by
  unfold classMember
  split
  · exact spends_some (spends_methodDefinition hc.layer)
  · exact spends_some (spends_fieldDefinition hc.layer)
  · exact spends_some (spends_fieldDefinition hc.layer)
  · exact spends_some (spends_staticBlock hc.layer)
  · exact hc.reading.value

lemma spends_heritageValue (hc : Parsed.Fresh c) : Spends 0 (heritageValue c) := by
  unfold heritageValue
  split
  · split
    · rename_i v hv
      exact (hc.layer.child hv).reading.value
    · exact spends_value fun _ h => hc.layer.first h
  · exact hc.reading.value

/-- The classes that the heading names before the last one are made, and used nowhere. -/
lemma spends_superClass (hy : y.Fresh) : Spends 0 (superClass y) := by
  unfold superClass
  split
  · exact spends_pure le_rfl
  · rename_i h hh
    refine (spends_mapM fun c hc => spends_heritageValue ((hy.construct hh).layer.parts hc)).then
      fun os => spends_pure ?_
    cases os using List.reverseRecOn with
    | nil => simp
    | append_singleton os o =>
      simp only [List.getLast?_concat, Option.getD_some, labels_ofOption, labels_append,
        labels_cons, labels_nil, Multiset.add_zero, Multiset.zero_add]
      exact Multiset.le_add_left _ _

lemma spends_classBody (hy : y.Fresh) : Spends 0 (classBody i y) := by
  unfold classBody
  split
  · rename_i b hb
    exact (spends_mapM fun c hc => spends_classMember ((hy.child hb).layer.parts hc)).then
      fun _ => spends_make (by simp)
  · exact spends_make (by simp)

lemma spends_classNode (hy : y.Fresh) {kind : Kind} : Spends 0 (classNode i kind y) :=
  (spends_superClass hy).then fun _ => (spends_classBody hy).then fun _ =>
    spends_identifierAt.then fun _ => spends_make (by simp [add_comm])

/-! ### Objects and patterns -/

lemma spends_objectMember (hc : Parsed.Fresh c) : Spends 0 (objectMember i c) := by
  unfold objectMember
  split
  · exact (spends_keyAt hc.layer).then fun _ => (spends_valueAt hc.layer _).then fun _ =>
      spends_some (spends_property (by simp))
  · exact spends_some spends_shorthandProperty
  · exact (spends_keyAt hc.layer).then fun _ => (spends_methodFunction hc.layer).then fun _ =>
      spends_some (spends_property (by simp))
  · exact hc.reading.value

lemma spends_object (hy : y.Fresh) : Spends 0 (object i y) :=
  (spends_mapM fun _ hc => spends_objectMember (hy.parts hc)).then fun _ => spends_make (by simp)

lemma spends_array (hy : y.Fresh) : Spends 0 (array y) :=
  (spends_partValues hy).then fun _ => spends_make (by simp)

lemma spends_assignmentPattern (hy : y.Fresh) : Spends 0 (assignmentPattern y) :=
  (spends_targetAt hy _).then fun _ => (spends_valueAt hy _).then fun _ => spends_make (by simp)

/-- The key of a member with a default is made apart from the pattern that the default stands in. -/
lemma spends_patternMember (hc : Parsed.Fresh c) : Spends 0 (patternMember i c) := by
  have hpair : Spends 0 (do
      let e ← keyAt i c.layer "key"
      some <$> property c.span e (← targetAt c.layer "value") false false "init") :=
    (spends_keyAt hc.layer).then fun _ => (spends_targetAt hc.layer _).then fun _ =>
      spends_some (spends_property (by simp))
  have hdefault {key : Option Draft} : Spends (0 + labels key) (do
      some <$> property c.span ⟨key, false⟩ (.node (← assignmentPattern c.layer)) true false
        "init") :=
    (spends_assignmentPattern hc.layer).then fun _ => spends_some (spends_property (by simp))
  unfold patternMember
  split
  · exact hpair
  · exact hpair
  · exact spends_some spends_shorthandProperty
  · exact spends_some spends_shorthandProperty
  · refine spends_required hc.layer fun left _ => ?_
    dsimp only
    split
    · exact (spends_some spends_identifier).then fun _ => hdefault
    · exact hdefault.mono (by simp)
  · exact hc.reading.target
  · exact hc.reading.target
  · exact spends_pure le_rfl

lemma spends_objectPattern (hy : y.Fresh) : Spends 0 (objectPattern i y) :=
  (spends_mapM fun _ hc => spends_patternMember (hy.parts hc)).then fun _ => spends_make (by simp)

lemma spends_arrayPattern (hy : y.Fresh) : Spends 0 (arrayPattern y) :=
  (spends_mapM fun _ hc => (hy.parts hc).reading.target).then fun _ => spends_make (by simp)

lemma spends_restElement (hy : y.Fresh) : Spends 0 (restElement y) :=
  (spends_target fun _ h => hy.first h).then fun _ => spends_make (by simp)

lemma spends_readTarget (hy : y.Fresh) {value : Making (Option Draft)} (hv : Spends 0 value) :
    Spends 0 (readTarget i y value) := by
  have hname : Spends 0
      (some <$> make y.span .identifier [(.name, .text (i.source.text y.span))]) :=
    spends_some (spends_make (by simp))
  unfold readTarget
  split
  case h_1 | h_2 | h_3 | h_4 => exact hname
  case h_5 | h_6 => exact spends_some (spends_objectPattern hy)
  case h_7 | h_8 => exact spends_some (spends_arrayPattern hy)
  case h_9 | h_10 => exact spends_some (spends_assignmentPattern hy)
  case h_11 | h_12 => exact spends_some (spends_restElement hy)
  case h_13 => exact spends_target fun _ h => hy.first h
  case h_14 => exact hv

/-! ### Modules -/

/-- The name outside and the name inside are two nodes, also where there is no alias. -/
lemma spends_importSpecifier (hc : Parsed.Fresh c) : Spends 0 (importSpecifier i c) :=
  spends_required hc.layer fun _ _ => spends_moduleName.then fun _ =>
    spends_identifier.then fun _ => spends_make (by simp)

lemma spends_importSpecifiers (hc : Parsed.Fresh c) : Spends 0 (importSpecifiers i c) := by
  have hbound {kind : Kind} {d : Parsed} : Spends 0 (do
      return [← make c.span kind [(.localName, .node (← identifier i d))]]) := by
    refine spends_identifier.then fun d => ?_
    have hnode : Spends (labels d) (make c.span kind [(.localName, .node d)]) :=
      spends_make (by simp)
    rw [zero_add]
    exact hnode.next fun _ => spends_pure (by simp)
  unfold importSpecifiers
  split
  · exact hbound
  · split
    · exact hbound
    · exact spends_throw
  · exact spends_mapM fun d hd => spends_importSpecifier
      (hc.layer.constructs (List.mem_of_mem_filter hd))
  · exact spends_pure le_rfl

lemma spends_importStatement (hy : y.Fresh) : Spends 0 (importStatement i y) := by
  have hnames {ds : List Draft} : Spends (labels ds) (do
      make y.span .importDeclaration
        [(.specifiers, .ofList ds), (.source, ← moduleSource i y)]) :=
    spends_moduleSource.then fun _ => spends_make (by simp)
  unfold importStatement
  dsimp only
  split
  · rename_i c hc
    exact (spends_mapM fun d hd => spends_importSpecifiers
      ((hy.construct hc).layer.constructs hd)).then fun _ => hnames.mono (by simp)
  · exact hnames

lemma spends_exportSpecifier (hc : Parsed.Fresh c) : Spends 0 (exportSpecifier i c) :=
  spends_required hc.layer fun _ _ => spends_moduleName.then fun _ =>
    spends_moduleName.then fun _ => spends_make (by simp)

lemma spends_exportStatement (hy : y.Fresh) : Spends 0 (exportStatement i y) := by
  have hnames {ds : List Draft} : Spends (labels ds) (do
      make y.span .exportNamedDeclaration
        [(.declaration, ← valueAt y "declaration"), (.specifiers, .ofList ds),
         (.source, ← moduleSource i y)]) :=
    (spends_valueAt hy _).then fun _ => spends_moduleSource.then fun _ =>
      spends_make (by simp [add_left_comm, add_assoc])
  unfold exportStatement
  dsimp only
  split
  · refine (spends_value fun c hc => ?_).then fun _ => spends_make (by simp)
    cases hd : y.child? "declaration" with
    | none => exact hy.child (by simpa [hd] using hc)
    | some d => exact hy.child (hd.trans (by simpa [hd] using hc))
  · split
    · exact spends_moduleSource.then fun _ => spends_make (by simp)
    · split
      · rename_i c hc
        exact (spends_mapM fun d hd => spends_exportSpecifier
          ((hy.construct hc).layer.constructs (List.mem_of_mem_filter hd))).then
            fun _ => hnames.mono (by simp)
      · exact hnames

lemma spends_enumMember (hc : Parsed.Fresh c) : Spends 0 (enumMember i c) := by
  unfold enumMember
  split
  · split
    · exact spends_throw
    · rename_i n hn
      have hn : Parsed.Fresh n := by
        cases hname : c.layer.child? "name" with
        | none => exact hc.layer.first (by simpa [hname] using hn)
        | some m => exact hc.layer.child (hname.trans (by simpa [hname] using hn))
      exact (spends_key hn).then fun _ => (spends_valueAt hc.layer _).then fun _ =>
        spends_make (by simp)
  · exact (spends_key hc).then fun _ => spends_make (by simp)

lemma spends_enumDeclaration (hy : y.Fresh) : Spends 0 (enumDeclaration i y) := by
  have hmembers {ds : List Draft} : Spends (labels ds) (do
      make y.span .tsEnumDeclaration
        [(.id, ← identifierAt i y "name"), (.members, .ofList ds),
         (.isConst, .flag (y.hasToken "const"))]) :=
    spends_identifierAt.then fun _ => spends_make (by simp [add_comm])
  unfold enumDeclaration
  dsimp only
  split
  · rename_i b hb
    exact (spends_mapM fun d hd => spends_enumMember ((hy.child hb).layer.parts hd)).then
      fun _ => hmembers.mono (by simp)
  · exact hmembers

lemma spends_namespaceDeclaration (hy : y.Fresh) : Spends 0 (namespaceDeclaration i y) :=
  (spends_slotFor fun _ _ => spends_identifier).then fun _ => (spends_valueAt hy _).then fun _ =>
    spends_make (by simp)

/-! ### Markup elements -/

/-- The ends of a name have fresh readings, if there are any. -/
lemma spends_nameEnds {α : Type} [HasLabels α] {f : Parsed × Parsed → Making α} (hy : y.Fresh)
    (hf : ∀ a b, Parsed.Fresh a → Parsed.Fresh b → Spends stock (f (a, b))) :
    Spends stock (nameEnds y >>= f) := by
  unfold nameEnds
  split
  · rename_i a b ha hb
    rw [pure_bind]
    exact hf a b (hy.parts (List.mem_of_head? ha)) (hy.parts (List.mem_of_getLast? hb))
  · intro n a m h
    cases h

lemma spends_pairName {kind : Kind} {f g : Field} {a b : Parsed} {span : Span}
    (ha : Parsed.Fresh a) (hb : Parsed.Fresh b) : Spends 0 (do
      make span kind [(f, .node (← a.label.name)), (g, .node (← b.label.name))]) :=
  ha.reading.name.then fun _ => hb.reading.name.then fun _ => spends_make (by simp)

lemma spends_nestedName (hy : y.Fresh) :
    Spends 0 (match y.child? "object", y.child? "property" with
      | some a, some b => do
        make y.span .jsxMemberExpression
          [(.object, .node (← a.label.name)), (.property, .node (← b.label.name))]
      | _, _ => do
        let (a, b) ← nameEnds y
        make y.span .jsxMemberExpression
          [(.object, .node (← a.label.name)), (.property, .node (← b.label.name))]) := by
  split
  · rename_i a b ha hb
    exact spends_pairName (hy.child ha) (hy.child hb)
  · exact spends_nameEnds hy fun _ _ => spends_pairName

lemma spends_readName (hy : y.Fresh) : Spends 0 (readName i y) := by
  unfold readName
  dsimp only
  split
  · exact spends_nestedName hy
  · exact spends_nestedName hy
  · exact spends_nameEnds hy fun _ _ => spends_pairName
  · exact spends_make (by simp)

lemma spends_nameSlot {o : Option Parsed} (h : ∀ c ∈ o, Parsed.Fresh c) : Spends 0 (nameSlot o) :=
  spends_slotFor fun c hc => (h c hc).reading.name

lemma spends_openingTag (hy : y.Fresh) {selfClosing : Bool} :
    Spends 0 (openingTag selfClosing y) :=
  (spends_nameSlot fun _ h => hy.child h).then fun _ =>
    (spends_values fun _ h => hy.parts (List.mem_of_mem_filter h)).then fun _ =>
      spends_make (by simp)

lemma spends_closingTag (hy : y.Fresh) : Spends 0 (closingTag y) :=
  (spends_nameSlot fun _ h => hy.child h).then fun _ => spends_make (by simp)

lemma spends_emptyElement (hy : y.Fresh) : Spends 0 (emptyElement y) :=
  (spends_openingTag hy).then fun _ => spends_make (by simp)

instance : HasLabels ElementParts :=
  ⟨fun e => labels e.opening + labels e.content + labels e.closing⟩

lemma labels_elementParts (e : ElementParts) :
    labels e = labels e.opening + labels e.content + labels e.closing := rfl

/-- A tag takes the place of the one before it, if there was one. -/
lemma spends_add (hc : Parsed.Fresh c) (e : ElementParts) : Spends (labels e) (e.add c) := by
  rw [labels_elementParts]
  unfold ElementParts.add
  split
  · refine (spends_openingTag hc.layer).then fun d => spends_pure ?_
    have hrest : labels e.content + labels e.closing ≤
        labels e.opening + labels e.content + labels e.closing := by
      rw [add_assoc]
      exact Multiset.le_add_left ..
    rw [labels_elementParts, labels_node, add_assoc, add_comm (labels d)]
    exact Multiset.add_le_add_right hrest
  · refine (spends_closingTag hc.layer).then fun d => spends_pure ?_
    rw [labels_elementParts, labels_node]
    exact Multiset.add_le_add_right (Multiset.le_add_right ..)
  · refine hc.reading.value.then fun o => spends_pure ?_
    rw [labels_elementParts, labels_append, labels_toList, add_assoc _ (labels e.closing),
      add_comm (labels e.closing)]
    simp only [add_assoc, le_refl]

lemma spends_element (hy : y.Fresh) : Spends 0 (element y) := by
  have hparts : Spends 0 (y.parts.foldlM ElementParts.add {}) :=
    spends_foldlM (fun e _ hc => spends_add (hy.parts hc) e) {}
  exact hparts.then fun _ => spends_make (by simp [labels_elementParts, add_assoc])

lemma spends_elementAttribute (hy : y.Fresh) : Spends 0 (elementAttribute y) :=
  (spends_nameSlot fun _ h => hy.parts (List.mem_of_head? h)).then fun _ =>
    (spends_value fun _ h => hy.parts (List.mem_of_getElem? h)).then fun _ =>
      spends_make (by simp)

lemma spends_braces (hy : y.Fresh) : Spends 0 (braces y) := by
  unfold braces
  split
  · rename_i s hs
    have hs := hy.first (Option.filter_eq_some_iff.1 hs).1
    exact (spends_firstValue hs.layer).then fun _ => spends_make (by simp)
  · exact (spends_firstValue hy).then fun _ => spends_make (by simp)

/-! ### All rules -/

/-- The rule reads constructs with fresh components by making nodes of its own. -/
def Rule.Fresh (rule : Rule) : Prop := ∀ y : Layer Parsed, y.Fresh → Spends 0 (rule y)

lemma fresh_always {f : Layer Parsed → Making Draft}
    (h : ∀ y : Layer Parsed, y.Fresh → Spends 0 (f y)) : Rule.Fresh (always f) :=
  fun y hy => spends_some (h y hy)

lemma fresh_transparent : Rule.Fresh transparent :=
  fun _ hy => spends_value fun _ h => hy.first h

/-- The rule for a leaf. -/
lemma fresh_leaf {kind : Kind} {fields : Layer Parsed → List (Field × Slot Draft)}
    (h : ∀ y, labels (fields y) = 0) :
    Rule.Fresh (always fun y => make y.span kind (fields y)) :=
  fresh_always fun y _ => spends_make (h y).le

lemma fresh_nameRule : Rule.Fresh (nameRule i) := fresh_leaf fun _ => by simp

lemma fresh_rules {e : String × Rule} (h : e ∈ rules i) : e.2.Fresh := by
  revert e
  simp only [rules, List.forall_mem_cons]
  refine ⟨fresh_always fun _ => spends_program,
    fresh_always fun _ => spends_expressionStatement,
    fresh_always fun _ => spends_declaration, fresh_always fun _ => spends_declaration,
    fresh_nameRule, fresh_nameRule, fresh_nameRule, fresh_nameRule,
    fresh_leaf fun _ => by simp,
    fresh_leaf fun _ => by simp,
    fresh_leaf fun _ => by simp,
    fresh_always fun _ _ => spends_literal rfl,
    fresh_always fun _ _ => spends_numberLiteral,
    fresh_always fun _ _ => spends_literal rfl,
    fresh_always fun _ _ => spends_literal rfl,
    fresh_always fun _ _ => spends_literal rfl,
    fresh_always fun _ _ => spends_literal rfl,
    fresh_always fun _ => spends_template,
    fresh_transparent, fresh_transparent, fresh_transparent,
    fresh_always fun _ => spends_member, fresh_always fun _ => spends_subscript,
    fresh_always fun _ => spends_call, fresh_always fun _ => spends_construction,
    fresh_always fun _ => spends_assignment, fresh_always fun _ => spends_combiningAssignment,
    fresh_always fun _ => spends_update, fresh_always fun _ => spends_binary,
    fresh_always fun _ => spends_unary, fresh_always fun _ => spends_conditional,
    fresh_always fun _ => spends_sequence, fresh_always fun _ => spends_await,
    fresh_always fun _ => spends_yield, fresh_always fun _ => spends_object,
    fresh_always fun _ => spends_array, fresh_always fun _ => spends_spread,
    fresh_always fun _ hy => spends_function hy, fresh_always fun _ hy => spends_function hy,
    fresh_always fun _ hy => spends_function hy, fresh_always fun _ hy => spends_function hy,
    fresh_always fun _ hy => spends_function hy,
    fresh_always fun _ => spends_arrowFunction, fresh_always fun _ => spends_block,
    fresh_always fun _ => spends_returnStatement, fresh_always fun _ => spends_ifStatement,
    fresh_always fun _ => spends_forStatement, fresh_always fun _ => spends_forEachStatement,
    fresh_always fun _ => spends_whileStatement, fresh_always fun _ => spends_doStatement,
    fresh_always fun _ => spends_tryStatement, fresh_always fun _ => spends_catchClause,
    fresh_always fun _ hy => spends_classNode hy, fresh_always fun _ hy => spends_classNode hy,
    fresh_always fun _ hy => spends_classNode hy,
    fresh_always fun _ => spends_importStatement, fresh_always fun _ => spends_exportStatement,
    fresh_always fun _ => spends_ascription, fresh_always fun _ => spends_ascription,
    fresh_always fun _ => spends_presence, fresh_always fun _ => spends_enumDeclaration,
    fresh_always fun _ => spends_namespaceDeclaration,
    fresh_always fun _ => spends_namespaceDeclaration,
    fresh_always fun _ => spends_element, fresh_always fun _ => spends_emptyElement,
    fresh_always fun _ hy => spends_openingTag hy, fresh_always fun _ => spends_closingTag,
    fresh_always fun _ => spends_elementAttribute, fresh_always fun _ => spends_braces,
    fresh_leaf fun _ => by simp, by simp⟩

lemma spends_readValue (hy : y.Fresh) : Spends 0 (readValue i y) := by
  unfold readValue
  cases hrule : (rules i).lookup y.symbol with
  | none => exact fresh_always (fun _ => spends_generic) y hy
  | some rule =>
    obtain ⟨l₁, l₂, hl, -⟩ := List.lookup_eq_some_iff.1 hrule
    exact fresh_rules (hl ▸ List.mem_append_right l₁ List.mem_cons_self) y hy

/-- A construct whose components have fresh readings has them too. -/
lemma fresh_read (hy : y.Fresh) : (read i y).Fresh := by
  unfold read
  split
  · exact ⟨spends_pure le_rfl, spends_pure le_rfl, spends_readName hy, spends_pure le_rfl⟩
  · have hvalue : Spends 0 (readValue i y) := spends_readValue hy
    refine ⟨hvalue, spends_readTarget hy hvalue, spends_readName hy, ?_⟩
    unfold readOperands
    split
    · exact spends_sequenceOperands hy
    · exact hvalue.map fun _ => by simp

/-! ## Whole trees -/

lemma fresh_annotate (i : Input) (c : Concrete Unit) : Parsed.Fresh (c.annotate (read i)) := by
  induction c using Concrete.induction with
  | step c ih =>
    have hlayer : Layer.Fresh (c.layer.map (Concrete.annotate (read i))) := by
      intro d hd
      obtain ⟨e, he, rfl⟩ := List.mem_map.1 hd
      exact ih e he
    refine Concrete.forall_contains_iff.2 ⟨?_, ?_⟩
    · rw [Concrete.label_annotate]
      exact fresh_read hlayer
    · rw [Concrete.layer_annotate]
      exact hlayer

variable {tree : Concrete Unit}

/-- **No node of a draft stands in two places.** -/
theorem distinct_draft {d : Draft} (h : draft i tree = .ok d) : Node.Distinct d := by
  obtain ⟨m, h⟩ := draft_ok_iff.1 h
  exact Multiset.coe_nodup.1 ((fresh_annotate i tree).reading.value.nodup h)

/-- The nodes of a tree are numbered one after the other, from zero on. -/
lemma ids_build {root : Node} (h : build i tree = .ok root) :
    root.nodes.map Node.id = List.range root.nodes.length := by
  obtain ⟨d, hd, rfl⟩ := map_ok_iff.1 h
  exact (distinct_draft hd).ids_numbered

lemma distinct_build {root : Node} (h : build i tree = .ok root) : root.Distinct := by
  rw [Node.Distinct, ids_build h]
  exact List.nodup_range

end Convert

end RefFlow
