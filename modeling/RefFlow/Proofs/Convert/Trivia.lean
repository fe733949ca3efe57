import RefFlow.Proofs.Concrete
import RefFlow.Proofs.Fallible
import RefFlow.Reactive

/-!
# Comments and types do not change a program

Among the children of a concrete node there may be *trivia*: children with a symbol that conversion
skips and without a role.  They may stand anywhere, be named or not, and have any contents.  A rule
that took the children of a construct as they are, or counted them, would let a comment change what
a program means.

`Concrete.trim` leaves all trivia out of a tree.  The accessors by which rules see a construct give
the same for it with and without trivia, up to `trim` (`Layer.child?_trim`, `Layer.parts_trim` and
those after them), so that every rule gives the same (`Convert.rules_trim`) and so does conversion
as a whole (`Convert.draft_trim`).  Since `Concrete.Padded` trees are the same once trimmed, they
are the same program, with the same scopes and the same results.
-/

namespace RefFlow

namespace Concrete

variable {α β : Type}

/-- The node is skipped, and its parent does not know it under a role. -/
def isTrivia (c : Concrete α) : Bool := c.isSkipped && c.layer.role.isNone

mutual

/-- The tree without the trivia in it. -/
def trim : Concrete α → Concrete α
  | mk l ⟨s, n, r, p, cs⟩ => mk l ⟨s, n, r, p, trimAll cs⟩

/-- `trim` on the children of a node, of which the trivia are left out. -/
def trimAll : List (Concrete α) → List (Concrete α)
  | [] => []
  | c :: cs => if c.isTrivia then trimAll cs else trim c :: trimAll cs

end

lemma trimAll_eq (cs : List (Concrete α)) : trimAll cs = (cs.filter (!·.isTrivia)).map trim := by
  induction cs with
  | nil => rfl
  | cons c cs ih =>
    rw [trimAll, List.filter_cons]
    cases c.isTrivia <;> simp [ih]

lemma isSkipped_of_isTrivia {c : Concrete α} (hc : c.isTrivia = true) : c.isSkipped = true :=
  (Bool.and_eq_true_iff.1 hc).1

lemma role_of_isTrivia {c : Concrete α} (hc : c.isTrivia = true) : c.layer.role = none :=
  Option.isNone_iff_eq_none.1 (Bool.and_eq_true_iff.1 hc).2

/-- Trivia do not have a symbol that is not skipped. -/
lemma symbol_of_isTrivia {c : Concrete α} (hc : c.isTrivia = true) {symbol : String}
    (h : skippedSymbols.contains symbol = false) : c.symbol ≠ symbol := by
  rintro rfl
  exact Bool.false_ne_true (h.symm.trans (isSkipped_of_isTrivia hc))

end Concrete

/-- The layer without the trivia in it. -/
def Layer.trim {α : Type} (y : Layer (Concrete α)) : Layer (Concrete α) :=
  { y with children := Concrete.trimAll y.children }

namespace Concrete

variable {α : Type} (c : Concrete α)

@[simp] lemma layer_trim : c.trim.layer = c.layer.trim := by
  obtain ⟨l, s, n, r, p, cs⟩ := c
  rfl

@[simp] lemma label_trim : c.trim.label = c.label := by
  obtain ⟨l, s, n, r, p, cs⟩ := c
  rfl

@[simp] lemma symbol_trim : c.trim.symbol = c.symbol := by
  rw [symbol, layer_trim]
  rfl

@[simp] lemma span_trim : c.trim.span = c.span := by
  rw [span, layer_trim]
  rfl

@[simp] lemma isSkipped_trim : c.trim.isSkipped = c.isSkipped := by
  rw [isSkipped, symbol_trim, isSkipped]

end Concrete

/-! ## What rules see of a construct -/

namespace Layer

variable {α : Type} (y : Layer (Concrete α))

@[simp] lemma symbol_trim : y.trim.symbol = y.symbol := rfl

@[simp] lemma named_trim : y.trim.named = y.named := rfl

@[simp] lemma role_trim : y.trim.role = y.role := rfl

@[simp] lemma span_trim : y.trim.span = y.span := rfl

/-- A condition that trivia do not meet picks the same children with and without them. -/
lemma filter_trimAll {P : Concrete α → Bool} (htrim : ∀ c : Concrete α, P c.trim = P c)
    (htrivia : ∀ c : Concrete α, c.isTrivia = true → P c = false) (cs : List (Concrete α)) :
    (Concrete.trimAll cs).filter P = (cs.filter P).map Concrete.trim := by
  rw [Concrete.trimAll_eq, List.filter_map, List.filter_filter]
  congr 2
  funext c
  rw [Function.comp_apply, htrim]
  cases hc : c.isTrivia with
  | false => simp
  | true => simp [htrivia c hc]

lemma find?_trimAll {P : Concrete α → Bool} (htrim : ∀ c : Concrete α, P c.trim = P c)
    (htrivia : ∀ c : Concrete α, c.isTrivia = true → P c = false) (cs : List (Concrete α)) :
    (Concrete.trimAll cs).find? P = (cs.find? P).map Concrete.trim := by
  rw [← List.head?_filter, filter_trimAll htrim htrivia, List.head?_map, List.head?_filter]

@[simp] lemma child?_trim (role : String) :
    y.trim.child? role = (y.child? role).map Concrete.trim := by
  refine find?_trimAll (fun c => by simp) (fun c hc => ?_) y.children
  rw [Concrete.role_of_isTrivia hc]
  rfl

@[simp] lemma parts_trim : y.trim.parts = y.parts.map Concrete.trim := by
  simp only [parts, constructs, List.filter_filter]
  refine filter_trimAll (fun c => by simp) (fun c hc => ?_) y.children
  simp [Concrete.isSkipped_of_isTrivia hc]

@[simp] lemma first?_trim : y.trim.first? = y.first?.map Concrete.trim := by
  rw [first?, parts_trim, List.head?_map]
  rfl

lemma hasToken_trim {token : String} (h : skippedSymbols.contains token = false) :
    y.trim.hasToken token = y.hasToken token := by
  rw [hasToken, ← List.isSome_find?, hasToken, ← List.isSome_find?]
  refine (congrArg Option.isSome (find?_trimAll (fun c => by simp) (fun c hc => ?_) _)).trans
    Option.isSome_map
  rw [beq_false_of_ne (Concrete.symbol_of_isTrivia hc h), Bool.and_false]

lemma constructs_trim {symbol : String} (h : skippedSymbols.contains symbol = false) :
    y.trim.constructs.filter (·.symbol == symbol) =
      (y.constructs.filter (·.symbol == symbol)).map Concrete.trim := by
  simp only [constructs, List.filter_filter]
  refine filter_trimAll (fun c => by simp) (fun c hc => ?_) y.children
  rw [beq_false_of_ne (Concrete.symbol_of_isTrivia hc h), Bool.false_and]

lemma construct?_trim {symbol : String} (h : skippedSymbols.contains symbol = false) :
    y.trim.construct? symbol = (y.construct? symbol).map Concrete.trim := by
  rw [construct?, construct?, ← List.head?_filter, constructs_trim y h, List.head?_map,
    List.head?_filter]

end Layer

namespace Convert

variable (i : Input) (y : Layer Parsed) (c : Parsed)

/-! ## What rules make of it -/

@[simp] lemma value_trim (o : Option Parsed) : value (o.map Concrete.trim) = value o := by
  cases o <;> simp [value]

@[simp] lemma target_trim (o : Option Parsed) : target (o.map Concrete.trim) = target o := by
  cases o <;> simp [target]

/-- A list of components is read as before if each of them is. -/
lemma mapM_trim {β : Type} {f : Parsed → Making β} (h : ∀ c : Parsed, f c.trim = f c)
    (cs : List Parsed) : (cs.map Concrete.trim).mapM f = cs.mapM f := by
  rw [List.mapM_map]
  congr 1
  exact funext h

@[simp] lemma values_trim (cs : List Parsed) : values (cs.map Concrete.trim) = values cs := by
  rw [values, mapM_trim fun c => by rw [Concrete.label_trim]]
  rfl

@[simp] lemma required_trim (role : String) :
    required y.trim role = Concrete.trim <$> required y role := by
  rw [required, Layer.child?_trim, required]
  cases y.child? role <;> rfl

@[simp] lemma text_trim : text i c.trim = text i c := by
  rw [text, Concrete.span_trim, text]

@[simp] lemma requiredText_trim (role : String) :
    requiredText i y.trim role = requiredText i y role := by
  simp [requiredText]

@[simp] lemma valueAt_trim (role : String) : valueAt y.trim role = valueAt y role := by
  simp [valueAt]

@[simp] lemma targetAt_trim (role : String) : targetAt y.trim role = targetAt y role := by
  simp [targetAt]

@[simp] lemma firstValue_trim : firstValue y.trim = firstValue y := by
  simp [firstValue]

@[simp] lemma identifier_trim : identifier i c.trim = identifier i c := by
  simp [identifier]

/-- The part for a component is as before if what is made for it is. -/
lemma slotFor_trim {f : Parsed → Making Draft} (h : ∀ c : Parsed, f c.trim = f c)
    (o : Option Parsed) : slotFor f (o.map Concrete.trim) = slotFor f o := by
  cases o with
  | none => rfl
  | some c => exact congrArg (Slot.node <$> ·) (h c)

@[simp] lemma identifierAt_trim (role : String) :
    identifierAt i y.trim role = identifierAt i y role := by
  rw [identifierAt, Layer.child?_trim, slotFor_trim (identifier_trim i), identifierAt]

@[simp] lemma generic_trim : generic y.trim = generic y := by
  simp [generic]

@[simp] lemma template_trim : template i y.trim = template i y := by
  simp only [template, Layer.span_trim]
  rw [Layer.constructs_trim y (by decide)]
  simp

@[simp] lemma moduleName_trim : moduleName i c.trim = moduleName i c := by
  simp [moduleName]

@[simp] lemma isOptional_trim : isOptional y.trim = isOptional y := by
  simp [isOptional]

@[simp] lemma arguments_trim : arguments y.trim = arguments y := by
  rw [arguments, Layer.child?_trim, arguments]
  cases y.child? "arguments" <;> simp

lemma call_trim : call i y.trim = call i y := by
  simp only [call, Layer.child?_trim, valueAt_trim, arguments_trim, isOptional_trim,
    Layer.span_trim]
  cases y.child? "arguments" with
  | none => rfl
  | some a => by_cases h : a.symbol = "template_string" <;> simp [h, Option.filter]

@[simp] lemma sequenceOperands_trim : sequenceOperands y.trim = sequenceOperands y := by
  rw [sequenceOperands, Layer.parts_trim, mapM_trim fun c => by rw [Concrete.label_trim]]
  rfl

/-! ### Functions and classes -/

lemma parameter_trim : parameter c.trim = parameter c := by
  simp only [parameter, Concrete.layer_trim, Layer.symbol_trim, Layer.child?_trim,
    Concrete.label_trim, Layer.span_trim]
  cases c.layer.child? "pattern" <;> cases c.layer.child? "value" <;> simp

@[simp] lemma parameters_trim : parameters y.trim = parameters y := by
  rw [parameters, Layer.child?_trim, parameters]
  cases y.child? "parameters" with
  | none => rfl
  | some ps => simp [mapM_trim parameter_trim]

lemma function_trim (kind : Kind) (generator : Bool) :
    function i kind generator y.trim = function i kind generator y := by
  simp [function, Layer.hasToken_trim, skippedSymbols]

lemma arrowFunction_trim : arrowFunction y.trim = arrowFunction y := by
  simp only [arrowFunction, Layer.child?_trim, parameters_trim, valueAt_trim, Layer.span_trim]
  cases y.child? "parameter" <;> cases y.child? "body" <;>
    simp [Layer.hasToken_trim, skippedSymbols]

@[simp] lemma methodFunction_trim : methodFunction y.trim = methodFunction y := by
  simp [methodFunction, Layer.hasToken_trim, skippedSymbols]

@[simp] lemma accessorKind_trim (default : String) :
    accessorKind y.trim default = accessorKind y default := by
  simp [accessorKind, Layer.hasToken_trim, skippedSymbols]

@[simp] lemma key_trim : key i c.trim = key i c := by
  simp only [key, Concrete.symbol_trim, Concrete.layer_trim, Layer.first?_trim, value_trim,
    Concrete.label_trim, Concrete.span_trim, identifier_trim]

@[simp] lemma keyAt_trim (role : String) : keyAt i y.trim role = keyAt i y role := by
  simp [keyAt]

@[simp] lemma shorthandProperty_trim : shorthandProperty i c.trim = shorthandProperty i c := by
  simp [shorthandProperty]

@[simp] lemma methodKind_trim (k : Key) : methodKind y.trim k = methodKind y k := by
  simp [methodKind]

@[simp] lemma methodDefinition_trim : methodDefinition i y.trim = methodDefinition i y := by
  simp [methodDefinition, Layer.hasToken_trim, skippedSymbols]

@[simp] lemma fieldDefinition_trim : fieldDefinition i y.trim = fieldDefinition i y := by
  simp only [fieldDefinition, Layer.child?_trim, keyAt_trim, valueAt_trim, Layer.span_trim]
  cases y.child? "property" <;> simp [Layer.hasToken_trim, skippedSymbols]

@[simp] lemma staticBlock_trim : staticBlock y.trim = staticBlock y := by
  simp only [staticBlock, Layer.child?_trim, Layer.span_trim]
  cases y.child? "body" <;> simp

lemma classMember_trim : classMember i c.trim = classMember i c := by
  simp [classMember]

lemma heritageValue_trim : heritageValue c.trim = heritageValue c := by
  simp only [heritageValue, Concrete.symbol_trim, Concrete.layer_trim, Layer.child?_trim,
    Layer.first?_trim, value_trim, Concrete.label_trim]
  cases c.layer.child? "value" <;> simp

@[simp] lemma superClass_trim : superClass y.trim = superClass y := by
  rw [superClass, Layer.construct?_trim y (by decide), superClass]
  cases y.construct? "class_heritage" with
  | none => rfl
  | some h => simp [mapM_trim heritageValue_trim]

@[simp] lemma classBody_trim : classBody i y.trim = classBody i y := by
  rw [classBody, Layer.child?_trim, classBody]
  cases y.child? "body" with
  | none => rfl
  | some b => simp [mapM_trim (classMember_trim i)]

lemma classNode_trim (kind : Kind) : classNode i kind y.trim = classNode i kind y := by
  simp [classNode]

/-! ### Objects, arrays and patterns -/

lemma objectMember_trim : objectMember i c.trim = objectMember i c := by
  simp only [objectMember, Concrete.symbol_trim, Concrete.layer_trim, Concrete.span_trim,
    keyAt_trim, valueAt_trim, shorthandProperty_trim, methodFunction_trim, accessorKind_trim,
    Concrete.label_trim]

lemma object_trim : object i y.trim = object i y := by
  simp [object, mapM_trim (objectMember_trim i)]

@[simp] lemma assignmentPattern_trim : assignmentPattern y.trim = assignmentPattern y := by
  simp [assignmentPattern]

lemma patternMember_trim : patternMember i c.trim = patternMember i c := by
  simp [patternMember]

lemma objectPattern_trim : objectPattern i y.trim = objectPattern i y := by
  simp [objectPattern, mapM_trim (patternMember_trim i)]

lemma arrayPattern_trim : arrayPattern y.trim = arrayPattern y := by
  simp only [arrayPattern, Layer.parts_trim, Layer.span_trim]
  rw [mapM_trim fun c => by rw [Concrete.label_trim]]

lemma restElement_trim : restElement y.trim = restElement y := by
  simp [restElement]

/-! ### Statements -/

@[simp] lemma loopClause_trim (role : String) : loopClause y.trim role = loopClause y role := by
  simp only [loopClause, Layer.child?_trim, valueAt_trim]
  cases y.child? role <;> simp

@[simp] lemma declarator_trim : declarator c.trim = declarator c := by
  simp [declarator]

lemma declaration_trim : declaration i y.trim = declaration i y := by
  simp only [declaration, Layer.child?_trim, Layer.span_trim]
  rw [Layer.constructs_trim y (by decide), mapM_trim declarator_trim]
  cases y.child? "kind" <;> simp

@[simp] lemma loopTarget_trim : loopTarget i y.trim = loopTarget i y := by
  simp only [loopTarget, Layer.child?_trim, required_trim, targetAt_trim]
  cases y.child? "kind" <;> simp

lemma forEachStatement_trim : forEachStatement i y.trim = forEachStatement i y := by
  simp only [forEachStatement, Layer.child?_trim, loopTarget_trim, valueAt_trim, Layer.span_trim]
  cases y.child? "operator" <;> simp

lemma tryStatement_trim : tryStatement y.trim = tryStatement y := by
  simp only [tryStatement, Layer.child?_trim, valueAt_trim, Layer.span_trim]
  cases y.child? "finalizer" <;> simp

/-! ### Modules, enumerations and namespaces -/

@[simp] lemma moduleSource_trim : moduleSource i y.trim = moduleSource i y := by
  rw [moduleSource, Layer.child?_trim, slotFor_trim fun c => by rw [Concrete.span_trim],
    moduleSource]

lemma importSpecifier_trim : importSpecifier i c.trim = importSpecifier i c := by
  simp only [importSpecifier, Concrete.layer_trim, required_trim, Layer.child?_trim,
    Concrete.span_trim]
  cases c.layer.child? "alias" <;> simp

lemma importSpecifiers_trim : importSpecifiers i c.trim = importSpecifiers i c := by
  simp only [importSpecifiers, Concrete.symbol_trim, Concrete.layer_trim, Concrete.span_trim,
    Layer.first?_trim, identifier_trim]
  rw [Layer.constructs_trim c.layer (by decide), mapM_trim (importSpecifier_trim i)]
  cases c.layer.first? <;> simp

/-- Trivia in an import clause bind nothing. -/
lemma importSpecifiers_of_isTrivia (hc : c.isTrivia = true) : importSpecifiers i c = pure [] := by
  unfold importSpecifiers
  split
  · exact absurd ‹_› (Concrete.symbol_of_isTrivia hc (by decide))
  · exact absurd ‹_› (Concrete.symbol_of_isTrivia hc (by decide))
  · exact absurd ‹_› (Concrete.symbol_of_isTrivia hc (by decide))
  · rfl

/-- What an import clause binds does not depend on the trivia in it.  An import takes all named
children of the clause, also those that are skipped, and so this needs an induction over them. -/
lemma mapM_importSpecifiers_trim (cs : List Parsed) :
    List.flatten <$> ((Concrete.trimAll cs).filter (·.layer.named)).mapM (importSpecifiers i) =
      List.flatten <$> (cs.filter (·.layer.named)).mapM (importSpecifiers i) := by
  have cons (c : Parsed) (cs : List Parsed) :
      List.flatten <$> (c :: cs).mapM (importSpecifiers i) =
        importSpecifiers i c >>= fun ds =>
          (ds ++ ·) <$> (List.flatten <$> cs.mapM (importSpecifiers i)) := by
    simp
  induction cs with
  | nil => rfl
  | cons c cs ih =>
    rw [Concrete.trimAll]
    split
    · rename_i hc
      rw [ih, List.filter_cons]
      split
      · rw [cons, importSpecifiers_of_isTrivia i c hc, pure_bind]
        simp
      · rfl
    · rw [List.filter_cons, List.filter_cons, Concrete.layer_trim, Layer.named_trim]
      split
      · rw [cons, cons, ih, importSpecifiers_trim]
      · exact ih

lemma importStatement_trim : importStatement i y.trim = importStatement i y := by
  simp only [importStatement, Layer.span_trim, moduleSource_trim]
  rw [Layer.construct?_trim y (by decide)]
  cases y.construct? "import_clause" with
  | none => rfl
  | some c =>
    have hbound := congrArg (fun bound : Making (List Draft) => bound >>= fun ds => do
      make y.span .importDeclaration
        [(.specifiers, .ofList ds), (.source, ← moduleSource i y)])
      (mapM_importSpecifiers_trim i c.layer.children)
    simp only [bind_map_left] at hbound
    simp only [Option.map_some, Concrete.layer_trim, pure_bind]
    exact hbound

lemma exportSpecifier_trim : exportSpecifier i c.trim = exportSpecifier i c := by
  simp only [exportSpecifier, Concrete.layer_trim, required_trim, Layer.child?_trim,
    Concrete.span_trim]
  cases c.layer.child? "alias" <;> simp

lemma exportStatement_trim : exportStatement i y.trim = exportStatement i y := by
  simp only [exportStatement, Layer.child?_trim, Layer.span_trim, moduleSource_trim, valueAt_trim]
  rw [Layer.hasToken_trim y (by decide), Layer.hasToken_trim y (by decide),
    Layer.construct?_trim y (by decide)]
  have hexported : value (((y.child? "declaration").map Concrete.trim).orElse
      fun _ => (y.child? "value").map Concrete.trim) =
      value ((y.child? "declaration").orElse fun _ => y.child? "value") := by
    cases y.child? "declaration" with
    | none => exact value_trim _
    | some d => exact value_trim (some d)
  rw [hexported]
  cases y.construct? "export_clause" with
  | none => rfl
  | some c =>
    simp only [Option.map_some, Concrete.layer_trim]
    rw [Layer.constructs_trim c.layer (by decide), mapM_trim (exportSpecifier_trim i)]

lemma enumMember_trim : enumMember i c.trim = enumMember i c := by
  simp only [enumMember, Concrete.symbol_trim, Concrete.layer_trim, Layer.child?_trim,
    Layer.first?_trim, key_trim, valueAt_trim, Concrete.span_trim]
  cases c.layer.child? "name" <;> cases c.layer.first? <;> simp

lemma enumDeclaration_trim : enumDeclaration i y.trim = enumDeclaration i y := by
  simp only [enumDeclaration, Layer.child?_trim, identifierAt_trim, Layer.span_trim]
  rw [Layer.hasToken_trim y (by decide)]
  cases y.child? "body" <;> simp [mapM_trim (enumMember_trim i)]

lemma namespaceDeclaration_trim : namespaceDeclaration i y.trim = namespaceDeclaration i y := by
  simp only [namespaceDeclaration, Layer.child?_trim, valueAt_trim, Layer.span_trim]
  cases y.child? "name" with
  | none => rfl
  | some n => by_cases h : n.symbol = "identifier" <;> simp [h, Option.filter, slotFor]

/-! ### Markup elements -/

lemma nameEnds_trim :
    nameEnds y.trim = (fun e => (e.1.trim, e.2.trim)) <$> nameEnds y := by
  simp only [nameEnds, Layer.parts_trim, List.head?_map, List.getLast?_map]
  cases y.parts.head? <;> cases y.parts.getLast? <;> rfl

lemma readName_trim : readName i y.trim = readName i y := by
  simp only [readName, Layer.symbol_trim, Layer.child?_trim, Layer.span_trim, nameEnds_trim]
  cases y.child? "object" <;> cases y.child? "property" <;> simp

@[simp] lemma nameSlot_trim (o : Option Parsed) : nameSlot (o.map Concrete.trim) = nameSlot o :=
  slotFor_trim (fun c => by rw [Concrete.label_trim]) o

@[simp] lemma attributes_trim : attributes y.trim = attributes y := by
  rw [attributes, Layer.parts_trim, Layer.child?_trim, List.filter_map, values_trim, attributes]
  congr 2
  funext c
  cases y.child? "name" <;> simp

@[simp] lemma openingTag_trim (selfClosing : Bool) :
    openingTag selfClosing y.trim = openingTag selfClosing y := by
  simp [openingTag]

@[simp] lemma closingTag_trim : closingTag y.trim = closingTag y := by
  simp [closingTag]

lemma add_trim (e : ElementParts) : e.add c.trim = e.add c := by
  simp [ElementParts.add]

lemma element_trim : element y.trim = element y := by
  simp only [element, Layer.parts_trim, Layer.span_trim]
  rw [List.foldlM_map]
  congr 1
  congr 1
  funext e c
  exact add_trim c e

lemma elementAttribute_trim : elementAttribute y.trim = elementAttribute y := by
  simp [elementAttribute]

lemma braces_trim : braces y.trim = braces y := by
  simp only [braces, Layer.first?_trim, firstValue_trim, Layer.span_trim]
  cases y.first? with
  | none => rfl
  | some s => by_cases h : s.symbol = "spread_element" <;> simp [h, Option.filter]

/-! ### All rules -/

lemma readTarget_trim (v : Making (Option Draft)) :
    readTarget i y.trim v = readTarget i y v := by
  simp only [readTarget, Layer.symbol_trim, Layer.span_trim, objectPattern_trim, arrayPattern_trim,
    assignmentPattern_trim, restElement_trim, Layer.first?_trim, target_trim]

/-- Every rule reads a construct as it does without the trivia below it.  A rule that is not named
above takes its components by role or one after the other, and leaves nothing to show. -/
lemma rules_trim : ∀ e ∈ rules i, ∀ y : Layer Parsed, e.2 y.trim = e.2 y := by
  simp [rules, always, transparent, nameRule, program, expressionStatement, declaration_trim,
    call_trim, member, subscript, construction, assignment, combiningAssignment, update, binary,
    unary, conditional, sequence, await, yield, object_trim, array, spread, function_trim,
    arrowFunction_trim, block, returnStatement, ifStatement, forStatement, forEachStatement_trim,
    whileStatement, doStatement, tryStatement_trim, catchClause, classNode_trim,
    importStatement_trim, exportStatement_trim, ascription, presence, enumDeclaration_trim,
    namespaceDeclaration_trim, element_trim, emptyElement, elementAttribute_trim, braces_trim,
    markupText, Layer.hasToken_trim, skippedSymbols]

lemma readValue_trim : readValue i y.trim = readValue i y := by
  rw [readValue, Layer.symbol_trim, readValue]
  cases hrule : (rules i).lookup y.symbol with
  | none => simp [always]
  | some rule =>
    obtain ⟨l₁, l₂, hrules, -⟩ := List.lookup_eq_some_iff.1 hrule
    exact rules_trim i (y.symbol, rule) (by simp [hrules]) y

/-- All readings of a construct are those without the trivia below it. -/
lemma read_trim : read i y.trim = read i y := by
  simp only [read, Layer.symbol_trim, readName_trim, readValue_trim, readTarget_trim, readOperands,
    sequenceOperands_trim]

end Convert

/-! ## Whole trees -/

namespace Concrete

variable {α β : Type}

@[simp] lemma isTrivia_annotate (rule : Layer (Concrete β) → β) (c : Concrete α) :
    (c.annotate rule).isTrivia = c.isTrivia := by
  simp only [isTrivia, isSkipped, symbol, layer_annotate, Layer.map]

mutual

/-- Where a rule does not see trivia, annotating a tree without them is leaving them out of the
annotated tree. -/
lemma annotate_trim {rule : Layer (Concrete β) → β} (h : ∀ y, rule y.trim = rule y) :
    ∀ c : Concrete α, c.trim.annotate rule = (c.annotate rule).trim
  | mk l ⟨s, n, r, p, cs⟩ => by
    have hy : rule ⟨s, n, r, p, trimAll (annotateAll rule cs)⟩ =
      rule ⟨s, n, r, p, annotateAll rule cs⟩ := h ⟨s, n, r, p, annotateAll rule cs⟩
    simp only [trim, annotate, annotateAll_trim h cs, hy]

/-- `annotate_trim` on a list. -/
lemma annotateAll_trim {rule : Layer (Concrete β) → β} (h : ∀ y, rule y.trim = rule y) :
    ∀ cs : List (Concrete α), annotateAll rule (trimAll cs) = trimAll (annotateAll rule cs)
  | [] => rfl
  | c :: cs => by
    rw [annotateAll, trimAll, trimAll, isTrivia_annotate]
    split
    · exact annotateAll_trim h cs
    · rw [annotateAll, annotate_trim h c, annotateAll_trim h cs]

end

mutual

/-- `Padded c d` says that `d` is `c` with any number of trivia put in, at any place and depth. -/
inductive Padded : Concrete α → Concrete α → Prop
  | node {l : α} {s : String} {n : Bool} {r : Option String} {p : Span}
    {cs ds : List (Concrete α)} : PaddedAll cs ds →
    Padded (mk l ⟨s, n, r, p, cs⟩) (mk l ⟨s, n, r, p, ds⟩)

/-- `Padded` on the children of a node, among which there may be new ones. -/
inductive PaddedAll : List (Concrete α) → List (Concrete α) → Prop
  | nil : PaddedAll [] []
  | keep {c d : Concrete α} {cs ds : List (Concrete α)} :
    Padded c d → PaddedAll cs ds → PaddedAll (c :: cs) (d :: ds)
  | insert {d : Concrete α} {cs ds : List (Concrete α)} :
    d.isTrivia = true → PaddedAll cs ds → PaddedAll cs (d :: ds)

end

lemma Padded.isTrivia_eq {c d : Concrete α} (h : c.Padded d) : d.isTrivia = c.isTrivia := by
  obtain ⟨h⟩ := h
  rfl

mutual

/-- A tree with trivia put in is the same tree once all trivia are left out. -/
lemma Padded.trim_eq {c d : Concrete α} : c.Padded d → d.trim = c.trim
  | .node h => by rw [trim, trim, PaddedAll.trimAll_eq h]

/-- `Padded.trim_eq` on the children of a node. -/
lemma PaddedAll.trimAll_eq {cs ds : List (Concrete α)} : PaddedAll cs ds → trimAll ds = trimAll cs
  | .nil => rfl
  | .keep h hs => by
    rw [trimAll, trimAll, h.isTrivia_eq, Padded.trim_eq h, PaddedAll.trimAll_eq hs]
  | .insert h hs => by
    rw [trimAll, if_pos h, PaddedAll.trimAll_eq hs]

end

end Concrete

namespace Convert

lemma draft_trim (i : Input) (c : Concrete Unit) : draft i c.trim = draft i c := by
  rw [draft, Concrete.annotate_trim (read_trim i), Concrete.label_trim, draft]

lemma build_eq_of_padded {c d : Concrete Unit} (h : c.Padded d) (i : Input) :
    build i d = build i c := by
  rw [build, ← draft_trim i d, h.trim_eq, draft_trim i c, build]

end Convert

namespace Program

/-- A program is determined by what its tree is converted to. -/
lemma analyze_congr {source : Source} {options : Options} {c d : Concrete Unit}
    (h : Convert.build ⟨source, options.sourceType⟩ d =
      Convert.build ⟨source, options.sourceType⟩ c) :
    analyze source options d = analyze source options c := by
  unfold analyze
  split
  · rename_i f hd
    split <;> rename_i hc <;> cases hc.symm.trans (h.symm.trans hd)
    rfl
  · rename_i root hd
    split <;> rename_i hg <;> split <;> rename_i hc <;> cases hc.symm.trans (h.symm.trans hd)
    · split <;> rename_i hg' <;> cases hg.symm.trans hg'
      rfl
    · split <;> rename_i hg' <;> cases hg.symm.trans hg'
      rfl

/-- Trivia that are put into a tree change nothing.  Conversion gives the same nodes, with the same
spans and parts, or fails in the same way; so analysis gives the same program, and whatever is
extracted from it is the same. -/
theorem unchanged_of_padded {c d : Concrete Unit} (h : c.Padded d) (source : Source)
    (options : Options) :
    (∀ i, Convert.build i d = Convert.build i c) ∧
      analyze source options d = analyze source options c ∧
      (analyze source options d >>= RefObject.extract) =
        (analyze source options c >>= RefObject.extract) ∧
      (analyze source options d >>= Reactive.extract) =
        (analyze source options c >>= Reactive.extract) := by
  have hbuild : ∀ i, Convert.build i d = Convert.build i c := Convert.build_eq_of_padded h
  have hprogram : analyze source options d = analyze source options c := analyze_congr (hbuild _)
  refine ⟨hbuild, hprogram, ?_, ?_⟩
  · rw [hprogram]
  · rw [hprogram]

/-- The tree of `import{/**/ref}from'vue';ref(/**/0)`, given what stands in the braces and in the
parentheses. -/
def commentedCall (names arguments : List (Concrete Unit)) : Concrete Unit :=
  .node "program" none 0 35
    [.node "import_statement" none 0 25
      [.node "import_clause" none 6 15 [.node "named_imports" none 6 15 names],
       .node "string" (some "source") 19 24 []],
     .node "expression_statement" none 25 35
      [.node "call_expression" none 25 35
        [.identifier (some "function") 25 28,
         .node "arguments" (some "arguments") 28 35 arguments]]]

/-- The comments of this program, of which one is not named and has contents, change nothing, and
extraction has a result for the program with them. -/
theorem commentedCall_unchanged :
    let source : Source := ⟨"import{/**/ref}from'vue';ref(/**/0)".toUTF8.toList⟩
    let name : Concrete Unit :=
      .node "import_specifier" none 11 14 [.identifier (some "name") 11 14]
    let number : Concrete Unit := .node "number" none 33 34 []
    let d := commentedCall [.node "comment" none 7 11 [], name]
      [.mk () ⟨"comment", false, none, ⟨29, 33⟩, [number]⟩, number]
    let c := commentedCall [name] [number]
    c.Padded d ∧ analyze source {} d = analyze source {} c ∧
      (analyze source {} d >>= RefObject.extract).toOption.isSome := by
  intro source name number d c
  have hname : name.Padded name := .node (.keep (.node .nil) .nil)
  have hpadded : c.Padded d :=
    .node (.keep
      (.node (.keep (.node (.keep (.node (.insert rfl (.keep hname .nil))) .nil))
        (.keep (.node .nil) .nil)))
      (.keep
        (.node (.keep (.node (.keep (.node .nil)
          (.keep (.node (.insert rfl (.keep (.node .nil) .nil))) .nil))) .nil))
        .nil))
  have hsame := unchanged_of_padded hpadded source {}
  exact ⟨hpadded, hsame.2.1, by decide +kernel⟩

end Program

end RefFlow
