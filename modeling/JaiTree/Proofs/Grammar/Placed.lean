import JaiTree.Proofs.Grammar.Fills
import JaiTree.Proofs.Grammar.Heads

/-!
The rules of the grammar fill their places. What may stand in an operand is enclosed. Main
statement: `Goal.form_fills`.
-/

namespace JaiTree

theorem Growth.kind_isFree (growth : Growth) : growth.kind.isFree = true := by
  cases growth <;> rfl

theorem Growth.kind_isOrdinary (growth : Growth) : growth.kind.isOrdinary = true := by
  cases growth <;> rfl

theorem DeclarationShape.kind_isFree (shape : DeclarationShape) : shape.kind.isFree = true := by
  cases shape <;> rfl

theorem DeclarationShape.kind_isOrdinary (shape : DeclarationShape) :
    shape.kind.isOrdinary = true := by
  cases shape <;> rfl

namespace Grammar

open Form

variable {e : Bool} {loop place : Place} {other : Form}

theorem missing_fills {cause : String → Cause}
    (h : ∀ s limit, cause s ≠ .nestingTooDeep limit) : Fills e loop place (missing cause) :=
  .refuse fun s => h s.described

theorem expression_fills : Fills e loop place expression :=
  .enter (Place.operand_within place) nofun

theorem unary_fills : Fills e loop place unary :=
  .enter (Place.operand_within place) nofun

theorem type_fills : Fills e loop place type :=
  .enter (Place.operand_within place) nofun

theorem statement_fills : Fills false loop .statement statement :=
  .enter (fun _ _ => id) nofun

theorem identifier_fills : Fills e loop place identifier := .node rfl rfl .expect

theorem name_fills {field : Field} : Fills e loop place (.label field identifier) :=
  .label identifier_fills

theorem block_fills : Fills e loop place block :=
  .node rfl rfl (.seq (.seq .expect (.enter (Place.statement_within nofun) nofun)) .expect)

theorem blockOr_fills (h : Fills e loop place other) : Fills e loop place (blockOr other) := by
  refine .onSight fun s => ?_
  split
  · exact block_fills
  · exact h

theorem quotedString_fills : Fills e loop place quotedString := by
  refine .node rfl rfl (.seq (.seq .expect (.many (.onSight fun s => ?_))) .expect)
  split
  · exact .under rfl rfl .take
  · exact .under rfl rfl .take
  · exact .take

theorem hereString_fills : Fills e loop place hereString :=
  .node rfl rfl (.seq (.seq (.seq .expect name_fills) (.opt .take)) name_fills)

theorem string_fills : Fills e loop place string := by
  refine .onSight fun s => ?_
  split
  · exact quotedString_fills
  · exact hereString_fills
  · exact .faulty
  · exact missing_fills nofun

theorem stringOnLine_fills : Fills e loop place stringOnLine := .opt string_fills

theorem expressionOnLine_fills : Fills e loop place expressionOnLine := .opt expression_fills

/-- A value behind its name. -/
theorem assigned_fills :
    Fills e loop place (.label .name identifier ++ any ++ .label .value expression) :=
  .seq (.seq name_fills .take) (.label expression_fills)

theorem argumentList_fills : Fills e loop place argumentList := by
  refine .node rfl rfl (.seq (.seq .expect (.within (.items fun loop => ?_))) .expect)
  exact .under rfl rfl (.ifelse assigned_fills expression_fills)

theorem compositeElement_fills : Fills e loop (.under .compositeLiteral) compositeElement := by
  refine .under rfl rfl (.ifelse assigned_fills (.ifelse ?_ expression_fills))
  exact .seq (.seq (.seq .take name_fills) .take) (.label expression_fills)

theorem compositeBody_fills : Fills e loop (.under .compositeLiteral) compositeBody :=
  .seq (.seq (.seq .expect .expect) (.within (.items fun _ => compositeElement_fills)))
    .expect

theorem arrayBody_fills : Fills e loop place arrayBody :=
  .seq (.seq (.seq .expect .expect) (.within (.items fun _ => expression_fills))) .expect

theorem note_fills : Fills e loop place note := by
  refine .node rfl rfl (.seq (.seq .expect name_fills) (.onSight fun s => ?_))
  split
  · exact .empty
  split
  · exact string_fills
  split
  · exact .seq (.seq .take (.items fun _ => .label expression_fills)) .expect
  · exact .empty

/-- A range stands where one may. -/
theorem range_fills (holds : place.holds none .rangeExpression) : Fills e loop place range :=
  .grow (fun _ => holds) nofun (fun _ => rfl) expression_fills
    fun _ => .seq .take (.label expression_fills)

/-- A range in the part of a node that may hold one. -/
theorem rangePart_fills {kind : NodeKind} {field : Field}
    (holds : (Place.under kind).holds (some field) .rangeExpression) :
    Fills e loop (.under kind) (.label field range) := by
  let inner : Place := ⟨fun _ made => made.isFree = true ∨ made = .rangeExpression, fun _ _ => .inl⟩
  refine @Fills.part e loop inner _ field range ?_ (range_fills (.inr rfl))
  rintro old made (free | rfl)
  · exact (Place.under kind).free _ _ free
  · exact holds

theorem growthBody_fills (growth : Growth) :
    Fills e loop (.under growth.kind) (growthBody growth) := by
  cases growth with
  | binary power => exact .seq .take (.label (.enter (Place.operand_within _) nofun))
  | member => exact .seq .expect name_fills
  | composite => exact compositeBody_fills
  | array => exact arrayBody_fills
  | index => exact .seq (.seq .expect (.within (rangePart_fills rfl))) .expect
  | call => exact .label argumentList_fills

theorem growing_fills {many : Bool} {first : Form} {look : Setting → Glance (Option Growth)}
    (h : Fills e loop .operand first) : Fills e loop place (growing many first look) :=
  .grow (fun growth => place.free _ _ (Growth.kind_isFree growth))
    (fun _ growth => Growth.kind_isFree growth) Growth.kind_isOrdinary h growthBody_fills

theorem parameterRest_fills : Fills e loop place parameterRest := by
  refine .seq (.opt (.seq (.seq .take .optToken) (.opt (.label type_fills))))
    (.settled fun w => ?_)
  split
  · exact .seq .take (.label expression_fills)
  · exact .empty

theorem parameter_fills : Fills e loop (.under .parameterList) parameter := by
  refine .under rfl rfl (.seq (.settled fun w => ?_) (.settled fun w => ?_))
  · split
    · exact .take
    · exact .empty
  · split
    · exact .seq (.seq .take name_fills) parameterRest_fills
    · exact .seq name_fills parameterRest_fills
    · exact .label type_fills

theorem parameters_fills : Fills e loop place parameters :=
  .seq (.seq .expect (.opt (.label (.parameters (.someItems fun _ => parameter_fills))))) .expect

theorem returnType_fills : Fills e loop (.under .returnTypeList) returnType := by
  refine .under rfl rfl (.seq (.seq (.settled fun w => ?_) (.label type_fills)) (.opt .take))
  split
  · exact .seq name_fills .take
  · exact .empty

theorem returnTypeList_fills : Fills e loop place returnTypeList := by
  refine .returns rfl (.ifelse ?_ ?_)
  · exact .seq (.seq .take (.separated fun _ => returnType_fills)) .expect
  · refine .seq returnType_fills (.fix (.choose fun more => ?_))
    split
    · exact .seq (.seq .take returnType_fills) .repeats
    · exact .empty

theorem signature_fills : Fills e loop place signature :=
  .seq parameters_fills (.opt (.seq .take (.label returnTypeList_fills)))

theorem operandForm_fills (operand : Operand) : Fills e loop place (operandForm operand) := by
  cases operand with
  | expression => exact blockOr_fills expression_fills
  | optionalExpression => exact expressionOnLine_fills
  | optionalString => exact stringOnLine_fills
  | foreignName => exact .seq (.opt identifier_fills) stringOnLine_fills
  | bake => exact .seq identifier_fills (.label argumentList_fills)
  | optionalType =>
    refine .settled fun w => ?_
    split
    · exact type_fills
    · exact .empty
  | codeBody => exact blockOr_fills expressionOnLine_fills
  | parameterList => exact parameters_fills
  | bare | hereString | statementOnly => exact .empty

theorem misplaced_fills : Fills e loop place misplaced := .refuse nofun

theorem directive_fills : Fills e loop place directive := by
  refine .onSight fun s => ?_
  split
  · exact missing_fills nofun
  · split
    · exact misplaced_fills
    · exact hereString_fills
    · exact .node rfl rfl (.seq .take (operandForm_fills _))

theorem trailingDirectives_fills : Fills e loop place trailingDirectives := .many directive_fills

theorem pointerType_fills : Fills e loop place pointerType :=
  .node rfl rfl (.seq (.many .take) (.label type_fills))

theorem arrayType_fills : Fills e loop place arrayType := by
  have size {loop : Place} : Fills e loop (.under .arrayType) arraySize := by
    refine .choose fun size => ?_
    split
    · exact .empty
    · exact .take
    · exact rangePart_fills rfl
  exact .node rfl rfl (.seq (.seq (.seq .expect size) .expect) (.label type_fills))

theorem procedureType_fills : Fills e loop place procedureType :=
  .node rfl rfl (.seq (.seq (.opt .take) signature_fills) (.many directive_fills))

theorem identifierType_fills : Fills e loop place identifierType := by
  refine .settled fun w => ?_
  split
  · exact .node rfl rfl .take
  · exact .ifelse procedureType_fills (growing_fills identifier_fills)

theorem typeRule_fills : Fills e loop place typeRule := by
  refine .onSight fun s => ?_
  split
  · exact identifierType_fills
  · exact pointerType_fills
  · exact arrayType_fills
  · exact procedureType_fills
  · exact .node rfl rfl (.seq .expect identifier_fills)
  · split
    · exact directive_fills
    · exact missing_fills nofun
  · exact missing_fills nofun

theorem primary_fills : Fills e loop place primary := by
  refine .onSight fun s => ?_
  split
  iterate 3 exact .node rfl rfl .take
  exact missing_fills nofun

theorem prefixed_fills : Fills e loop place prefixed :=
  .node rfl rfl (.seq .take (.label unary_fills))

theorem cast_fills : Fills e loop place cast := by
  refine .node rfl rfl (.onSight fun s => .seq ?_ (.label unary_fills))
  split
  · exact .seq (.seq (.seq (.seq .take (.many (.seq .take .take))) .expect) (.label type_fills))
      .expect
  · exact .take

theorem inlined_fills : Fills e loop place inlined := by
  refine .settled fun w => ?_
  split
  · exact procedureType_fills
  · exact .node rfl rfl (.seq .take unary_fills)

theorem conditionalValue_fills : Fills e loop place conditionalValue :=
  .node rfl rfl (.seq (.seq (.seq (.seq .take (.label expression_fills)) (.opt .take))
    (.label expression_fills)) (.opt (.seq .take (.label expression_fills))))

theorem parenthesized_fills : Fills e loop place parenthesized := by
  refine .settled fun w => ?_
  split
  · exact procedureType_fills
  · exact .node rfl rfl (.seq (.seq .expect (.within expression_fills)) .expect)

theorem typeOperand_fills : Fills e loop place typeOperand := by
  refine .settled fun w => ?_
  split
  · exact type_fills
  · exact missing_fills nofun

theorem leadingPoint_fills : Fills e loop place leadingPoint :=
  .choose fun growth => .node (Growth.kind_isFree growth) (Growth.kind_isOrdinary growth)
    (growthBody_fills growth)

theorem operandOf_fills (s : Sight) : Fills e loop place (operandOf s) := by
  have refused : Fills e loop place (missing .expectedExpression) := missing_fills nofun
  rw [operandOf]
  split
  iterate 3 exact primary_fills
  · exact quotedString_fills
  · exact .faulty
  · exact parenthesized_fills
  · exact leadingPoint_fills
  · exact note_fills
  iterate 6 exact prefixed_fills
  iterate 2 exact typeOperand_fills
  · exact hereString_fills
  · split
    · exact directive_fills
    · exact misplaced_fills
  · exact refused

theorem keywordLiteral_fills : Fills e loop place keywordLiteral := by
  refine .onSight fun s => ?_
  split
  all_goals exact .node rfl rfl .take

theorem operand_fills : Fills e loop place operand := by
  refine .onSight fun s => ?_
  split
  iterate 3 exact keywordLiteral_fills
  iterate 2 exact .ifelse (operandOf_fills s) cast_fills
  iterate 2 exact .ifelse (operandOf_fills s) inlined_fills
  · exact conditionalValue_fills
  · exact operandOf_fills s

theorem expressionRule_fills (floor : Power) : Fills e loop place (expressionRule floor) :=
  growing_fills operand_fills

theorem optSemicolon_fills : Fills e loop place optSemicolon := .optToken

theorem bodyItems_fills {item : Form} (h : ∀ loop, Fills false loop place item) :
    Fills false loop place (bodyItems item) := by
  refine .fix (.onSight fun s => ?_)
  split
  iterate 2 exact .empty
  · exact .seq .take .repeats
  · exact .seq (.guard (h _)) .repeats

theorem structBody_fills : Fills false loop place structBody := by
  have rest {loop : Place} : Fills false loop (.under .structMember) memberRest :=
    .seq (.opt (.label type_fills)) (.opt (.seq .take (.label expression_fills)))
  have member {loop : Place} : Fills false loop (.under .structBody) structMember :=
    .under rfl rfl (.seq (.seq (.seq (.seq (.seq (.separated fun _ => name_fills) .expect) rest)
      trailingDirectives_fills) (.opt note_fills)) optSemicolon_fills)
  refine .node rfl rfl (.seq (.seq .expect (bodyItems_fills fun loop => .onSight fun s => ?_))
    .expect)
  split
  · exact note_fills
  · exact .ifelse member (.statement nofun statement_fills)

theorem enumBody_fills : Fills false loop place enumBody := by
  have member {loop : Place} : Fills false loop (.under .enumBody) enumMember :=
    .under rfl rfl (.seq (.seq name_fills (.opt (.seq .take (.label expression_fills))))
      optSemicolon_fills)
  refine .node rfl rfl (.seq (.seq .expect (bodyItems_fills fun loop => .onSight fun s => ?_))
    .expect)
  split
  · exact member
  · exact .statement nofun statement_fills

theorem procedure_fills : Fills false loop place procedure := by
  refine .seq (.seq (.seq (.ifelse .take .empty) signature_fills) (.many directive_fills))
    (.settled fun w => ?_)
  split
  · exact .label block_fills
  · exact optSemicolon_fills

theorem overloadedOperator_fills : Fills false loop place overloadedOperator := by
  refine .onSight fun s => ?_
  split
  · exact .seq (.seq .take .expect) (.opt .take)
  · exact .take

theorem functionDeclaration_fills : Fills false loop place functionDeclaration := by
  refine .seq (.seq (.ifelse (.seq .take overloadedOperator_fills) name_fills) .expect)
    (.onSight fun s => ?_)
  split
  · exact procedure_fills
  split
  · exact .seq (.seq (.seq .take identifier_fills) (.label argumentList_fills)) optSemicolon_fills
  split
  · exact .seq .take procedure_fills
  · exact procedure_fills

theorem importedModule_fills : Fills false loop place importedModule :=
  .seq (.seq (.seq .take (.label string_fills)) (.opt (.label argumentList_fills)))
    optSemicolon_fills

theorem generalDeclaration_fills : Fills false loop place generalDeclaration := by
  have values {loop : Place} : Fills false loop place declaredValues :=
    .separated fun _ => .label expression_fills
  refine .seq (.seq (.separated fun _ => name_fills) (.onSight fun s => ?_)) optSemicolon_fills
  split
  · exact .seq .take values
  · exact .seq (.seq .take (.opt (.label type_fills))) (.opt (.seq .take values))
  · exact missing_fills nofun

theorem declarationBody_fills (shape : DeclarationShape) :
    Fills false loop place (declarationBody shape) := by
  cases shape with
  | struct =>
    exact .seq (.seq (.seq (.seq (.seq name_fills .expect) .take) (.opt parameters_fills))
      trailingDirectives_fills) (.label structBody_fills)
  | enum =>
    exact .seq (.seq (.seq (.seq (.seq name_fills .expect) .take) (.opt (.label type_fills)))
      trailingDirectives_fills) (.label enumBody_fills)
  | function | bake => exact functionDeclaration_fills
  | foreignLibrary =>
    exact .seq (.seq (.seq (.seq name_fills .expect) .take) (.label string_fills))
      optSemicolon_fills
  | importing => exact .seq (.seq name_fills .expect) importedModule_fills
  | general => exact generalDeclaration_fills

theorem declaration_fills (shape : DeclarationShape) : Fills false loop place (declaration shape) :=
  .node (DeclarationShape.kind_isFree shape) (DeclarationShape.kind_isOrdinary shape)
    (declarationBody_fills shape)

theorem body_fills (conflict : Conflict) : Fills false loop .statement (body conflict) := by
  refine .settled fun w => ?_
  split
  · exact block_fills
  · exact statement_fills

theorem statements_fills {listEnd : ListEnd} (h : Fills false place place (listItem listEnd)) :
    Fills false loop place (statements listEnd) := by
  refine .fix (.choose fun step => ?_)
  cases step with
  | stop => exact .empty
  | semicolon => exact .seq .take .repeats
  | item => exact .seq (.guard h) .repeats

theorem conditional_fills : Fills false loop .statement conditional := by
  have inner {loop : Place} {field : Field} {body : Form} (h : Fills false loop .statement body) :
      Fills false loop .statement (.label field body) := .part (fun _ _ => id) h
  have branch : Fills false .statement .statement elseBranch := by
    refine .settled fun w => ?_
    split
    · exact .label block_fills
    · refine .ifelse (.label (.node rfl rfl (.seq .take ?_))) (inner statement_fills)
      exact .again (Place.statement_within nofun)
  exact .fix (.seq (.label (.within expression_fills)) (.ifelse
    (.seq .take (.label block_fills)) (.seq (.seq (.opt .take) (inner (body_fills _)))
      (.opt (.seq .take branch)))))

theorem usingStatement_fills : Fills false loop place usingStatement := by
  refine .node rfl rfl (.seq (.seq .take (.ifelse (.seq (.seq .take .take)
    (.opt argumentList_fills)) .empty)) (.choose fun shape => ?_))
  cases shape with
  | some shape => exact .label (declaration_fills shape)
  | none => exact .seq (.label expression_fills) optSemicolon_fills

theorem forStatement_fills : Fills false loop place forStatement :=
  .node rfl rfl (.seq (.seq (.seq (.seq .take (.many .take)) (.ifelse (.seq
    (.separated fun _ => name_fills) .expect) .empty)) (rangePart_fills rfl))
    (.branch nofun (body_fills _)))

theorem caseStatement_fills : Fills false loop .statement caseStatement :=
  have items {loop : Place} : Fills false loop .anything (statements .nextCase) :=
    statements_fills (.part (fun _ _ _ => trivial) statement_fills)
  .under (.inr rfl) rfl (.seq (.seq (.seq .take (.opt (rangePart_fills rfl))) .expect)
    (.cases items))

/-- Only the word for a case makes one. -/
theorem keywordStatement_fills {keyword : Keyword} (other : keyword ≠ .caseWord) :
    Fills false loop place (keywordStatement keyword) := by
  unfold keywordStatement
  split
  iterate 2 exact .node rfl rfl (.seq .take (.statement nofun conditional_fills))
  · exact .node rfl rfl (.seq (.seq .take (.label expression_fills)) (.branch nofun (body_fills _)))
  · exact forStatement_fills
  · exact .node rfl rfl (.seq (.seq .take (.opt (.separated fun _ => .label expression_fills)))
      optSemicolon_fills)
  iterate 2
    refine .onSight fun s => ?_
    split
    iterate 2
      exact .node rfl rfl (.seq (.seq .take (.opt identifier_fills)) optSemicolon_fills)
  · exact .node rfl rfl (.seq .take (.branch nofun (body_fills _)))
  · exact .node rfl rfl (.seq (.seq .take (.label expression_fills)) optSemicolon_fills)
  · exact usingStatement_fills
  · exact absurd rfl other
  · exact missing_fills nofun

theorem expressionList_fills : Fills false loop place expressionList := by
  have operator {loop place : Place} : Fills false loop place assignmentOperator := by
    refine .onSight fun s => ?_
    split
    · exact .take
    · exact missing_fills nofun
  refine .grow (fun assigned => place.free _ _ ?_) nofun (fun assigned => ?_) expression_fills
    fun assigned => ?_
  all_goals cases assigned
  iterate 4 rfl
  · exact optSemicolon_fills
  · exact .seq (.seq (.seq (.many (.seq .take (.label expression_fills))) operator)
      (.separated fun _ => .label expression_fills)) optSemicolon_fills

theorem annotated_fills : Fills false loop place annotated :=
  .lead ⟨_, rfl⟩ DeclarationShape.kind_isFree DeclarationShape.kind_isOrdinary (.many note_fills)
    (fun shape => declarationBody_fills shape) expressionList_fills

theorem asmBlock_fills : Fills false loop place asmBlock := by
  have features {loop : Place} : Fills false loop (.under .asmBlock) asmFeatures :=
    .fix (.opt (.seq name_fills (.opt (.seq .take .repeats))))
  exact .node rfl rfl (.seq (.seq (.seq (.seq .take features) .expect) .optToken) .expect)

/-- A statement of any shape but that of a case may stand everywhere. -/
theorem statementRule_eq : ∃ next : StatementShape → Form,
    statementRule = .choose (fun _ => StatementShape.glance) next
      ∧ next (.keyword .caseWord) = caseStatement
      ∧ ∀ loop place shape, shape ≠ .keyword .caseWord → Fills false loop place (next shape) := by
  refine ⟨_, rfl, rfl, fun loop place shape other => ?_⟩
  cases shape with
  | lexicalError => exact .faulty
  | empty => exact missing_fills nofun
  | block => exact block_fills
  | annotated => exact annotated_fills
  | importing => exact .node rfl rfl importedModule_fills
  | load => exact .node rfl rfl (.seq (.seq .take (.label string_fills)) optSemicolon_fills)
  | asm => exact asmBlock_fills
  | scope => exact .node rfl rfl (.node rfl rfl .take)
  | staticIf => exact .node rfl rfl (.seq .take (.statement nofun conditional_fills))
  | directive => exact .node rfl rfl (.seq directive_fills optSemicolon_fills)
  | keyword keyword => exact keywordStatement_fills fun same => other (congrArg _ same)
  | operator => exact declaration_fills .function
  | declaration shape => exact declaration_fills shape
  | expressionList => exact expressionList_fills

theorem statementRule_fills : Fills false loop .statement statementRule := by
  obtain ⟨next, same, isCase, fills⟩ := statementRule_eq
  rw [same]
  refine .choose fun shape => ?_
  by_cases other : shape = .keyword .caseWord
  · rw [other, isCase]
    exact caseStatement_fills
  · exact fills _ _ shape other

/-- A whole text holds statements. -/
theorem sourceFile_fills : Fills false loop place sourceFile :=
  .node rfl rfl (.seq (.statement nofun (statements_fills statement_fills)) .take)

end Grammar

/-- The rules that count as levels fill their places. -/
theorem Goal.form_fills (goal : Goal) {loop : Place} : goal.form.Fills false loop goal.place := by
  cases goal with
  | expression floor => exact Grammar.expressionRule_fills floor
  | type => exact Grammar.typeRule_fills
  | statement => exact Grammar.statementRule_fills
  | blockItems => exact .within (Grammar.statements_fills Grammar.statement_fills)

/-- The rules of operands are enclosed. -/
theorem Goal.form_enclosed {goal : Goal} (operand : goal.IsOperand) {loop : Place} :
    goal.form.Fills true loop goal.place := by
  obtain rfl | ⟨floor, rfl⟩ := operand
  · exact Grammar.typeRule_fills
  · exact Grammar.expressionRule_fills floor

end JaiTree
