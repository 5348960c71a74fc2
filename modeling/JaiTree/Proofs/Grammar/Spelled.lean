import JaiTree.Proofs.Tree.Productions

/-!
What the rules of expressions, types and declarations spell: each makes its nodes as the productions
of their kinds say. Main statements: `Grammar.growthBody_spells`, `Grammar.operand_spells`.
-/

namespace JaiTree

open Production Computability

namespace Form.Spells

variable {eof : Padded} {known : Known} {body : Form} {made : Language Child}

theorem token {kind : TokenKind} (solid : kind.isSolid = true) :
    Spells eof known (token kind) (Production.token kind) := expect solid

theorem any : Spells eof known any ⊤ := anything

theorem optToken {kind : TokenKind} (solid : kind.isSolid = true) :
    Spells eof known (optToken kind) (optional (Production.token kind)) :=
  opt <| take fun rest ⟨_, here⟩ => by
    have same : (ahead eof rest 0).token.kind = kind := of_decide_eq_true here
    rw [Token.isTrivia, same]
    exact ⟨TokenKind.ne_eof_of_isSolid solid, TokenKind.not_isTrivia_of_isSolid solid, rfl⟩

theorem word {keyword : Keyword}
    (here : ∀ rest, known rest → (ahead eof rest 0).sight.keyword? = some keyword) :
    Spells eof known Form.any (Production.word keyword) :=
  take fun rest knows => by
    have spelled : (ahead eof rest 0).token.keyword? = some keyword := here rest knows
    have kind : (ahead eof rest 0).token.kind = .identifier := by
      rw [Lexeme.keyword?] at spelled
      split at spelled
      · assumption
      · cases spelled
    rw [Token.isTrivia, kind]
    exact ⟨by decide, rfl, spelled⟩

theorem optWord {keyword : Keyword} :
    Spells eof known (Grammar.optWord keyword) (optional (Production.word keyword)) :=
  opt (word fun _ ⟨_, here⟩ => of_decide_eq_true here)

theorem of_false (none : ∀ rest, ¬known rest) : Spells eof known body made :=
  fun _ _ _ _ _ rest _ knows => absurd knows (none rest)

end Form.Spells

theorem Growth.isExpression_kind (growth : Growth) : growth.kind.isExpression = true := by
  cases growth <;> rfl

namespace Grammar

variable {eof : Padded} {known : Known} {field : Field} {other : Form}

section Literals

theorem element_spells {floor : Power} :
    (Form.enter (.expression floor)).Spells eof known element := .enter

theorem expression_spells : expression.Spells eof known one := element_spells.one

theorem unary_spells : unary.Spells eof known one := element_spells.one

theorem type_spells : type.Spells eof known one := .enter

theorem identifier_spells : identifier.Spells eof known (inner .identifier) :=
  .under (.token rfl) le_top

theorem name_spells : (Form.label field identifier).Spells eof known (part field) :=
  .label identifier_spells.one

theorem stringPiece_spells : stringPiece.Spells eof known ⊤ :=
  .onSight fun s => by
    split
    · exact (Form.Spells.under .any le_top).top
    · exact (Form.Spells.under .any le_top).top
    · exact .any

theorem quotedString_spells : quotedString.Spells eof known (inner .stringLiteral) :=
  .under (.seq (.seq (.token rfl) (.many stringPiece_spells)) (.token rfl)) le_top

theorem hereString_spells : hereString.Spells eof known (inner .stringLiteral) :=
  .under (.seq (.seq (.seq (.token rfl) name_spells) (.opt .anything)) name_spells) le_top

theorem string_spells : string.Spells eof known one :=
  .onSight fun s => by
    split
    · exact quotedString_spells.one
    · exact hereString_spells.one
    · exact Form.Spells.faulty.one
    · exact .refuse

theorem block_spells : block.Spells eof known (inner .block) :=
  .under (.seq (.seq (.token rfl) .enter) (.token rfl)) le_top

theorem blockOr_spells (h : ∀ known, other.Spells eof known ⊤) :
    (blockOr other).Spells eof known ⊤ :=
  .onSight fun s => by
    split
    · exact block_spells.top
    · exact h _

theorem expressionOnLine_spells : expressionOnLine.Spells eof known ⊤ :=
  (Form.Spells.opt expression_spells).top

theorem stringOnLine_spells : stringOnLine.Spells eof known ⊤ :=
  (Form.Spells.opt string_spells).top

end Literals

section Arguments

/-- A value behind its name. -/
theorem named_spells :
    (Form.label .name identifier ++ Form.any ++ Form.label .value expression).Spells eof known ⊤ :=
  (Form.Spells.seq (.seq name_spells .any) (.label expression_spells)).top

theorem argument_spells : argument.Spells eof known (inner .argument) :=
  .under (.ifelse named_spells expression_spells.top) le_top

theorem argumentList_spells : argumentList.Spells eof known (inner .argumentList) :=
  .under (.seq (.seq (.token rfl) (.within (.items (by decide) fun _ => argument_spells)))
    (.token rfl)) le_rfl

theorem compositeElement_spells : compositeElement.Spells eof known (inner .compositeElement) := by
  have member {known : Known} : (Form.any ++ Form.label .member identifier ++ Form.any
      ++ Form.label .value expression).Spells eof known ⊤ :=
    (Form.Spells.seq (.seq (.seq .any name_spells) .any) (.label expression_spells)).top
  exact .under (.ifelse named_spells (.ifelse member expression_spells.top)) le_top

theorem note_spells : note.Spells eof known (inner .note) := by
  refine .under (.seq (.seq (.token rfl) name_spells)
    (@Form.Spells.onSight eof _ ⊤ _ fun s => ?_)) le_top
  split
  · exact Form.Spells.empty.top
  split
  · exact string_spells.top
  split
  · exact (Form.Spells.seq (.seq .any (.items (by decide) fun _ => .label expression_spells))
      (.token rfl)).top
  · exact Form.Spells.empty.top

end Arguments

section Signatures

theorem parameterRest_spells : parameterRest.Spells eof known ⊤ := by
  refine (Form.Spells.seq (.opt (.seq (.seq .any (.opt .any)) (.opt (.label type_spells))))
    (@Form.Spells.settled eof _ ⊤ _ _ fun w => ?_)).top
  split
  · exact (Form.Spells.seq .any (.label expression_spells)).top
  · exact Form.Spells.empty.top

theorem parameter_spells : parameter.Spells eof known (inner .parameterDeclaration) := by
  refine .under (.seq (@Form.Spells.settled eof _ ⊤ _ _ fun w => ?_)
    (@Form.Spells.settled eof _ ⊤ _ _ fun w => ?_)) le_top
  · split
    · exact .any
    · exact Form.Spells.empty.top
  · split
    · exact (Form.Spells.seq (.seq .any name_spells) parameterRest_spells).top
    · exact (Form.Spells.seq name_spells parameterRest_spells).top
    · exact (Form.Spells.label type_spells).top

theorem parameters_spells : parameters.Spells eof known ⊤ := by
  have list {known : Known} : parameterList.Spells eof known (inner .parameterList) :=
    .within (.under (.seq parameter_spells (.many (.seq .any (.opt parameter_spells)))) le_top)
  exact (Form.Spells.seq (.seq (.token rfl) (.opt (.label list))) (.token rfl)).top

theorem returnType_spells : returnType.Spells eof known (inner .returnType) := by
  refine .under (.seq (.seq (@Form.Spells.settled eof _ ⊤ _ _ fun w => ?_) (.label type_spells))
    (.opt .any)) le_top
  split
  · exact (Form.Spells.seq name_spells .any).top
  · exact Form.Spells.empty.top

theorem returnTypeList_spells : returnTypeList.Spells eof known (inner .returnTypeList) := by
  have more {known : Known} : moreReturns.Spells eof known ⊤ :=
    .fix <| .choose fun more => by
      cases more with
      | true => exact (Form.Spells.seq (.seq .any returnType_spells) .again).top
      | false => exact Form.Spells.empty.top
  exact .under (.ifelse
    (Form.Spells.seq (.seq .any (.separated fun _ => returnType_spells)) (.token rfl)).top
    (Form.Spells.seq returnType_spells more).top) le_top

theorem signature_spells : signature.Spells eof known ⊤ :=
  (Form.Spells.seq parameters_spells
    (.opt (.seq .any (.label returnTypeList_spells)))).top

end Signatures

section Directives

theorem operandForm_spells (operand : Operand) : (operandForm operand).Spells eof known ⊤ := by
  cases operand with
  | expression => exact blockOr_spells fun _ => expression_spells.top
  | optionalExpression => exact expressionOnLine_spells
  | optionalString => exact stringOnLine_spells
  | foreignName => exact (Form.Spells.seq (.opt identifier_spells) stringOnLine_spells).top
  | bake => exact (Form.Spells.seq identifier_spells (.label argumentList_spells)).top
  | optionalType =>
    refine .settled fun w => ?_
    split
    · exact type_spells.top
    · exact Form.Spells.empty.top
  | codeBody => exact blockOr_spells fun _ => expressionOnLine_spells
  | parameterList => exact parameters_spells
  | bare | hereString | statementOnly => exact Form.Spells.empty.top

theorem directive_spells : directive.Spells eof known element :=
  .onSight fun s => by
    split
    · exact .refuse
    split
    · exact .refuse
    · exact hereString_spells.element rfl
    · exact (Form.Spells.under (.seq .any (operandForm_spells _)) le_top).element rfl

theorem trailingDirectives_spells : trailingDirectives.Spells eof known ⊤ :=
  (Form.Spells.many directive_spells).top

end Directives

section Growth

theorem range_spells : range.Spells eof known one := by
  refine .grow expression_spells (fun k => .seq (.take fun rest found => ?_)
    (.label expression_spells)) (fun _ _ => (mul_assoc _ _ _).ge) fun _ => trivial
  have dots : (ahead eof rest 0).token.kind = .dotDot := by
    obtain ⟨_, found⟩ := found
    rw [Glance.run_bind, Glance.run_kindAt] at found
    split at found
    · assumption
    · cases found
  rw [Token.isTrivia, dots]
  exact ⟨by decide, rfl, rfl⟩

/-- What stands after the operand in the larger expression. -/
def growthMade : Growth → Language Child
  | .binary _ => operator Joins * part .right
  | .member => token .dot * part .member
  | .composite =>
    token .dot * token .openCurly * Production.items (inner .compositeElement) * token .closeCurly
  | .array => token .dot * token .openBracket * Production.items element * token .closeBracket
  | .index => token .openBracket * part .index * token .closeBracket
  | .call => part .arguments

theorem seen_of_joins {kind : TokenKind} (joins : Joins kind) :
    kind ≠ .eof ∧ kind.isTrivia = false := by
  obtain ⟨power, binds, -⟩ := joins
  unfold TokenKind.power? at binds
  split at binds
  all_goals first
    | exact ⟨by decide, rfl⟩
    | cases binds

theorem growthBody_spells (growth : Growth)
    (joins : ∀ power, growth = .binary power → ∀ rest, known rest →
      Joins (ahead eof rest 0).token.kind) :
    (growthBody growth).Spells eof known (growthMade growth) := by
  cases growth with
  | binary power =>
    refine .seq (.take fun rest knows => ?_) (.label element_spells.one)
    have joins := joins power rfl rest knows
    exact ⟨(seen_of_joins joins).1, (seen_of_joins joins).2, joins⟩
  | member => exact .seq (.token rfl) name_spells
  | composite =>
    exact .seq (.seq (.seq (.token rfl) (.token rfl))
      (.within (.items (by decide) fun _ => compositeElement_spells))) (.token rfl)
  | array =>
    exact .seq (.seq (.seq (.token rfl) (.token rfl))
      (.within (.items (by decide) fun _ => element_spells))) (.token rfl)
  | index => exact .seq (.seq (.token rfl) (.within (.label range_spells))) (.token rfl)
  | call => exact .label argumentList_spells.one

/-- An operand and what stands after it are a word of the production of the larger expression. -/
theorem growthMade_le (growth : Growth) :
    part growth.field * growthMade growth ≤ growth.kind.production := by
  cases growth with
  | binary power => exact (mul_assoc _ _ _).ge
  | member | composite | array =>
    simp only [growthMade, NodeKind.production, Growth.kind, Growth.field, ← mul_assoc]
    gcongr
    exact le_optional _
  | index =>
    simp only [growthMade, ← mul_assoc]
    exact le_rfl
  | call => exact le_rfl

/-- So is what stands after a point alone. -/
theorem growthMade_le_alone {growth : Growth}
    (pointed : growth = .member ∨ growth = .composite ∨ growth = .array) :
    growthMade growth ≤ growth.kind.production := by
  rcases pointed with rfl | rfl | rfl
  all_goals
    simp only [growthMade, NodeKind.production, Growth.kind, mul_assoc]
    exact le_optional_mul _ _

theorem pointed_of_ofPoint {rest : List Padded} {growth : Growth}
    (found : Growth.ofPoint.run eof rest = growth) :
    growth = .member ∨ growth = .composite ∨ growth = .array := by
  rw [Growth.ofPoint, Glance.run_bind] at found
  split at found
  all_goals
    subst found
    simp

theorem growing_spells {many : Bool} {first : Form} {look : Setting → Glance (Option Growth)}
    {fits : NodeKind → Prop} (head : first.Spells eof known (node none fits))
    (joins : ∀ setting rest power, (look setting).run eof rest = some (.binary power) →
      Joins (ahead eof rest 0).token.kind) (kinds : ∀ growth : Growth, fits growth.kind) :
    (growing many first look).Spells eof known (node none fits) := by
  refine .grow head (fun growth => growthBody_spells growth ?_)
    (fun growth _ => growthMade_le growth) kinds
  rintro power rfl rest ⟨setting, found⟩
  exact joins setting rest power found

theorem leadingPoint_spells : leadingPoint.Spells eof known element := by
  refine .choose fun growth => ?_
  by_cases pointed : growth = .member ∨ growth = .composite ∨ growth = .array
  · refine (Form.Spells.under (growthBody_spells growth fun power binary => ?_)
      (growthMade_le_alone pointed)).element growth.isExpression_kind
    rw [binary] at pointed
    simp at pointed
  · exact .of_false fun rest ⟨_, _, found⟩ => pointed (pointed_of_ofPoint found)

end Growth

section Types

theorem procedureType_spells : procedureType.Spells eof known (inner .procedureType) :=
  .under (.seq (.seq (.opt .any) signature_spells) (.many directive_spells)) le_top

theorem namedType_spells : namedType.Spells eof known one := by
  obtain ⟨look, same, never⟩ := namedType_eq
  rw [same]
  exact growing_spells identifier_spells.one
    (fun setting rest power found => absurd found (never eof setting rest power)) fun _ => trivial

theorem arraySize_spells : arraySize.Spells eof known ⊤ :=
  .choose fun size => by
    rcases size with _ | _ | _
    · exact (Form.Spells.label range_spells).top
    · exact .any
    · exact Form.Spells.empty.top

theorem typeRule_spells : typeRule.Spells eof known one := by
  refine .onSight fun s => ?_
  split
  · refine .settled fun w => ?_
    split
    · exact (Form.Spells.under .any le_top).one
    · exact .ifelse procedureType_spells.one namedType_spells
  · exact (Form.Spells.under (.seq (.many .any) (.label type_spells)) le_top).one
  · exact (Form.Spells.under (.seq (.seq (.seq (.token rfl) arraySize_spells) (.token rfl))
      (.label type_spells)) le_top).one
  · exact procedureType_spells.one
  · exact (Form.Spells.under (.seq (.token rfl) identifier_spells) le_top).one
  · split
    · exact directive_spells.one
    · exact .refuse
  · exact .refuse

/-- A type that begins with a bracket or a dollar is an array of a type or a type variable. -/
theorem typeAhead_spells
    (stands : ∀ rest, known rest → (ahead eof rest 0).token.kind = .openBracket
      ∨ (ahead eof rest 0).token.kind = .dollar) : type.Spells eof known element := by
  intro room levels self turns setting rest folded knows
  have single : (level eof room .type setting rest).Yields
      (One fun kind => kind.isExpression = true) := by
    cases room with
    | zero => exact Outcome.yields_failed
    | succ room =>
      rw [level, Goal.form, typeRule, Form.onSight, Form.read, Glance.run_tokenAt]
      rcases stands rest knows with here | here
      · have seen : (ahead eof rest 0).sight.kind = .openBracket := here
        rw [seen, arrayType, Form.read, Outcome.yields_map]
        exact fun _ _ _ => ⟨_, rfl, rfl⟩
      · have seen : (ahead eof rest 0).sight.kind = .dollar := here
        rw [seen, polymorphicType, Form.read, Outcome.yields_map]
        exact fun _ _ _ => ⟨_, rfl, rfl⟩
  refine ((levels.levels .type setting rest folded).and single).imp fun children after made => ?_
  obtain ⟨spelled, n, rfl, kind⟩ := made
  exact ⟨⟨n, kind, rfl⟩, spelled.nodes, spelled.folded⟩

end Types

section Expressions

theorem keywordLiteral_spells : keywordLiteral.Spells eof known element :=
  .onSight fun s => by
    split
    all_goals exact Form.Spells.element (.under .any le_top) rfl

theorem primary_spells : primary.Spells eof known element :=
  .onSight fun s => by
    split
    iterate 3 exact Form.Spells.element (.under .any le_top) rfl
    exact .refuse

theorem prefixed_spells
    (stands : ∀ rest, known rest → (ahead eof rest 0).token.kind ∈ prefixes) :
    prefixed.Spells eof known (inner .unaryExpression) := by
  refine .under (.seq (.take fun rest knows => ?_) (.label unary_spells)) le_rfl
  have stands := stands rest knows
  have seen : ∀ kind ∈ prefixes, kind ≠ .eof ∧ kind.isTrivia = false := by decide
  exact ⟨(seen _ stands).1, (seen _ stands).2, stands⟩

theorem cast_spells : Grammar.cast.Spells eof known (inner .castExpression) := by
  have modified {known : Known} :
      (Form.any ++ Form.many atCastModifier (Form.any ++ Form.any)).Spells eof known ⊤ :=
    (Form.Spells.seq .any (.many (.seq .any .any))).top
  refine .under (@Form.Spells.onSight eof _ ⊤ _ fun s => ?_) le_top
  split
  · exact (Form.Spells.seq (.seq (.seq (.seq modified (.token rfl)) (.label type_spells))
      (.token rfl)) (.label unary_spells)).top
  · exact (Form.Spells.seq .any (.label unary_spells)).top

theorem inlined_spells : inlined.Spells eof known element := by
  refine .settled fun w => ?_
  split
  · exact procedureType_spells.element rfl
  · exact Form.Spells.element (.under (.seq .any unary_spells) le_top) rfl

/-- The branches of a condition, the second of them behind a word. -/
theorem branches_le :
    optional (word .thenWord) * part .consequence * optional (word .elseWord * part .alternative)
      ≤ branches := le_add_self

theorem conditionalValue_spells
    (stands : ∀ rest, known rest → (ahead eof rest 0).sight.keyword? = some .ifxWord) :
    conditionalValue.Spells eof known (inner .ifStatement) := by
  have other {known : Known} : (Form.opt (Sight.isWord .elseWord)
      (Form.any ++ Form.label .alternative expression)).Spells eof known
        (optional (word .elseWord * part .alternative)) :=
    .opt (.seq (.word fun _ ⟨_, here⟩ => of_decide_eq_true here) (.label expression_spells))
  refine .under (.seq (.seq (.seq (.seq (.word stands) (.label expression_spells)) .optWord)
    (.label expression_spells)) other) ?_
  simp only [NodeKind.production]
  have first : word .ifxWord ≤ word .ifWord + word .ifxWord := le_add_self
  calc
    _ = word .ifxWord * part .condition * (optional (word .thenWord) * part .consequence
        * optional (word .elseWord * part .alternative)) := by simp only [mul_assoc]; rfl
    _ ≤ _ := mul_le_mul' (mul_le_mul' first le_rfl) branches_le

theorem parenthesized_spells : parenthesized.Spells eof known element := by
  refine .settled fun w => ?_
  split
  · exact procedureType_spells.element rfl
  · exact Form.Spells.element (.under (.seq (.seq (.token rfl) (.within expression_spells))
      (.token rfl)) le_top) rfl

theorem typeOperand_spells
    (stands : ∀ rest, known rest → (ahead eof rest 0).token.kind = .openBracket
      ∨ (ahead eof rest 0).token.kind = .dollar) : typeOperand.Spells eof known element := by
  refine .settled fun w => ?_
  split
  · exact typeAhead_spells stands
  · exact .refuse

theorem operandOf_spells {s : Sight} (seen : ∀ rest, known rest → (ahead eof rest 0).sight = s) :
    (operandOf s).Spells eof known element := by
  have stands {kind : TokenKind} (here : s.kind = kind) (rest : List Padded) (knows : known rest) :
      (ahead eof rest 0).token.kind = kind := by
    rw [← here, ← seen rest knows]
    rfl
  have sign {kind : TokenKind} (here : s.kind = kind) (among : kind ∈ prefixes) :
      prefixed.Spells eof known element :=
    (prefixed_spells fun rest knows => stands here rest knows ▸ among).element rfl
  rw [operandOf]
  split
  iterate 3 exact primary_spells
  · exact quotedString_spells.element rfl
  · exact Form.Spells.faulty.element rfl
  · exact parenthesized_spells
  · exact leadingPoint_spells
  · exact note_spells.element rfl
  iterate 6
    next here => exact sign here (by decide)
  · next here => exact typeOperand_spells fun rest knows => .inl (stands here rest knows)
  · next here => exact typeOperand_spells fun rest knows => .inr (stands here rest knows)
  · exact hereString_spells.element rfl
  · split
    · exact directive_spells
    · exact .refuse
  · exact .refuse

theorem operand_spells : operand.Spells eof known element := by
  refine .onSight fun s => ?_
  have plain {known : Known} (seen : ∀ rest, known rest → (ahead eof rest 0).sight = s) :
      (operandOf s).Spells eof known element := operandOf_spells seen
  split
  iterate 3 exact keywordLiteral_spells
  iterate 2 exact .ifelse (plain fun rest holds => holds.1.2) (cast_spells.element rfl)
  iterate 2 exact .ifelse (plain fun rest holds => holds.1.2) inlined_spells
  · next word => exact (conditionalValue_spells fun rest ⟨_, seen⟩ => seen ▸ word).element rfl
  · exact plain fun rest holds => holds.2

theorem expressionRule_spells (floor : Power) :
    (expressionRule floor).Spells eof known element := by
  refine growing_spells operand_spells (fun setting rest power found => ?_)
    Growth.isExpression_kind
  obtain ⟨p, binds, -, joins | other⟩ := Growth.power_of_next found
  · exact ⟨p, binds, joins.2⟩
  · exact absurd rfl (other.1 power)

end Expressions

end Grammar

end JaiTree
