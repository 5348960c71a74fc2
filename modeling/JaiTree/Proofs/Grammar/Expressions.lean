import JaiTree.Proofs.Grammar.Operands

/-!
The rules of signatures, directives, types and expressions are guarded.
-/

namespace JaiTree

namespace Winner

variable {eof : Padded} {rest : List Padded} {kind : TokenKind} {yes no : Winner}

theorem run_onKind : (onKind kind yes no).run eof rest
    = either yes no ((ahead eof rest 0).token.kind = kind) := by
  rw [onKind, Glance.run_map, Glance.run_kindAt]

/-- When an alternative wins that one kind decides for, that kind lies ahead. -/
theorem kind_of_onKind (won : (onKind kind yes no).run eof rest = yes) (ne : yes ≠ no) :
    (ahead eof rest 0).token.kind = kind := by
  rw [run_onKind, either] at won
  split at won
  · next holds => exact of_decide_eq_true holds
  · exact absurd won.symm ne

end Winner

namespace Grammar

open Form

variable {eof : Padded} {moved m : Bool} {known left : Known} {spot : Spot}

theorem kind_of_polymorphicType {inside : Bool} {rest : List Padded}
    (won : (Conflict.typeParameterExpression.decide inside).run eof rest = .polymorphicType) :
    (ahead eof rest 0).token.kind = .dollar := by
  simp only [Conflict.decide, Glance.run_bind, Glance.run_tokenAt] at won
  split at won
  · assumption
  · split at won
    · cases won
    · simp only [Glance.run_bind] at won
      split at won
      all_goals cases won
  · cases won

theorem kind_of_returnType {inside : Bool} {rest : List Padded}
    (won : (Conflict.typeReturnType.decide inside).run eof rest = .returnType) :
    (ahead eof rest 1).token.kind = .colon := by
  simp only [Conflict.decide, Glance.run_bind, Glance.run_kindAt, Glance.run_ite] at won
  split at won
  · simp only [Glance.run_pure, Winner.either] at won
    split at won
    · next holds => exact of_decide_eq_true holds
    · cases won
  · cases won

theorem kind_of_primitiveType {inside : Bool} {rest : List Padded}
    (won : (Conflict.typeIdentifier.decide inside).run eof rest = .primitiveType) :
    (ahead eof rest 0).token.kind = .identifier := by
  simp only [Conflict.decide, Glance.run_bind, Glance.run_tokenAt] at won
  split at won
  iterate 4 next word => exact Lexeme.kind_of_keyword? word
  simp only [Glance.run_pure, Winner.either] at won
  split at won
  · next primitive =>
    rw [Lexeme.isPrimitive, Bool.and_eq_true] at primitive
    exact of_decide_eq_true primitive.1
  · cases won

theorem ofPoint_ne_binary {power : Power} {rest : List Padded} :
    Growth.ofPoint.run eof rest ≠ .binary power := by
  rw [Growth.ofPoint, Glance.run_bind]
  split
  all_goals
    intro binary
    cases binary

/-- An operator between two operands may be taken by itself. -/
theorem proper_of_binary {floor power : Power} {setting : Setting} {rest : List Padded}
    (binary : (Growth.next floor setting).run eof rest = some (.binary power)) :
    (ahead eof rest 0).token.kind.isProper = true := by
  rw [Growth.next, Glance.run_bind, Glance.run_kindAt] at binary
  apply TokenKind.isProper_of_ne
  all_goals
    intro kind
    simp [kind, TokenKind.power?] at binary

/-- A name that is a type grows, but never by an operator. -/
theorem namedType_eq : ∃ look, namedType = growing true identifier look
    ∧ ∀ eof setting rest power, (look setting).run eof rest ≠ some (.binary power) := by
  refine ⟨_, rfl, fun eof setting rest power binary => ?_⟩
  simp only [Glance.run_bind, Glance.run_kindAt] at binary
  split at binary
  · simp only [Glance.run_bind, Glance.run_kindAt, Glance.run_ite, Glance.run_map] at binary
    split at binary
    · exact ofPoint_ne_binary (Option.some.inj binary)
    · cases binary
  · rw [Glance.run_bind] at binary
    split at binary
    all_goals cases binary
  · cases binary

theorem polymorphicType_safe : Safe eof true polymorphicType spot :=
  .node rfl ((Safe.expect rfl).seq identifier_safe)

theorem misplaced_safe : Safe eof true misplaced spot := .refuse fun _ => rfl

theorem prefixed_guarded (ready : known.Ready) :
    Guarded eof moved known prefixed true (fun _ => True) [] [] spot :=
  .under .prefixed ((Guarded.take ready).andThen unary_safe.label.guarded)

theorem typeOperand_safe : Safe eof true typeOperand spot := by
  refine .settled fun w => ?_
  split
  · exact type_safe.guarded
  · exact (missing_safe fun _ => rfl).guarded

section

variable (isEnd : eof.token.kind = .eof)
include isEnd

theorem parameterRest_safe : Safe eof false parameterRest spot := by
  refine Safe.seq (m := false) (n := false) (.opt (m := true) ?_) (.settled fun w => ?_)
  · have colon : Guarded eof false
        (fun rest => decide ((ahead eof rest 0).sight.kind = .colon) = true)
        any true _ [] [] spot :=
      take_of_kind isEnd .colon rfl fun _ seen => of_decide_eq_true seen
    exact (colon.andThen (optToken_safe isEnd rfl).guarded).andThen
      (Safe.opt type_safe.label.guarded).guarded
  split
  · have sign : Guarded eof false (fun rest => ∃ inside,
        (Conflict.parameterExpression.decide inside).run eof rest = .defaultValue)
        any true _ [] [] spot :=
      take_of_kind isEnd .assignment rfl fun _ ⟨_, won⟩ => Winner.kind_of_onKind won (by decide)
    exact (sign.andThen expression_safe.label.guarded).weak
  · exact Safe.empty.guarded

theorem usingMark_safe : Safe eof false (settled .parameterDeclaration fun
    | .parameterDeclaration => any
    | _ => .empty) spot := by
  refine .settled fun w => ?_
  split
  · refine Guarded.weak (.forget (take_of_kind isEnd .identifier rfl ?_))
    rintro rest ⟨_, won⟩
    simp only [Conflict.decide, Glance.run_bind, Glance.run_keywordAt, Glance.run_ite] at won
    split at won
    · next word => exact Lexeme.kind_of_keyword? word
    · cases won
  · exact Safe.empty.guarded

theorem parameter_safe : Safe eof true parameter spot := by
  refine .node rfl (Safe.seq (usingMark_safe isEnd) (Safe.settled fun w => ?_))
  split
  · have dollar : Guarded eof false (fun rest => ∃ inside,
        (Conflict.typeParameterExpression.decide inside).run eof rest = .polymorphicType)
        any true _ [] [] spot :=
      take_of_kind isEnd .dollar rfl fun _ ⟨_, won⟩ => kind_of_polymorphicType won
    exact (dollar.andThen identifier_safe.label.guarded).andThen (parameterRest_safe isEnd).guarded
  · exact (identifier_safe.label.guarded).andThen (parameterRest_safe isEnd).guarded
  · exact type_safe.label.guarded

theorem parameterList_safe : Safe eof true parameterList spot :=
  .within (.node rfl (someItems_safe isEnd (parameter_safe isEnd))) rfl

theorem parameters_safe : Safe eof true parameters spot :=
  .enclosed .paren (parameterList_safe isEnd).label.unclosed

theorem returnType_safe : Safe eof true returnType spot := by
  have must : Safe eof false
      (opt (fun s => s.kind = .directive .must && !s.startsLine) any) spot := by
    refine .opt (.forget (take_of_kind isEnd (.directive .must) rfl ?_))
    intro rest seen
    rw [Bool.and_eq_true] at seen
    exact of_decide_eq_true seen.1
  refine .node rfl (.seq (.seq (m := false) (.settled fun w => ?_) type_safe.label) must)
  split
  · refine .forget (.weak (Guarded.andThen (.label identifier_guarded)
      (take_of_kind isEnd .colon rfl ?_)))
    rintro rest ⟨t, _, won⟩
    exact kind_of_returnType won
  · exact Safe.empty.guarded

theorem moreReturns_safe : Safe eof false moreReturns spot := by
  refine .fix (Safe.choose fun more => ?_)
  cases more with
  | true =>
    have comma : Guarded eof false
        (fun rest => ∃ setting, (bringsReturn setting).run eof rest = true) any true
        (fun _ => True) [] [] spot := by
      refine .forget (take_of_kind isEnd .comma rfl ?_)
      rintro rest ⟨_, brings⟩
      simp only [bringsReturn, Glance.run_bind, Glance.run_kindAt, Glance.run_ite] at brings
      split at brings
      · assumption
      · cases brings
    exact ((comma.andThen (returnType_safe isEnd).guarded).andThen .again).weak
  | false => exact Safe.empty.guarded

/-- Types with a name before the first stand in parentheses. -/
theorem namedReturns_guarded :
    Guarded eof moved (fun rest => atNamedReturns.run eof rest = true)
      (any ++ separated returnType ++ token .closeParen) true (fun _ => True) [] [] spot := by
  refine (((open_of_kind isEnd .paren ?_).andThen
    (.inside (separated_safe isEnd (returnType_safe isEnd)).guarded)).andThen
    (.closes .paren)).forget
  intro rest named
  simp only [atNamedReturns, Glance.run_bind, Glance.run_kindAt, Glance.run_ite] at named
  split at named
  · assumption
  · cases named

theorem returnTypeList_safe : Safe eof true returnTypeList spot :=
  .node rfl (.ifelse (namedReturns_guarded isEnd)
    ((returnType_safe isEnd).seq (moreReturns_safe isEnd)).guarded)

theorem signature_safe : Safe eof true signature spot := by
  have returns : Safe eof false
      (opt (fun s => s.kind = .arrow) (any ++ .label .returnType returnTypeList)) spot :=
    .opt ((take_of_kind isEnd .arrow rfl fun _ seen => of_decide_eq_true seen).andThen
      (returnTypeList_safe isEnd).label.guarded)
  exact (parameters_safe isEnd).seq returns

theorem operandForm_safe (operand : Operand) : Safe eof false (operandForm operand) spot := by
  cases operand with
  | expression => exact blockOr_safe expression_safe.weak
  | optionalExpression => exact expressionOnLine_safe
  | optionalString => exact stringOnLine_safe isEnd
  | foreignName => exact (Safe.opt identifier_safe.guarded).seq (stringOnLine_safe isEnd)
  | bake => exact (identifier_safe.seq (argumentList_safe isEnd).label).weak
  | optionalType =>
    refine .settled fun w => ?_
    split
    · exact type_safe.guarded.weak
    · exact Safe.empty.guarded
  | codeBody => exact blockOr_safe expressionOnLine_safe
  | parameterList => exact (parameters_safe isEnd).weak
  | bare | hereString | statementOnly => exact .empty

theorem directive_safe : Safe eof true directive spot := by
  refine .onSight fun s => ?_
  split
  · exact (missing_safe fun _ => rfl).guarded
  · next d which =>
    have kind : s.kind = .directive d := Lexeme.kind_of_directive? which
    split
    · exact misplaced_safe.guarded
    · exact (hereString_safe isEnd).guarded
    · next ne_statement ne_string =>
      refine .node rfl ((take_of_seen isEnd ?_).andThen (operandForm_safe isEnd _).guarded)
      rw [kind]
      refine TokenKind.isProper_directive ?_ ?_
      · rintro rfl
        exact ne_string rfl
      · rintro rfl
        exact ne_statement rfl

theorem trailingDirectives_safe : Safe eof false trailingDirectives spot :=
  .many (directive_safe isEnd).guarded

theorem pointerType_safe : Safe eof true pointerType spot := by
  have star : Guarded eof false
      (fun rest => Glance.run eof rest
        ((fun w => decide (w = .pointerType)) <$> Conflict.pointerType.decide false) = true)
      any true (fun _ => True) [] [] spot := by
    refine .forget (take_of_kind isEnd .star rfl fun rest seen => ?_)
    rw [Glance.run_map] at seen
    exact Winner.kind_of_onKind (of_decide_eq_true seen) (by decide)
  exact .node rfl ((Safe.many star).seq type_safe.label)

theorem arraySize_safe : Safe eof false arraySize spot := by
  refine .choose fun size => ?_
  split
  · exact Safe.empty.guarded
  · refine Guarded.weak (.forget (take_of_kind isEnd .dotDot rfl ?_))
    rintro rest ⟨_, seen⟩
    simp only [Glance.run_bind, Glance.run_kindAt] at seen
    split at seen
    · cases seen
    · assumption
    · cases seen
  · exact (range_safe isEnd).label.guarded.weak

theorem arrayType_safe : Safe eof true arrayType spot :=
  .node rfl ((Safe.enclosed .bracket (arraySize_safe isEnd)).seq type_safe.label)

theorem optInlining_safe : Safe eof false (opt Sight.isInlining any) spot :=
  .opt (take_of_kind isEnd .identifier rfl fun _ seen => Sight.kind_of_isInlining seen).forget

theorem procedureType_safe : Safe eof true procedureType spot :=
  .node rfl (((optInlining_safe isEnd).seq (signature_safe isEnd)).seq
    (.many (directive_safe isEnd).guarded))

theorem namedType_safe : Safe eof true namedType spot := by
  obtain ⟨look, same, never⟩ := namedType_eq
  have fits : Fits eof (fun _ => True) (growing true identifier look) := same ▸ .namedType
  rw [same]
  exact growing_safe isEnd identifier_safe fits fun setting rest power binary =>
    absurd binary (never eof setting rest power)

theorem identifierType_safe : Safe eof true identifierType spot := by
  refine .settled fun w => ?_
  split
  · refine .node rfl (.forget (take_of_kind isEnd .identifier rfl ?_))
    exact fun _ ⟨_, won⟩ => kind_of_primitiveType won
  · exact (Safe.ifelse (procedureType_safe isEnd).guarded (namedType_safe isEnd).guarded).guarded

theorem typeRule_safe : Safe eof true typeRule spot := by
  refine .onSight fun s => ?_
  split
  · exact (identifierType_safe isEnd).guarded
  · exact (pointerType_safe isEnd).guarded
  · exact (arrayType_safe isEnd).guarded
  · exact (procedureType_safe isEnd).guarded
  · exact polymorphicType_safe.guarded
  · split
    · exact (directive_safe isEnd).guarded
    · exact (missing_safe fun _ => rfl).guarded
  · exact (missing_safe fun _ => rfl).guarded

theorem keywordLiteral_guarded
    (h : ∀ rest, known rest → (ahead eof rest 0).token.kind = .identifier) :
    Guarded eof moved known keywordLiteral true (fun _ => True) [] [] spot := by
  refine .choose fun s => ?_
  split
  all_goals
    exact .node rfl (take_of_kind isEnd .identifier rfl fun rest ⟨seen, _⟩ => h rest seen).forget

theorem primary_safe : Safe eof true primary spot := by
  refine .onSight fun s => ?_
  split
  · next kind => exact .node rfl (.forget (take_of_seen isEnd (by rw [kind]; rfl)))
  · next kind => exact .node rfl (.forget (take_of_seen isEnd (by rw [kind]; rfl)))
  · next kind => exact .node rfl (.forget (take_of_seen isEnd (by rw [kind]; rfl)))
  · exact (missing_safe fun _ => rfl).guarded

theorem castModifiers_safe : Safe eof false (many atCastModifier (any ++ any)) spot := by
  have modifiers {rest : List Padded} (seen : atCastModifier.run eof rest = true) :
      (ahead eof rest 0).token.kind = .comma ∧ (ahead eof rest 1).token.kind = .identifier := by
    simp only [atCastModifier, Glance.run_bind, Glance.run_kindAt, Glance.run_ite] at seen
    split at seen
    · next comma =>
      simp only [Glance.run_keywordAt] at seen
      split at seen
      · next word => exact ⟨comma, Lexeme.kind_of_keyword? word⟩
      · next word => exact ⟨comma, Lexeme.kind_of_keyword? word⟩
      · cases seen
    · cases seen
  exact .many ((take_of_kind isEnd .comma rfl fun rest seen => (modifiers seen).1).andThen
    (take_of_kind isEnd .identifier rfl fun rest ⟨_, seen⟩ => (modifiers seen).2).forget)

theorem cast_guarded (h : ∀ rest, known rest → (ahead eof rest 0).token.kind = .identifier) :
    Guarded eof moved known cast true (fun _ => True) [] [] spot := by
  refine .under .cast (.choose fun s => ?_)
  have word : Guarded eof moved
      (fun rest => known rest ∧ ∃ _ : Setting, (Glance.tokenAt 0).run eof rest = s)
      any true _ [] [] spot :=
    take_of_kind isEnd .identifier rfl fun rest ⟨seen, _⟩ => h rest seen
  have value : Guarded eof true (fun _ => True) (.label .value unary) true (fun _ => True)
      [] [] spot :=
    unary_safe.label.guarded
  refine Guarded.andThen ?_ value
  split
  · exact .enclosed .paren (word.andThen (castModifiers_safe isEnd).guarded)
      type_safe.label.guarded
  · exact word.forget

theorem inlined_guarded (h : ∀ rest, known rest → (ahead eof rest 0).token.kind = .identifier) :
    Guarded eof moved known inlined true (fun _ => True) [] [] spot := by
  refine .choose fun w => ?_
  split
  · exact (procedureType_safe isEnd).guarded
  · exact .node rfl ((take_of_kind isEnd .identifier rfl fun rest ⟨seen, _⟩ => h rest seen).andThen
      unary_safe.guarded)

theorem optWord_safe (keyword : Keyword) : Safe eof false (optWord keyword) spot :=
  .opt (take_of_kind isEnd .identifier rfl fun _ seen => Sight.kind_of_isWord seen).forget

theorem conditionalValue_guarded
    (h : ∀ rest, known rest → (ahead eof rest 0).token.kind = .identifier) :
    Guarded eof moved known conditionalValue true (fun _ => True) [] [] spot := by
  have alternative : Safe eof false
      (opt (Sight.isWord .elseWord) (any ++ .label .alternative expression)) spot :=
    .opt ((take_of_kind isEnd .identifier rfl fun _ seen => Sight.kind_of_isWord seen).andThen
      expression_safe.label.guarded)
  have word : Guarded eof moved known any true _ [] [] spot := take_of_kind isEnd .identifier rfl h
  exact .node rfl ((((word.andThen expression_safe.label.guarded).andThen
    (optWord_safe isEnd .thenWord).guarded).andThen expression_safe.label.guarded).andThen
    alternative.guarded)

theorem parenthesized_safe : Safe eof true parenthesized spot := by
  refine .settled fun w => ?_
  split
  · exact (procedureType_safe isEnd).guarded
  · have inner : Safe eof true
        (token .openParen ++ .within .parentheses expression ++ token .closeParen) spot :=
      .enclosed .paren (.within expression_safe rfl)
    exact .node rfl inner.guarded

theorem leadingPoint_safe : Safe eof true leadingPoint spot := by
  refine .leadingPoint fun growth => growthBody_guarded isEnd ?_
  rintro power rfl rest ⟨_, binary⟩
  exact absurd binary ofPoint_ne_binary

theorem operandOf_guarded {s : Sight} :
    Guarded eof moved (.seen eof s) (operandOf s) true (fun _ => True) [] [] spot := by
  rw [operandOf]
  split
  iterate 3 exact (primary_safe isEnd).guarded
  · exact (quotedString_safe isEnd).guarded
  · next kind => exact faulty_of_seen isEnd kind
  · exact (parenthesized_safe isEnd).guarded
  · exact (leadingPoint_safe isEnd).guarded
  · exact (note_safe isEnd).guarded
  iterate 6 next kind =>
    exact prefixed_guarded (ready_of_seen isEnd (by rw [kind]; rfl))
  iterate 2 exact typeOperand_safe.guarded
  · exact (hereString_safe isEnd).guarded
  · split
    · exact (directive_safe isEnd).guarded
    · exact misplaced_safe.guarded
  · exact (missing_safe fun _ => rfl).guarded

theorem operand_safe : Safe eof true operand spot := by
  refine .onSight fun s => ?_
  have named {keyword : Keyword} (word : s.keyword? = some keyword) (rest : List Padded)
      (seen : Known.seen eof s rest) : (ahead eof rest 0).token.kind = .identifier := by
    rw [← Padded.sight_kind, seen]
    exact Lexeme.kind_of_keyword? word
  split
  iterate 3 next word => exact keywordLiteral_guarded isEnd (named word)
  iterate 2 next word =>
    refine .choose fun lacks => ?_
    cases lacks with
    | true => exact (operandOf_guarded isEnd).mono fun _ => And.left
    | false => exact cast_guarded isEnd fun rest seen => named word rest seen.1
  iterate 2 next word =>
    refine .choose fun lacks => ?_
    cases lacks with
    | true => exact (operandOf_guarded isEnd).mono fun _ => And.left
    | false => exact inlined_guarded isEnd fun rest seen => named word rest seen.1
  · next word => exact conditionalValue_guarded isEnd (named word)
  · exact operandOf_guarded isEnd

theorem expressionRule_safe (floor : Power) : Safe eof true (expressionRule floor) spot :=
  growing_safe isEnd (operand_safe isEnd) (.expression floor) fun _ _ _ => proper_of_binary

end

end Grammar

end JaiTree
