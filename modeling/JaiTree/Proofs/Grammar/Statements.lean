import JaiTree.Proofs.Grammar.Declarations

/-!
The rules of statements are guarded, and so is every rule that counts as a level.
-/

namespace JaiTree

namespace StatementShape

variable {eof : Padded} {rest : List Padded} {shape : StatementShape}

/-- What a shape tells of the tokens that it was seen for. -/
def Told (eof : Padded) (rest : List Padded) : StatementShape → Prop
  | .lexicalError => (ahead eof rest 0).token.kind = .error
  | .importing | .load | .scope | .staticIf => (ahead eof rest 0).token.kind.isProper = true
  | .asm => (ahead eof rest 0).token.kind = .directive .asm
  | .keyword word => (ahead eof rest 0).sight.keyword? = some word
  | .declaration declared => DeclarationShape.glance.run eof rest = declared
  | .empty | .block | .annotated | .directive | .operator | .expressionList => True

theorem told_ofNames (seen : ofNames.run eof rest = shape) : shape.Told eof rest := by
  rw [ofNames, Glance.run_bind] at seen
  split at seen
  · rw [Glance.run_map] at seen
    subst seen
    exact rfl
  · subst seen
    trivial

theorem told_ofDirective {d : Directive} (kind : (ahead eof rest 0).token.kind = .directive d) :
    (ofDirective d).Told eof rest := by
  have proper (string : d ≠ .string) (asm : d ≠ .asm) :
      (ahead eof rest 0).token.kind.isProper = true :=
    kind ▸ TokenKind.isProper_directive string asm
  rw [ofDirective]
  split
  · trivial
  next string =>
  split
  · next imports => exact proper string fun same => by rw [same] at imports; cases imports
  split
  · next loads => exact proper string fun same => by rw [same] at loads; cases loads
  split
  · next assembles =>
    subst assembles
    exact kind
  next asm =>
  repeat' split
  all_goals first
    | exact proper string asm
    | trivial

theorem told_of_seen (seen : glance.run eof rest = shape) : shape.Told eof rest := by
  simp only [glance, Glance.run_bind, Glance.run_tokenAt, Padded.sight_kind] at seen
  split at seen
  · next kind =>
    subst seen
    exact kind
  iterate 3
    subst seen
    trivial
  · next d kind =>
    subst seen
    exact told_ofDirective kind
  · split at seen
    · next word spelled =>
      rw [Glance.run_ite] at seen
      split at seen
      · rw [Glance.run_bind, Glance.run_ite] at seen
        split at seen
        · exact told_ofNames seen
        · subst seen
          exact spelled
      · rw [Glance.run_bind, Glance.run_ite] at seen
        split at seen
        · subst seen
          trivial
        · exact told_ofNames seen
    · exact told_ofNames seen
  · subst seen
    trivial

end StatementShape

namespace Grammar

open Form

variable {eof : Padded} {moved m : Bool} {known left : Known} {item : Form}
  {spot : Spot} {g : Bool}

theorem listItem_safe (listEnd : ListEnd) : Safe eof true (listItem listEnd) .plain := by
  cases listEnd with
  | nextCase => exact statement_safe.label
  | endOfInput | closeCurly => exact statement_safe

theorem body_safe (conflict : Conflict) : Safe eof true (body conflict) .plain := by
  refine .settled fun w => ?_
  split
  · exact block_safe.guarded
  · exact statement_safe.guarded

theorem listStep_item {listEnd : ListEnd} {rest : List Padded}
    (seen : (listStep listEnd).run eof rest = .item) : (ahead eof rest 0).token.kind ≠ .eof := by
  intro kind
  rw [listStep, Glance.run_bind, Glance.run_kindAt, kind] at seen
  cases seen

/-- Inside braces no statement begins with a closing one. -/
theorem listStep_inside {listEnd : ListEnd} {rest : List Padded} (inside : listEnd ≠ .endOfInput)
    (seen : (listStep listEnd).run eof rest = .item) :
    (ahead eof rest 0).token.kind ≠ .closeCurly := by
  intro kind
  rw [listStep, Glance.run_bind, Glance.run_kindAt, kind] at seen
  simp [inside] at seen

theorem listStep_semicolon {listEnd : ListEnd} {rest : List Padded}
    (seen : (listStep listEnd).run eof rest = .semicolon) :
    (ahead eof rest 0).token.kind = .semicolon := by
  rw [listStep, Glance.run_bind, Glance.run_kindAt] at seen
  split at seen
  · cases seen
  · assumption
  · rw [Glance.run_pure] at seen
    split at seen
    all_goals cases seen
  · simp only [Glance.run_ite, Glance.run_bind, Glance.run_pure] at seen
    split at seen
    · split at seen
      · split at seen
        all_goals cases seen
      · cases seen
    · cases seen

theorem whileStatement_guarded (ready : known.Ready) :
    Guarded eof moved known whileStatement true (fun _ => True) [] [] .plain :=
  .node rfl (((Guarded.take ready).andThen expression_safe.label.guarded).andThen
    (body_safe .statementWhile).label.guarded)

theorem deferStatement_guarded (ready : known.Ready) :
    Guarded eof moved known deferStatement true (fun _ => True) [] [] .plain :=
  .node rfl ((Guarded.take ready).andThen (body_safe .statementDefer).label.guarded)

theorem usingShape_declared {rest : List Padded} {shape : DeclarationShape}
    (seen : usingShape.run eof rest = some shape) :
    DeclarationShape.glance.run eof rest = shape := by
  rw [usingShape, Glance.run_bind] at seen
  split at seen
  · rw [Glance.run_map] at seen
    exact Option.some.inj seen
  · cases seen

theorem annotatedShape_declared {rest : List Padded} {shape : DeclarationShape}
    (special : shape ≠ .function) (seen : annotatedShape.run eof rest = some shape) :
    DeclarationShape.glance.run eof rest = shape := by
  simp only [annotatedShape, Glance.run_bind, Glance.run_ite] at seen
  split at seen
  · exact absurd (Option.some.inj seen).symm special
  · split at seen
    · rw [Glance.run_map] at seen
      exact Option.some.inj seen
    · cases seen

section

variable (isEnd : eof.token.kind = .eof)
include isEnd

theorem statements_safe {listEnd : ListEnd} (inside : listEnd ≠ .endOfInput) :
    Safe eof false (statements listEnd) .plain := by
  refine .fix (Safe.choose fun step => ?_)
  cases step with
  | stop => exact Safe.empty.guarded
  | semicolon =>
    have semicolon : Guarded eof false
        (fun rest => ∃ _ : Setting, (listStep listEnd).run eof rest = .semicolon) any true _ [] []
        .plain :=
      take_of_kind isEnd .semicolon rfl fun rest ⟨_, seen⟩ => listStep_semicolon seen
    exact (semicolon.andThen .again).weak
  | item =>
    have guarded : Guarded eof false
        (fun rest => ∃ _ : Setting, (listStep listEnd).run eof rest = .item)
        (.guard (listItem listEnd)) true (fun _ => True) [] [] .plain := by
      refine guard_of_kind isEnd (listItem_safe listEnd) ?_
      rintro rest ⟨_, seen⟩
      exact ⟨listStep_item seen, listStep_inside inside seen⟩
    exact (guarded.andThen .again).weak

/-- Another condition of the chain goes round again, past the word that brings it. -/
theorem elseBranch_guarded :
    Guarded eof true known elseBranch true (fun _ => True) [] [] .plain := by
  refine .choose fun w => ?_
  split
  · exact block_safe.label.guarded
  · refine .choose fun holds => ?_
    cases holds with
    | true =>
      refine .label (.node rfl ((take_of_kind isEnd .identifier rfl ?_).andThen .again))
      rintro rest ⟨-, _, seen⟩
      simp only [atElseIf, Glance.run_bind, Glance.run_keywordAt, Glance.run_ite] at seen
      split at seen
      · next word => exact Lexeme.kind_of_keyword? word
      · cases seen
    | false => exact statement_safe.label.guarded

theorem conditional_safe : Safe eof true conditional .plain := by
  have cases : Guarded eof true
      (fun rest => ∃ _ : Setting, atCases.run eof rest = true)
      (.take (some .operator) ++ .label .consequence block) true (fun _ => True) [] [] .plain := by
    refine Guarded.andThen (take_of_kind isEnd .equals rfl ?_) block_safe.label.guarded
    rintro rest ⟨_, seen⟩
    simp only [atCases, Glance.run_bind, Glance.run_kindAt, Glance.run_ite] at seen
    split at seen
    · assumption
    · cases seen
  have alternative : Guarded eof true (fun _ => True)
      (opt (Sight.isWord .elseWord) (any ++ elseBranch)) false (fun _ => True) [] [] .plain :=
    .opt (Guarded.andThen (take_of_kind isEnd .identifier rfl fun _ => Sight.kind_of_isWord)
      (elseBranch_guarded isEnd))
  have condition : Safe eof true (.label .condition (.within .condition expression)) .plain :=
    Safe.label (.changed nofun)
  refine .fix (Guarded.andThen (n := true) condition.guarded (.choose fun holds => ?_))
  cases holds with
  | true => exact cases.mono fun rest => And.right
  | false =>
    exact (((optWord_safe isEnd .thenWord).seq (body_safe .statementIf).label).guarded.andThen
      alternative).mono fun _ _ => trivial

theorem ifStatement_guarded (ready : known.Ready) :
    Guarded eof moved known ifStatement true (fun _ => True) [] [] .plain :=
  .node rfl ((Guarded.take ready).andThen (conditional_safe isEnd).guarded)

theorem staticIf_guarded (ready : known.Ready) :
    Guarded eof moved known staticIf true (fun _ => True) [] [] .plain :=
  .node rfl ((Guarded.take ready).andThen (conditional_safe isEnd).guarded)

theorem forMarkers_safe : Safe eof false (many atForMarker any) spot := by
  refine .many (.forget (.take (ready_of_kind isEnd fun rest seen => ?_)))
  apply TokenKind.isProper_of_ne
  all_goals
    intro kind
    simp [atForMarker, kind] at seen

theorem forStatement_guarded (ready : known.Ready) :
    Guarded eof moved known forStatement true (fun _ => True) [] [] .plain := by
  have iterators : Safe eof false
      (ifelse namesIterator (separated (.label .iterator identifier) ++ token .colon) .empty)
      .plain :=
    .ifelse ((separated_safe isEnd identifier_safe.label).seq (.expect rfl)).guarded.weak
      Safe.empty.guarded
  exact .node rfl (((((Guarded.take ready).andThen (forMarkers_safe isEnd).guarded).andThen
    iterators.guarded).andThen (range_safe isEnd).label.guarded).andThen
    (body_safe .statementFor).label.guarded)

theorem returnStatement_guarded (ready : known.Ready) :
    Guarded eof moved known returnStatement true (fun _ => True) [] [] spot :=
  .node rfl (((Guarded.take ready).andThen
    (Safe.opt (separated_safe isEnd expression_safe.label).guarded).guarded).andThen
    (optSemicolon_safe isEnd).guarded)

theorem jumpStatement_guarded (ready : known.Ready) :
    Guarded eof moved known jumpStatement true (fun _ => True) [] [] spot := by
  refine .choose fun s => .node ?_ ?_
  · split
    all_goals rfl
  · exact ((Guarded.take fun rest seen => ready rest seen.1).andThen
      (Safe.opt identifier_safe.guarded).guarded).andThen (optSemicolon_safe isEnd).guarded

theorem removeStatement_guarded (ready : known.Ready) :
    Guarded eof moved known removeStatement true (fun _ => True) [] [] spot :=
  .node rfl (((Guarded.take ready).andThen expression_safe.label.guarded).andThen
    (optSemicolon_safe isEnd).guarded)

theorem usingModifier_safe : Safe eof false
    (ifelse atUsingModifier (any ++ any ++ opt (fun s => s.kind = .openParen) argumentList)
      .empty) spot := by
  have modifier {rest : List Padded} (seen : atUsingModifier.run eof rest = true) :
      (ahead eof rest 0).token.kind = .comma ∧ (ahead eof rest 1).token.kind = .identifier := by
    simp only [atUsingModifier, Glance.run_bind, Glance.run_kindAt, Glance.run_ite] at seen
    split at seen
    · next comma =>
      simp only [Glance.run_keywordAt] at seen
      split at seen
      iterate 3 next word => exact ⟨comma, Lexeme.kind_of_keyword? word⟩
      cases seen
    · cases seen
  have comma : Guarded eof false (fun rest => atUsingModifier.run eof rest = true) any true _ [] []
      spot :=
    take_of_kind isEnd .comma rfl fun _ seen => (modifier seen).1
  refine .ifelse (Guarded.weak ?_) Safe.empty.guarded
  have word : Guarded eof true
      (Known.past fun rest => atUsingModifier.run eof rest = true) any true _ [] [] spot :=
    take_of_kind isEnd .identifier rfl fun _ ⟨_, seen⟩ => (modifier seen).2
  exact (comma.andThen word).andThen (Safe.opt (argumentList_safe isEnd).guarded).guarded

theorem usingStatement_guarded (ready : known.Ready) :
    Guarded eof moved known usingStatement true (fun _ => True) [] [] .plain := by
  refine .node rfl (((Guarded.take ready).andThen (usingModifier_safe isEnd).guarded).andThen
    (n := true) (.choose fun shape => ?_))
  cases shape with
  | some shape =>
    refine .label (declaration_guarded isEnd fun _ rest ⟨_, _, seen⟩ => ?_)
    exact usingShape_declared seen
  | none => exact (expression_safe.label.seq (optSemicolon_safe isEnd)).guarded

theorem caseStatement_guarded (ready : known.Ready) :
    Guarded eof moved known caseStatement true (fun _ => True) [] [] .plain := by
  have value : Safe eof false
      (opt (fun s => s.kind ≠ .semicolon) (.label .value range)) .plain :=
    .opt (range_safe isEnd).label.guarded
  exact .node rfl ((((Guarded.take ready).andThen value.guarded).andThen
    (Safe.expect rfl).guarded).andThen (statements_safe isEnd (by decide)).guarded)

theorem keywordStatement_guarded (keyword : Keyword) (ready : known.Ready) :
    Guarded eof moved known (keywordStatement keyword) true (fun _ => True) [] [] .plain := by
  unfold keywordStatement
  split
  iterate 2 exact ifStatement_guarded isEnd ready
  · exact whileStatement_guarded ready
  · exact forStatement_guarded isEnd ready
  · exact returnStatement_guarded isEnd ready
  iterate 2 exact jumpStatement_guarded isEnd ready
  · exact deferStatement_guarded ready
  · exact removeStatement_guarded isEnd ready
  · exact usingStatement_guarded isEnd ready
  · exact caseStatement_guarded isEnd ready
  · exact (missing_safe fun _ => rfl).guarded

theorem assignmentOperator_safe : Safe eof true assignmentOperator spot := by
  refine .onSight fun s => ?_
  split
  · next assigns =>
    refine .forget (take_of_seen isEnd ?_)
    apply TokenKind.isProper_of_ne
    all_goals
      intro kind
      rw [kind] at assigns
      cases assigns
  · exact (missing_safe fun _ => rfl).guarded

theorem expressionList_safe : Safe eof true expressionList spot := by
  refine .growing expression_safe (.grow fun assigned => by cases assigned <;> rfl)
    fun assigned => ?_
  cases assigned with
  | true =>
    have targets : Safe eof false
        (many (Glance.isNext .comma) (any ++ .label .left expression)) spot :=
      .many (comma_andThen isEnd expression_safe.label)
    have values : Safe eof true (separated (.label .right expression)) spot :=
      separated_safe isEnd expression_safe.label
    exact (((targets.seq (assignmentOperator_safe isEnd)).seq values).seq
      (optSemicolon_safe isEnd)).guarded.weak
  | false => exact (optSemicolon_safe isEnd).guarded

theorem annotated_safe : Safe eof true annotated .plain := by
  have notes : Safe eof false (many (Glance.isNext .atSign) note) .plain :=
    .many (note_safe isEnd).guarded
  refine Guarded.lead notes (fun shape => by cases shape <;> rfl) (fun shape => ?_)
    (expressionList_safe isEnd)
  exact declarationBody_guarded isEnd fun special rest ⟨_, seen⟩ =>
    annotatedShape_declared special seen

theorem loadStatement_guarded (ready : known.Ready) :
    Guarded eof moved known loadStatement true (fun _ => True) [] [] spot :=
  .node rfl (((Guarded.take ready).andThen (string_safe isEnd).label.guarded).andThen
    (optSemicolon_safe isEnd).guarded)

theorem asmFeatures_safe : Safe eof false asmFeatures spot g := by
  have more : Guarded eof true (fun _ => True)
      (opt (fun s => s.kind = .comma) (any ++ .again)) false (fun _ => True) [] [] spot g :=
    .opt (Guarded.andThen (take_of_kind isEnd .comma rfl fun _ => of_decide_eq_true) .again)
  exact .fix (Safe.opt (identifier_safe.label.guarded.andThen more))

/-- The word, the features and what is between the braces are cut off together. -/
theorem asmBlock_guarded
    (h : ∀ rest, known rest → (ahead eof rest 0).token.kind = .directive .asm) :
    Guarded eof moved known asmBlock true (fun _ => True) [] [] spot := by
  have word : Guarded eof moved known any true known.past [] [] spot true :=
    takes_of_kind isEnd (.begins rfl) h
  exact .group (.asmBlock h) (.framed (.asmBlock h) (.enclosed .curly
    (word.andThen (asmFeatures_safe isEnd).guarded) (optToken_safe isEnd rfl).guarded))

theorem statementRule_safe : Safe eof true statementRule .plain := by
  refine .choose fun shape => ?_
  have told (rest : List Padded)
      (knows : ∃ _ : Setting, StatementShape.glance.run eof rest = shape) :
      shape.Told eof rest := by
    obtain ⟨_, seen⟩ := knows
    exact StatementShape.told_of_seen seen
  cases shape with
  | lexicalError =>
    exact faulty_guarded isEnd told
  | empty => exact (missing_safe fun _ => rfl).guarded
  | block => exact block_safe.guarded
  | annotated => exact (annotated_safe isEnd).guarded
  | importing => exact .node rfl (importedModule_guarded isEnd (ready_of_kind isEnd told))
  | load => exact loadStatement_guarded isEnd (ready_of_kind isEnd told)
  | asm => exact asmBlock_guarded isEnd told
  | scope => exact .node rfl (.node rfl (Guarded.take (ready_of_kind isEnd told)).forget)
  | staticIf => exact staticIf_guarded isEnd (ready_of_kind isEnd told)
  | directive =>
    exact .node rfl ((directive_safe isEnd).guarded.andThen (optSemicolon_safe isEnd).guarded)
  | keyword keyword =>
    refine keywordStatement_guarded isEnd keyword (ready_of_kind isEnd fun rest knows => ?_)
    have spelled := Lexeme.kind_of_keyword? (told rest knows)
    rw [Padded.sight_kind] at spelled
    rw [spelled]
    rfl
  | operator => exact declaration_guarded isEnd fun special => absurd rfl special
  | declaration declared =>
    exact declaration_guarded isEnd fun _ => told
  | expressionList => exact (expressionList_safe isEnd).guarded

end

end Grammar

/-- The forms that run wherever they stand: those that are safe, and the list of all statements of
a text, in which a closing brace has nothing to close. -/
inductive Form.Free (eof : Padded) : (moves : Bool) → Form → Prop where
  | safe {moves : Bool} {form : Form} : Safe eof moves form .plain → Free eof moves form
  | statements : Free eof false (Grammar.statements .endOfInput)

theorem Form.Free.enter {eof : Padded} (goal : Goal) : Free eof goal.moves (.enter goal) :=
  .safe (.enter goal fun _ => rfl)

theorem Goal.form_safe {eof : Padded} (isEnd : eof.token.kind = .eof) (goal : Goal) :
    Form.Safe eof goal.moves goal.form goal.spot := by
  cases goal with
  | expression floor => exact Grammar.expressionRule_safe isEnd floor
  | type => exact Grammar.typeRule_safe isEnd
  | statement => exact Grammar.statementRule_safe isEnd
  | blockItems => exact (Grammar.statements_safe isEnd (by decide)).within rfl

end JaiTree
