import JaiTree.Proofs.Grammar.Chains
import JaiTree.Proofs.Grammar.Declared
import JaiTree.Proofs.Grammar.Starts

/-!
Assigned words: a keyword that an assignment operator follows is a name that is assigned to, and
all of the statement is read as that, but for the one word that the operand it begins is read for
all the same. Main statement: `Cursor.read_assigned`.
-/

namespace JaiTree

/-- Of the words that may begin a statement only one may begin an operand. -/
theorem Keyword.not_startsOperand {keyword : Keyword} (starts : keyword.startsStatement = true)
    (other : keyword ≠ .ifxWord) : keyword.startsOperand = false := by
  cases keyword
  all_goals first | rfl | exact absurd rfl other | cases starts

namespace TokenKind

variable {kind : TokenKind}

theorem power?_of_isAssignment (assigns : kind.isAssignment = true) : kind.power? = none := by
  cases kind with
  | directive d => rfl
  | _ => first | rfl | cases assigns

theorem not_startsExpression_of_isAssignment (assigns : kind.isAssignment = true) :
    kind.startsExpression = false := by
  cases kind with
  | directive d => cases assigns
  | _ => first | rfl | cases assigns

theorem directive?_of_isAssignment (assigns : kind.isAssignment = true) :
    kind.directive? = none := by
  cases kind with
  | directive d => cases assigns
  | _ => rfl

theorem ne_of_isAssignment {other : TokenKind} (assigns : kind.isAssignment = true)
    (no : other.isAssignment = false) : kind ≠ other := by
  rintro rfl
  rw [assigns] at no
  cases no

end TokenKind

section

variable {eof word operator : Padded} {more : List Padded} {keyword : Keyword}
  (assigns : operator.token.kind.isAssignment = true)
include assigns

theorem Glance.actsAsName_run :
    (actsAsName 0).run eof (word :: operator :: more) = true := by
  have next : (ahead eof (word :: operator :: more) 1).token.kind = operator.token.kind := rfl
  have no_comma : operator.token.kind ≠ .comma := TokenKind.ne_of_isAssignment assigns rfl
  rw [actsAsName, run_bind, run_kindAt, next, if_neg no_comma, run_pure, assigns, Bool.or_true]

/-- No names are declared where the first of them is assigned to. -/
theorem Glance.nameList_run (name : word.token.kind = .identifier) :
    (nameList 0).run eof (word :: operator :: more) = none := by
  have no_comma : operator.token.kind ≠ .comma := TokenKind.ne_of_isAssignment assigns rfl
  have no_colon : operator.token.kind ≠ .colon := TokenKind.ne_of_isAssignment assigns rfl
  have no_double : operator.token.kind ≠ .colonColon := TokenKind.ne_of_isAssignment assigns rfl
  have one : nameRun (word :: operator :: more) = 1 := by
    unfold nameRun
    rw [if_pos name]
    split
    · next split =>
      obtain ⟨rfl, -⟩ := List.cons.inj split
      simp [no_comma]
    · rfl
  have next : ahead eof (word :: operator :: more) (0 + 1) = operator := rfl
  rw [nameList, run, List.drop_zero, one, if_neg Nat.one_ne_zero, run_bind, run_kindAt, next,
    if_neg (by simp [no_colon, no_double]), run_pure]

/-- A statement that begins with a word that is assigned to is one of expressions. -/
theorem StatementShape.glance_run (spells : word.token.keyword? = some keyword)
    (starts : keyword.startsStatement = true) :
    glance.run eof (word :: operator :: more) = .expressionList := by
  have name : word.sight.kind = .identifier := Lexeme.kind_of_keyword? spells
  have sighted : (ahead eof (word :: operator :: more) 0).sight = word.sight := rfl
  have seen : word.sight.keyword? = some keyword := spells
  have names : ofNames.run eof (word :: operator :: more) = .expressionList := by
    rw [ofNames, Glance.run_bind, Conflict.decide, Glance.run_bind,
      Glance.nameList_run assigns name]
    rfl
  rw [glance, Glance.run_bind, Glance.run_tokenAt, sighted, name]
  dsimp only
  rw [seen]
  dsimp only
  rw [if_pos starts, Glance.run_bind, Glance.actsAsName_run assigns]
  exact names

end

namespace Grammar

open Form

variable {eof t word operator semicolon : Padded} {deeper : Goal → Reading} {self : Reading}
  {setting : Setting} {rest more after : List Padded} {floor : Power}

theorem many_read_stop {look : Glance Bool} {body : Form} (stops : look.run eof rest = false) :
    (Form.many look body).read eof deeper self setting rest = .done [] rest := by
  rw [many, Form.read, Reading.unrolled, ifelse_read_no stops]
  rfl

/-- A name alone is all of an expression where nothing binds it. -/
theorem expressionRule_read_name (name : t.token.kind = .identifier)
    (plain : t.token.keyword?.any Keyword.startsOperand = false)
    (loose : (ahead eof rest 0).token.kind.power? = none) :
    (expressionRule floor).read eof deeper self setting (t :: rest)
      = .done [.node none (.named t)] rest := by
  have binding : (ahead eof rest 0).binding ≤ floor.rank := by
    rw [Padded.binding, loose]
    exact Nat.zero_le floor.rank
  rw [expressionRule, growing, Form.read, operand_read_name name plain]
  exact Growth.grown_of_binding_le _ binding

theorem seq_read {first second : Form} {front back : List Child} {middle last : List Padded}
    (h : first.read eof deeper self setting rest = .done front middle)
    (h' : second.read eof deeper self setting middle = .done back last) :
    (first ++ second).read eof deeper self setting rest = .done (front ++ back) last := by
  change Outcome.andThen _ _ = _
  rw [h, Outcome.andThen_done, h']
  rfl

variable {left right : Node}

/-- The value that is assigned is all that stands between the operator and the semicolon. -/
theorem assignedValue_read (assigns : operator.token.kind.isAssignment = true)
    (ends : semicolon.token.kind = .semicolon)
    (valued : deeper (.expression .default) setting rest
      = .done [.node none right] (semicolon :: after)) :
    (Form.many (Glance.isNext .comma) (any ++ .label .left expression) ++ assignmentOperator
        ++ separated (.label .right expression) ++ optSemicolon).read eof deeper self setting
          (operator :: rest)
      = .done (Child.ofPadded (some .operator) operator ++ [.node (some .right) right]
          ++ Child.ofPadded none semicolon) after := by
  have no_comma : operator.token.kind ≠ .comma := TokenKind.ne_of_isAssignment assigns rfl
  have no_more : (Glance.isNext .comma).run eof (operator :: rest) = false :=
    decide_eq_false no_comma
  have no_value : (Glance.isNext .comma).run eof (semicolon :: after) = false := by
    have other : semicolon.token.kind ≠ .comma := by
      rw [ends]
      decide
    exact decide_eq_false other
  have operates : assignmentOperator.read eof deeper self setting (operator :: rest)
      = .done (Child.ofPadded (some .operator) operator) rest := by
    have sighted : (ahead eof (operator :: rest) 0).sight.kind = operator.token.kind := rfl
    rw [assignmentOperator, onSight, Form.read, Glance.run_tokenAt, sighted, if_pos assigns]
    rfl
  have value : (Form.label .right expression).read eof deeper self setting rest
      = .done [.node (some .right) right] (semicolon :: after) := by
    rw [expression, Form.read, Form.read, valued]
    rfl
  have stops : optSemicolon.read eof deeper self setting (semicolon :: after)
      = .done (Child.ofPadded none semicolon) after := by
    have sighted : (ahead eof (semicolon :: after) 0).sight.kind = .semicolon := ends
    rw [optSemicolon, optToken, opt, onSight, Form.read, Glance.run_tokenAt, sighted]
    rfl
  have skipped : (Form.many (Glance.isNext .comma) (any ++ .label .left expression)).read eof deeper
      self setting (operator :: rest) = .done [] (operator :: rest) := many_read_stop no_more
  have single : (separated (.label .right expression)).read eof deeper self setting rest
      = .done ([.node (some .right) right] ++ []) (semicolon :: after) :=
    seq_read value (many_read_stop no_value)
  have whole := seq_read (seq_read (seq_read skipped operates) single) stops
  rwa [List.nil_append, List.append_nil] at whole

/-- An expression that an operator assigns to becomes the left of an assignment. -/
theorem expressionList_read (assigning : operator.token.kind.isAssignment = true)
    (ends : semicolon.token.kind = .semicolon)
    (assigned : deeper (.expression .default) setting rest
      = .done [.node none left] (operator :: more))
    (valued : deeper (.expression .default) setting more
      = .done [.node none right] (semicolon :: after)) :
    expressionList.read eof deeper self setting rest
      = .done (Child.under .assignment ([.node (some .left) left]
          ++ (Child.ofPadded (some .operator) operator ++ [.node (some .right) right]
            ++ Child.ofPadded none semicolon))) after := by
  have value := @assignedValue_read eof operator semicolon deeper self setting more after right
    assigning ends valued
  have sees : (some <$> assigns : Glance (Option Bool)).run eof (operator :: more) = some true := by
    have kind : (ahead eof (operator :: more) 0).token.kind = operator.token.kind := rfl
    rw [Glance.run_map, assigns, Glance.run_bind, Glance.run_kindAt, kind, Glance.run_pure,
      assigning, Bool.or_true]
  have first : expression.read eof deeper self setting rest
      = .done [.node none left] (operator :: more) := assigned
  rw [expressionList, Form.read, first]
  dsimp only
  rw [if_neg Bool.false_ne_true, Reading.grown, sees, Option.map_some]
  simp only [↓reduceIte, value]
  rfl

variable {error : Diagnostic} {front : List Child} {middle last : List Padded}
  {first second : Form}

theorem seq_failed (failed : first.read eof deeper self setting rest = .failed error last) :
    (first ++ second).read eof deeper self setting rest = .failed error last := by
  change Outcome.andThen _ _ = _
  rw [failed]
  rfl

theorem seq_failed_behind (done : first.read eof deeper self setting rest = .done front middle)
    (failed : second.read eof deeper self setting middle = .failed error last) :
    (first ++ second).read eof deeper self setting rest = .failed error last := by
  change Outcome.andThen _ _ = _
  rw [done, Outcome.andThen_done, failed]
  rfl

/-- Where the condition of a choice between two values fails, the choice does. -/
theorem conditionalValue_read_failed
    (failed : deeper (.expression .default) setting rest = .failed error last) :
    conditionalValue.read eof deeper self setting (t :: rest) = .failed error last := by
  have condition : (Form.label .condition expression).read eof deeper self setting rest
      = .failed error last := by
    rw [expression, Form.read, Form.read, failed]
    rfl
  rw [conditionalValue, Form.read,
    seq_failed (seq_failed (seq_failed (seq_failed_behind any_read condition)))]
  rfl

/-- The word of such a choice begins it wherever an expression is read. -/
theorem level_read_ifx {room : Nat} (spells : t.token.keyword? = some .ifxWord)
    (failed : level eof room (.expression .default) setting rest = .failed error last) :
    level eof (room + 1) (.expression floor) setting (t :: rest) = .failed error last := by
  have word : (ahead eof (t :: rest) 0).sight.keyword? = some .ifxWord := spells
  have chosen : operand.read eof (level eof room) nothing setting (t :: rest)
      = .failed error last := by
    rw [operand, onSight, Form.read, Glance.run_tokenAt, word]
    exact conditionalValue_read_failed failed
  change (expressionRule floor).read eof (level eof room) nothing setting (t :: rest) = _
  rw [expressionRule, growing, Form.read, chosen]

theorem expressionList_failed
    (failed : deeper (.expression .default) setting rest = .failed error last) :
    expressionList.read eof deeper self setting rest = .failed error last := by
  have first : expression.read eof deeper self setting rest = .failed error last := failed
  rw [expressionList, Form.read, first]

/-- What is wrong with an assignment operator where an expression is read, with room for so many
more levels. -/
def assignmentCause (room : Nat) (operator : Padded) : Cause :=
  if room = 0 then .nestingTooDeep maxNesting else .expectedExpression operator.token.text

/-- Which of the two it is depends on how deep the statement stands. -/
theorem assignmentCause_of_depth {depth room : Nat}
    (room_eq : maxNesting - (depth + 1) = room + 1) :
    assignmentCause room operator
      = if depth + 2 < maxNesting then .expectedExpression operator.token.text
        else .nestingTooDeep maxNesting := by
  rw [assignmentCause]
  split
  · rw [if_neg (by omega)]
  · rw [if_pos (by omega)]

/-- No expression begins with an assignment operator. -/
theorem level_read_assignment (room : Nat)
    (assigning : operator.token.kind.isAssignment = true) :
    level eof room (.expression floor) setting (operator :: more)
      = .failed ⟨assignmentCause room operator, operator.token.start⟩ (operator :: more) := by
  cases room with
  | zero => rfl
  | succ room =>
    have unfit : (ahead eof (operator :: more) 0).sight.kind.startsExpression = false :=
      TokenKind.not_startsExpression_of_isAssignment assigning
    have no_directive : operator.sight.directive? = none :=
      TokenKind.directive?_of_isAssignment assigning
    have described : operator.sight.described = operator.token.text :=
      if_neg (TokenKind.ne_of_isAssignment assigning rfl)
    have misfit : operator.sight.misfit = assignmentCause (room + 1) operator := by
      rw [Sight.misfit, no_directive, described]
      rfl
    rw [← misfit]
    exact expressionRule_read_misfit floor unfit

/-- A word that is assigned to is the left of the assignment, unless an operand begins with it. -/
theorem assigned_read {room : Nat} {keyword : Keyword}
    (spells : word.token.keyword? = some keyword) (starts : keyword.startsStatement = true)
    (assigning : operator.token.kind.isAssignment = true)
    (ends : semicolon.token.kind = .semicolon)
    (valued : level eof (room + 1) (.expression .default) setting rest
      = .done [.node none right] (semicolon :: after)) :
    expressionList.read eof (level eof (room + 1)) nothing setting (word :: operator :: rest)
      = if keyword = .ifxWord then
          .failed ⟨assignmentCause room operator, operator.token.start⟩ (operator :: rest)
        else
          .done (Child.under .assignment ([.node (some .left) (.named word)]
            ++ (Child.ofPadded (some .operator) operator ++ [.node (some .right) right]
              ++ Child.ofPadded none semicolon))) after := by
  split
  · next ifx =>
    rw [ifx] at spells
    have condition := @level_read_assignment eof operator setting rest .default room assigning
    exact expressionList_failed (level_read_ifx spells condition)
  · next other =>
    have name := Lexeme.kind_of_keyword? spells
    have plain : word.token.keyword?.any Keyword.startsOperand = false := by
      rw [spells]
      exact Keyword.not_startsOperand starts other
    have loose : (ahead eof (operator :: rest) 0).token.kind.power? = none :=
      TokenKind.power?_of_isAssignment assigning
    exact expressionList_read assigning ends (expressionRule_read_name name plain loose) valued

/-- A statement of expressions is read one level below the place where it stands. -/
theorem read_statement_of_expressionList {room : Nat}
    (shaped : StatementShape.glance.run eof rest = .expressionList) :
    Grammar.read eof (room + 1) statement setting rest
      = expressionList.read eof (level eof room) nothing setting rest := by
  change statementRule.read _ _ _ _ _ = _
  rw [statementRule, Form.read, shaped]

end Grammar

namespace Cursor

variable {cursor : Cursor}

/-- What is read from a place of which the tokens are known, up to where it ends. -/
theorem done_of_read_append {form : Form} {children : List Child} {taken after : List Padded}
    (ahead_eq : cursor.rest = taken ++ after)
    (found : cursor.read form
      = (.ok children, { cursor with position := cursor.position + taken.length })) :
    Grammar.read cursor.eof (Grammar.maxNesting - cursor.depth) form cursor.setting (taken ++ after)
      = .done children after := by
  obtain ⟨left, ended, moved⟩ := done_of_read found
  have suffix := Grammar.read_suffix cursor.eof (Grammar.maxNesting - cursor.depth) form
    cursor.setting cursor.rest
  rw [ended] at suffix
  obtain ⟨passed, split⟩ := suffix
  change passed ++ left = cursor.rest at split
  obtain ⟨position, -⟩ := leaving_append split.symm
  rw [← moved] at position
  have length : passed.length = taken.length := (Nat.add_left_cancel position).symm
  obtain ⟨-, rfl⟩ := List.append_inj (split.trans ahead_eq) length
  rw [← ahead_eq]
  exact ended

/-- A word that may begin a statement is a name where an assignment operator follows it. With a
value and a semicolon behind the operator, the statement is the assignment of that value to the
name, up to and with the semicolon. Only `ifx` is read as the operand that it begins, and the
statement fails at the operator. -/
theorem read_assigned (cursor : Cursor) (word operator semicolon : Padded)
    (value after : List Padded) (keyword : Keyword) (right : Node)
    (ahead_eq : cursor.rest = word :: operator :: (value ++ semicolon :: after))
    (spells : word.token.keyword? = some keyword) (starts : keyword.startsStatement = true)
    (assigning : operator.token.kind.isAssignment = true)
    (ends : semicolon.token.kind = .semicolon)
    (valued :
      let inner := { cursor with position := cursor.position + 2, depth := cursor.depth + 1 }
      inner.read Grammar.expression
        = (.ok [.node none right], { inner with position := inner.position + value.length })) :
    cursor.glance (Glance.actsAsName 0) = true
    ∧ cursor.read Grammar.statement
      = if keyword = .ifxWord then
          (.error ⟨if cursor.depth + 2 < Grammar.maxNesting
              then .expectedExpression operator.token.text
              else .nestingTooDeep Grammar.maxNesting, operator.token.start⟩,
            { cursor with position := cursor.position + 1 })
        else
          (.ok [.node none (.sound .assignment ([.node (some .left) (.named word)]
              ++ (Child.ofPadded (some .operator) operator ++ [.node (some .right) right]
                ++ Child.ofPadded none semicolon)))],
            { cursor with position := cursor.position + (value.length + 3) }) := by
  have behind : { cursor with position := cursor.position + 2, depth := cursor.depth + 1 }.rest
      = value ++ semicolon :: after := by
    rw [rest, ← List.drop_drop]
    change cursor.rest.drop 2 = _
    rw [ahead_eq]
    rfl
  have ended : Grammar.read cursor.eof (Grammar.maxNesting - (cursor.depth + 1))
      Grammar.expression cursor.setting (value ++ semicolon :: after)
      = .done [.node none right] (semicolon :: after) := done_of_read_append behind valued
  have shaped := @StatementShape.glance_run cursor.eof word operator (value ++ semicolon :: after)
    keyword assigning spells starts
  have acts := @Glance.actsAsName_run cursor.eof word operator (value ++ semicolon :: after)
    assigning
  -- The value is read two levels below the place, so that at least these can be opened.
  cases room_eq : Grammar.maxNesting - (cursor.depth + 1) with
  | zero =>
    rw [room_eq] at ended
    change Outcome.failed _ _ = _ at ended
    cases ended
  | succ room =>
    rw [room_eq] at ended
    have levels : Grammar.maxNesting - cursor.depth = room + 2 := by omega
    have assigned := Grammar.assigned_read spells starts assigning ends ended
    have cause := @Grammar.assignmentCause_of_depth operator cursor.depth room room_eq
    have first : cursor.rest.length - (operator :: (value ++ semicolon :: after)).length = 1 := by
      rw [ahead_eq, List.length_cons, Nat.add_sub_cancel_left]
    have all : cursor.rest.length - after.length = value.length + 3 := by
      rw [ahead_eq]
      simp only [List.length_cons, List.length_append]
      omega
    constructor
    · rw [glance, ahead_eq]
      exact acts
    · rw [read, levels, ahead_eq, Grammar.read_statement_of_expressionList shaped, assigned, cause]
      by_cases ifx : keyword = .ifxWord
      · rw [if_pos ifx, if_pos ifx]
        dsimp only
        rw [leaving, first]
      · rw [if_neg ifx, if_neg ifx]
        dsimp only
        rw [leaving, all]
        rfl

/-- A word that begins conditions, with a name added to it. -/
theorem read_assigned_if : ∃ word operator semicolon value after right,
    (Cursor.ofText "if += x;").rest = word :: operator :: (value ++ semicolon :: after)
      ∧ word.token.keyword? = some .ifWord
      ∧ (Cursor.ofText "if += x;").read Grammar.statement
        = (.ok [.node none (.sound .assignment ([.node (some .left) (.named word)]
            ++ (Child.ofPadded (some .operator) operator ++ [.node (some .right) right]
              ++ Child.ofPadded none semicolon)))],
          { Cursor.ofText "if += x;" with position := 4 }) := by
  let blank (start : Nat) : Token := ⟨⟨.whitespace, " "⟩, start, none⟩
  let word : Padded := ⟨[], ⟨⟨.identifier, "if"⟩, 0, none⟩⟩
  let operator : Padded := ⟨[blank 2], ⟨⟨.plusEquals, "+="⟩, 3, none⟩⟩
  let name : Padded := ⟨[blank 5], ⟨⟨.identifier, "x"⟩, 6, none⟩⟩
  let semicolon : Padded := ⟨[], ⟨⟨.semicolon, ";"⟩, 7, none⟩⟩
  let inner : Cursor := { Cursor.ofText "if += x;" with position := 2, depth := 1 }
  have ahead_eq : (Cursor.ofText "if += x;").rest
      = word :: operator :: ([name] ++ semicolon :: []) := by decide +kernel
  have behind : inner.rest = [name, semicolon] := by decide +kernel
  have valued : inner.read Grammar.expression
      = (.ok [.node none (.named name)], { inner with position := inner.position + 1 }) := by
    have read : Grammar.read inner.eof (Grammar.maxNesting - inner.depth) Grammar.expression
        inner.setting inner.rest = .done [.node none (.named name)] [semicolon] := by
      rw [behind]
      exact Grammar.expressionRule_read_name rfl (by decide) rfl
    rw [Cursor.read, read]
    dsimp only
    rw [leaving, behind]
    rfl
  have read := (read_assigned (Cursor.ofText "if += x;") word operator semicolon [name] [] .ifWord
    (.named name) ahead_eq (by decide) rfl rfl rfl valued).2
  rw [if_neg (by decide)] at read
  exact ⟨word, operator, semicolon, [name], [], .named name, ahead_eq, by decide, read⟩

/-- The word of a choice between two values is a name by what follows it, the value behind the
operator can be read, and the statement fails all the same. -/
theorem assigned_differ :
    let cursor := Cursor.ofText "ifx = 1;"
    let inner := { cursor with position := 2, depth := 1 }
    cursor.glance (Glance.actsAsName 0) = true
      ∧ (inner.read Grammar.expression).1.toOption.isSome = true
      ∧ (inner.read Grammar.expression).2.position = 3
      ∧ (cursor.read Grammar.statement).1.toOption.isSome = false
      ∧ (parse "ifx = 1;").hasErrors = true := by
  decide +kernel

end Cursor

end JaiTree
