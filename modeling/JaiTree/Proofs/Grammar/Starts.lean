import JaiTree.Parse
import JaiTree.Proofs.Grammar.Follows

/-!
Starts: whether a token may begin an expression or a type, as a rule asks before it reads one that
may be left out, and whether reading one there gets past that token. The two agree but for the
words that go on a statement, which are read as plain names. Main statement: `Cursor.read_misfit`.
-/

namespace JaiTree

/-- What is wrong with a token that no expression begins with. -/
def Sight.misfit (s : Sight) : Cause :=
  if s.directive?.isSome then .misplacedDirective s.text else .expectedExpression s.described

/-- Whether an operand that begins with the keyword is more than its name. -/
def Keyword.startsOperand : Keyword → Bool
  | .trueWord | .falseWord | .nullWord | .castWord | .xxWord | .inlineWord | .noInlineWord
  | .ifxWord => true
  | _ => false

namespace Grammar

open Form

section

variable {eof : Padded} {deeper : Goal → Reading} {self : Reading} {setting : Setting}
  {rest : List Padded} {s : Sight}

/-- Only a name goes on a statement. -/
theorem kind_of_isContinuation (continues : s.isContinuation = true) : s.kind = .identifier := by
  rw [Sight.isContinuation] at continues
  by_cases name : s.kind = .identifier
  · exact name
  · rw [Lexeme.keyword?, if_neg name] at continues
    cases continues

/-- A word that goes on a statement begins no operand and inlines nothing. -/
theorem words_of_isContinuation (continues : s.isContinuation = true) :
    s.keyword?.any Keyword.startsOperand = false ∧ s.isInlining = false := by
  rw [Sight.isInlining]
  rw [Sight.isContinuation] at continues
  split at continues
  iterate 3
    · next word =>
      rw [word]
      exact ⟨rfl, rfl⟩
  · cases continues

/-- A token that does not go on a statement begins what its kind begins. -/
theorem startsExpression_kind (plain : s.isContinuation = false) :
    s.startsExpression = s.kind.startsExpression := by
  rw [Sight.startsExpression, plain, Bool.not_false, Bool.and_true]

theorem startsType_kind (plain : s.isContinuation = false) : s.startsType = s.kind.startsType := by
  rw [Sight.startsType, plain, Bool.not_false, Bool.and_true]

/-- An operand is refused where it begins with none of the kinds that it may begin with. -/
theorem operandOf_misfit (unfit : s.kind.startsExpression = false) :
    operandOf s = if s.directive?.isSome then misplaced else missing .expectedExpression := by
  rw [operandOf, Lexeme.directive?]
  generalize s.kind = kind at unfit
  cases kind with
  | directive d => cases d <;> first | rfl | cases unfit
  | _ => first | rfl | cases unfit

theorem operandOf_read_misfit (sighted : (ahead eof rest 0).sight = s)
    (unfit : s.kind.startsExpression = false) :
    (operandOf s).read eof deeper self setting rest = Reading.fail eof Sight.misfit rest := by
  have told : Reading.fail eof Sight.misfit rest
      = .failed ⟨s.misfit, (ahead eof rest 0).token.start⟩ rest := by
    rw [← sighted]
    rfl
  rw [operandOf_misfit unfit, told, Sight.misfit]
  split
  · rw [← sighted]
    rfl
  · rw [← sighted]
    rfl

/-- A word that is read as more than a name is one that begins expressions, as names do. -/
theorem keyword_misfit (unfit : s.kind.startsExpression = false) : s.keyword? = none := by
  rw [Lexeme.keyword?, if_neg]
  intro name
  rw [name] at unfit
  cases unfit

theorem operand_read_misfit (unfit : (ahead eof rest 0).sight.kind.startsExpression = false) :
    operand.read eof deeper self setting rest = Reading.fail eof Sight.misfit rest := by
  rw [operand, onSight, Form.read, Glance.run_tokenAt, keyword_misfit unfit]
  exact operandOf_read_misfit rfl unfit

theorem expressionRule_read_misfit (floor : Power)
    (unfit : (ahead eof rest 0).sight.kind.startsExpression = false) :
    (expressionRule floor).read eof deeper self setting rest
      = Reading.fail eof Sight.misfit rest := by
  rw [expressionRule, growing, Form.read, operand_read_misfit unfit]
  rfl

/-- A type is refused where it begins with none of the kinds that it may begin with. -/
theorem typeRule_read_misfit (unfit : (ahead eof rest 0).sight.kind.startsType = false) :
    typeRule.read eof deeper self setting rest
      = Reading.fail eof (fun s => .expectedType s.described) rest := by
  rw [typeRule, onSight, Form.read, Glance.run_tokenAt]
  generalize (ahead eof rest 0).sight.kind = kind at unfit
  cases kind with
  | directive d =>
    have refused : (d.isExpression && d.operand != .hereString) = false := unfit
    dsimp only
    rw [refused]
    rfl
  | _ => first | rfl | cases unfit

end

/-- What grows goes on behind what it grows from. -/
theorem grow_suffix {κ : Type} {eof : Padded} {deeper : Goal → Reading} {self : Reading}
    (deeper_suffix : ∀ goal setting rest, (deeper goal setting rest).left <:+ rest)
    (self_suffix : ∀ setting rest, (self setting rest).left <:+ rest) {first : Form}
    {look : Setting → Glance (Option κ)} {kind : κ → NodeKind} {field : κ → Option Field}
    {tail : κ → Form} {many : Bool} {setting : Setting} {rest after : List Padded}
    {children : List Child}
    (found : first.read eof deeper self setting rest = .done children after) :
    ((Form.grow many first look kind field tail).read eof deeper self setting rest).left
      <:+ after := by
  rw [Form.read, found]
  apply Reading.grown_suffix
  intro children rest outcome added
  obtain ⟨k, -, rfl⟩ := Option.map_eq_some_iff.mp added
  rw [Outcome.left_map]
  exact (tail k).read_suffix deeper_suffix self_suffix setting rest

section

variable {eof t : Padded} {deeper : Goal → Reading} {self : Reading} {setting : Setting}
  {ts : List Padded}

/-- A name is read as an operand, whatever it spells, unless its word begins an operand. -/
theorem operand_read_name (name : t.token.kind = .identifier)
    (plain : t.token.keyword?.any Keyword.startsOperand = false) :
    operand.read eof deeper self setting (t :: ts)
      = .done (Child.under .identifier (Child.ofPadded none t)) ts := by
  have sighted : (ahead eof (t :: ts) 0).sight = t.sight := rfl
  have kind : t.sight.kind = .identifier := name
  have word : t.sight.keyword?.any Keyword.startsOperand = false := plain
  have read : (operandOf t.sight).read eof deeper self setting (t :: ts)
      = .done (Child.under .identifier (Child.ofPadded none t)) ts := by
    rw [operandOf, kind]
    dsimp only
    rw [primary, onSight, Form.read, Glance.run_tokenAt, sighted, kind]
    rfl
  rw [operand, onSight, Form.read, Glance.run_tokenAt, sighted]
  split
  iterate 8
    · next keyword =>
      rw [keyword] at word
      cases word
  · exact read

variable (deeper_suffix : ∀ goal setting rest, (deeper goal setting rest).left <:+ rest)
  (self_suffix : ∀ setting rest, (self setting rest).left <:+ rest)
  (continues : t.sight.isContinuation = true)
include deeper_suffix self_suffix continues

/-- An expression takes a word that goes on a statement as a plain name. -/
theorem expressionRule_continuation (floor : Power) :
    ((expressionRule floor).read eof deeper self setting (t :: ts)).left <:+ ts := by
  have plain := (words_of_isContinuation continues).1
  exact grow_suffix deeper_suffix self_suffix
    (operand_read_name (kind_of_isContinuation continues) plain)

/-- A type takes such a word as a plain name, too. -/
theorem typeRule_continuation :
    (typeRule.read eof deeper self setting (t :: ts)).left <:+ ts := by
  have sighted : (ahead eof (t :: ts) 0).sight = t.sight := rfl
  have name : t.token.kind = .identifier := kind_of_isContinuation continues
  have plain : t.sight.isInlining = false := (words_of_isContinuation continues).2
  have taken : identifier.read eof deeper self setting (t :: ts)
      = .done (Child.under .identifier (Child.ofPadded none t)) ts := by
    have here : (ahead eof (t :: ts) 0).token.kind = .identifier := name
    rw [identifier, Form.read, token, Form.read, if_pos here]
    rfl
  rw [typeRule, onSight, Form.read, Glance.run_tokenAt, sighted, kind_of_isContinuation continues]
  dsimp only
  rw [identifierType, settled, Form.read]
  split
  · exact List.suffix_rfl
  · rw [ifelse, Form.read, Glance.run_bind, Glance.run_tokenAt, sighted, plain]
    exact grow_suffix deeper_suffix self_suffix taken

end

end Grammar

namespace Cursor

variable {cursor : Cursor} {goal : Goal}

/-- A rule that counts as a level is read with the rules below it where a level can be opened. -/
theorem read_enter (goal : Goal) (shallow : cursor.depth < Grammar.maxNesting) :
    ∃ room, Grammar.read cursor.eof (Grammar.maxNesting - cursor.depth) (.enter goal) cursor.setting
        cursor.rest
      = goal.form.read cursor.eof (Grammar.level cursor.eof room) Grammar.nothing cursor.setting
        cursor.rest := by
  obtain ⟨room, some_room⟩ : ∃ room, Grammar.maxNesting - cursor.depth = room + 1 :=
    ⟨Grammar.maxNesting - cursor.depth - 1, by omega⟩
  refine ⟨room, ?_⟩
  rw [some_room]
  rfl

/-- Where a rule is refused, nothing is taken. -/
theorem read_refused {cause : Sight → Cause} (shallow : cursor.depth < Grammar.maxNesting)
    (refused : ∀ deeper, goal.form.read cursor.eof deeper Grammar.nothing cursor.setting cursor.rest
      = Reading.fail cursor.eof cause cursor.rest) :
    cursor.read (.enter goal)
      = (.error ⟨cause (cursor.peek 0).sight, (cursor.peek 0).token.start⟩, cursor) := by
  obtain ⟨room, same⟩ := read_enter goal shallow
  rw [read, same, refused]
  change (Except.error _, cursor.leaving cursor.rest) = _
  rw [leaving_rest]
  rfl

/-- Where a rule leaves no more than what follows the next token, that token is taken. -/
theorem position_lt_of_suffix {t : Padded} {ts : List Padded}
    (shallow : cursor.depth < Grammar.maxNesting) (split : cursor.rest = t :: ts)
    (behind : ∀ room, (goal.form.read cursor.eof (Grammar.level cursor.eof room) Grammar.nothing
      cursor.setting (t :: ts)).left <:+ ts) :
    cursor.position < (cursor.read (.enter goal)).2.position := by
  obtain ⟨room, same⟩ := read_enter goal shallow
  have fewer := (behind room).length_le
  have total := congrArg List.length split
  rw [List.length_cons] at total
  have moved (outcome : Outcome) (fewer : outcome.left.length ≤ ts.length) :
      cursor.position < (cursor.leaving outcome.left).position := by
    rw [leaving]
    dsimp only
    omega
  rw [read, same, split]
  generalize goal.form.read cursor.eof (Grammar.level cursor.eof room) Grammar.nothing
    cursor.setting (t :: ts) = outcome at fewer
  cases outcome with
  | done children rest => exact moved (.done children rest) fewer
  | failed error rest => exact moved (.failed error rest) fewer

/-- Below the limit, an expression that may not begin with the next token fails there and takes
nothing, and so does a type, unless that token is a word that goes on a statement. Neither of them
may begin with such a word, and both of them take it. -/
theorem read_misfit (cursor : Cursor) (isEnd : cursor.eof.token.kind = .eof)
    (shallow : cursor.depth < Grammar.maxNesting) :
    ((cursor.peek 0).sight.isContinuation = false →
      ((cursor.peek 0).sight.startsExpression = false → ∀ floor,
        cursor.read (.enter (.expression floor))
          = (.error ⟨(cursor.peek 0).sight.misfit, (cursor.peek 0).token.start⟩, cursor))
      ∧ ((cursor.peek 0).sight.startsType = false →
        cursor.read (.enter .type)
          = (.error ⟨.expectedType (cursor.peek 0).sight.described, (cursor.peek 0).token.start⟩,
            cursor)))
    ∧ ((cursor.peek 0).sight.isContinuation = true →
      (cursor.peek 0).sight.startsExpression = false ∧ (cursor.peek 0).sight.startsType = false
      ∧ (∀ floor, cursor.position < (cursor.read (.enter (.expression floor))).2.position)
      ∧ cursor.position < (cursor.read (.enter .type)).2.position) := by
  constructor
  · intro plain
    constructor
    · intro unfit floor
      rw [Grammar.startsExpression_kind plain] at unfit
      exact read_refused shallow fun deeper => Grammar.expressionRule_read_misfit floor unfit
    · intro unfit
      rw [Grammar.startsType_kind plain] at unfit
      have refused (deeper : Goal → Reading) :
          Goal.type.form.read cursor.eof deeper Grammar.nothing cursor.setting cursor.rest
            = Reading.fail cursor.eof (fun s => .expectedType s.described) cursor.rest :=
        Grammar.typeRule_read_misfit unfit
      exact read_refused shallow refused
  · intro continues
    have name := Grammar.kind_of_isContinuation continues
    have some_token : cursor.rest ≠ [] := by
      intro none
      rw [peek, none] at name
      exact absurd (isEnd.symm.trans name) (by decide)
    obtain ⟨t, ts, split⟩ := List.exists_cons_of_ne_nil some_token
    have word : t.sight.isContinuation = true := by
      rw [peek, split] at continues
      exact continues
    refine ⟨?_, ?_, fun floor => ?_, ?_⟩
    · rw [Sight.startsExpression, continues, Bool.not_true, Bool.and_false]
    · rw [Sight.startsType, continues, Bool.not_true, Bool.and_false]
    · exact position_lt_of_suffix shallow split fun room =>
        Grammar.expressionRule_continuation (Grammar.level_suffix cursor.eof room)
          (fun _ _ => List.suffix_rfl) word floor
    · exact position_lt_of_suffix shallow split fun room =>
        Grammar.typeRule_continuation (Grammar.level_suffix cursor.eof room)
          (fun _ _ => List.suffix_rfl) word

/-- Nothing begins with a closing parenthesis. -/
theorem read_misfit_closeParen :
    let cursor := Cursor.ofText ") x"
    cursor.eof.token.kind = .eof ∧ cursor.depth < Grammar.maxNesting
      ∧ cursor.read Grammar.expression = (.error ⟨.expectedExpression ")", 0⟩, cursor)
      ∧ cursor.read Grammar.type = (.error ⟨.expectedType ")", 0⟩, cursor) := by
  intro cursor
  have isEnd : cursor.eof.token.kind = .eof := isEnd_ofText ") x"
  have shallow : cursor.depth < Grammar.maxNesting := by decide
  have plain : (cursor.peek 0).sight.isContinuation = false := by decide +kernel
  obtain ⟨noExpression, noType⟩ := (read_misfit cursor isEnd shallow).1 plain
  have first : cursor.peek 0 = ⟨[], ⟨⟨.closeParen, ")"⟩, 0, none⟩⟩ := by decide +kernel
  rw [first] at noExpression noType
  exact ⟨isEnd, shallow, noExpression rfl .default, noType rfl⟩

/-- No expression and no type may begin with a word that goes on a statement, but each of them is
read from it, and so what is missing before it goes unnoticed. -/
theorem starts_differ :
    let cursor := Cursor.ofText "then"
    (cursor.peek 0).sight.startsExpression = false ∧ (cursor.peek 0).sight.startsType = false
      ∧ (cursor.read Grammar.expression).1.toOption.isSome = true
      ∧ (cursor.read Grammar.type).1.toOption.isSome = true
      ∧ (parse "x := ifx c then else 3;").hasErrors = false := by
  decide +kernel

end Cursor

end JaiTree
