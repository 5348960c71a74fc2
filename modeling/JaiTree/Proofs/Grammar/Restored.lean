import JaiTree.Proofs.Grammar.Follows

/-!
Every rule puts back what it writes: each scope and each level in it does (`Scope.walk_eq`,
`Goal.walk_eq`), and nothing else of a rule writes into the cursor but its place. Main statement:
`Rule.walk_restores`.
-/

namespace JaiTree

/-- The rules that may be called by themselves, from any cursor. -/
inductive Rule where
  | expression (floor : Power) | range | identifier | primary | keywordLiteral | faulty
  | quotedString | hereString | string | prefixed | cast | inlined | conditionalValue
  | parenthesized | typeOperand | leadingPoint | argumentList | note | directive
  /-- An operator of the power and its other operand, behind one operand. -/
  | binary (power : Power)
  /-- A member, or the body of a literal, behind an operand. -/
  | member
  /-- An index behind an operand. -/
  | index
  /-- The arguments of a call behind an operand. -/
  | call
  | type | pointerType | arrayType | polymorphicType | procedureType | signature | parameters
  | parameterList | returnTypeList
  | statements (listEnd : ListEnd) | statement | block | annotated | ifStatement | whileStatement
  | forStatement | returnStatement | jumpStatement | deferStatement | removeStatement
  | usingStatement | caseStatement
deriving Repr, DecidableEq

namespace Rule

/-- The form of a rule. -/
def form : Rule → Form
  | .expression floor => .enter (.expression floor)
  | .range => Grammar.range
  | .identifier => Grammar.identifier
  | .primary => Grammar.primary
  | .keywordLiteral => Grammar.keywordLiteral
  | .faulty => .faulty
  | .quotedString => Grammar.quotedString
  | .hereString => Grammar.hereString
  | .string => Grammar.string
  | .prefixed => Grammar.prefixed
  | .cast => Grammar.cast
  | .inlined => Grammar.inlined
  | .conditionalValue => Grammar.conditionalValue
  | .parenthesized => Grammar.parenthesized
  | .typeOperand => Grammar.typeOperand
  | .leadingPoint => Grammar.leadingPoint
  | .argumentList => Grammar.argumentList
  | .note => Grammar.note
  | .directive => Grammar.directive
  | .binary power => Grammar.growthBody (.binary power)
  | .member => .choose (fun _ => Growth.ofPoint) Grammar.growthBody
  | .index => Grammar.growthBody .index
  | .call => Grammar.growthBody .call
  | .type => Grammar.type
  | .pointerType => Grammar.pointerType
  | .arrayType => Grammar.arrayType
  | .polymorphicType => Grammar.polymorphicType
  | .procedureType => Grammar.procedureType
  | .signature => Grammar.signature
  | .parameters => Grammar.parameters
  | .parameterList => Grammar.parameterList
  | .returnTypeList => Grammar.returnTypeList
  | .statements listEnd => Grammar.statements listEnd
  | .statement => Grammar.statement
  | .block => Grammar.block
  | .annotated => Grammar.annotated
  | .ifStatement => Grammar.ifStatement
  | .whileStatement => Grammar.whileStatement
  | .forStatement => Grammar.forStatement
  | .returnStatement => Grammar.returnStatement
  | .jumpStatement => Grammar.jumpStatement
  | .deferStatement => Grammar.deferStatement
  | .removeStatement => Grammar.removeStatement
  | .usingStatement => Grammar.usingStatement
  | .caseStatement => Grammar.caseStatement

open Grammar Form

theorem growthBody_calm (growth : Growth) : (growthBody growth).Calm .plain .plain :=
  calm_of_guarded fun _ isEnd => growthBody_guarded isEnd fun _ _ _ => False.elim

/-- Every rule is calm where statements may begin. -/
theorem form_calm (rule : Rule) : rule.form.Calm .plain .plain := by
  cases rule with
  | expression floor => exact calm_of_safe fun _ _ => level_safe floor
  | range => exact calm_of_safe fun _ isEnd => range_safe isEnd
  | identifier => exact calm_of_safe fun _ _ => identifier_safe
  | primary => exact calm_of_safe fun _ isEnd => primary_safe isEnd
  | keywordLiteral =>
    exact calm_of_guarded fun _ isEnd => keywordLiteral_guarded isEnd fun _ => False.elim
  | faulty => trivial
  | quotedString => exact calm_of_safe fun _ isEnd => quotedString_safe isEnd
  | hereString => exact calm_of_safe fun _ isEnd => hereString_safe isEnd
  | string => exact calm_of_safe fun _ isEnd => string_safe isEnd
  | prefixed => exact calm_of_guarded fun _ _ => prefixed_guarded fun _ => False.elim
  | cast => exact calm_of_guarded fun _ isEnd => cast_guarded isEnd fun _ => False.elim
  | inlined => exact calm_of_guarded fun _ isEnd => inlined_guarded isEnd fun _ => False.elim
  | conditionalValue =>
    exact calm_of_guarded fun _ isEnd => conditionalValue_guarded isEnd fun _ => False.elim
  | parenthesized => exact calm_of_safe fun _ isEnd => parenthesized_safe isEnd
  | typeOperand => exact calm_of_safe fun _ _ => typeOperand_safe
  | leadingPoint => exact calm_of_safe fun _ isEnd => leadingPoint_safe isEnd
  | argumentList => exact calm_of_safe fun _ isEnd => argumentList_safe isEnd
  | note => exact calm_of_safe fun _ isEnd => note_safe isEnd
  | directive => exact calm_of_safe fun _ isEnd => directive_safe isEnd
  | binary power => exact growthBody_calm (.binary power)
  | member => exact growthBody_calm
  | index => exact growthBody_calm .index
  | call => exact growthBody_calm .call
  | type => exact calm_of_safe fun _ _ => type_safe
  | pointerType => exact calm_of_safe fun _ isEnd => pointerType_safe isEnd
  | arrayType => exact calm_of_safe fun _ isEnd => arrayType_safe isEnd
  | polymorphicType => exact calm_of_safe fun _ _ => polymorphicType_safe
  | procedureType => exact calm_of_safe fun _ isEnd => procedureType_safe isEnd
  | signature => exact calm_of_safe fun _ isEnd => signature_safe isEnd
  | parameters => exact calm_of_safe fun _ isEnd => parameters_safe isEnd
  | parameterList => exact calm_of_safe fun _ isEnd => parameterList_safe isEnd
  | returnTypeList => exact calm_of_safe fun _ isEnd => returnTypeList_safe isEnd
  | statements listEnd => exact statements_calm listEnd
  | statement => exact calm_of_safe fun _ _ => statement_safe
  | block => exact calm_of_safe fun _ _ => block_safe
  | annotated => exact calm_of_safe fun _ isEnd => annotated_safe isEnd
  | ifStatement =>
    exact calm_of_guarded fun _ isEnd => ifStatement_guarded isEnd fun _ => False.elim
  | whileStatement => exact calm_of_guarded fun _ _ => whileStatement_guarded fun _ => False.elim
  | forStatement =>
    exact calm_of_guarded fun _ isEnd => forStatement_guarded isEnd fun _ => False.elim
  | returnStatement =>
    exact calm_of_guarded fun _ isEnd => returnStatement_guarded isEnd fun _ => False.elim
  | jumpStatement =>
    exact calm_of_guarded fun _ isEnd => jumpStatement_guarded isEnd fun _ => False.elim
  | deferStatement => exact calm_of_guarded fun _ _ => deferStatement_guarded fun _ => False.elim
  | removeStatement =>
    exact calm_of_guarded fun _ isEnd => removeStatement_guarded isEnd fun _ => False.elim
  | usingStatement =>
    exact calm_of_guarded fun _ isEnd => usingStatement_guarded isEnd fun _ => False.elim
  | caseStatement =>
    exact calm_of_guarded fun _ isEnd => caseStatement_guarded isEnd fun _ => False.elim

end Rule

/-- A rule that is called from any cursor, and whatever comes of it, leaves in the cursor what was
there before, and moves only the place. On the way no more levels are open than are followed, no
level and no parameter list is closed that the rule has not opened, and if no case of a switch may
open where the rule is called, none may where a statement begins. -/
theorem Rule.walk_restores (rule : Rule) (cursor : Cursor)
    (room : cursor.depth ≤ Grammar.maxNesting) :
    ((cursor.walk rule.form).result, (cursor.walk rule.form).cursor) = cursor.read rule.form
    ∧ (cursor.walk rule.form).cursor
      = { cursor with position := (cursor.walk rule.form).cursor.position }
    ∧ (∀ moment ∈ (cursor.walk rule.form).moments, moment.Keeps cursor)
    ∧ (cursor.inSwitch = false → ∀ moment ∈ (cursor.walk rule.form).moments, moment.Calm) := by
  have follows := Cursor.walk_follows rule.form_calm room
  refine ⟨?_, ?_, follows.keeps, fun plain => follows.calm fun _ => plain⟩
  · rw [Cursor.read_eq, follows.result, follows.place]
  · rw [follows.place]
    rfl

/-- Arguments that fail behind a parameter list of their own, deep down and in a switch. -/
theorem Rule.walk_restores_arguments :
    let cursor : Cursor := { Cursor.ofText "((a: int) -> b, (c" with
      depth := 125, inSwitch := true, parameterDepth := 2 }
    let walked := cursor.walk Rule.argumentList.form
    cursor.depth ≤ Grammar.maxNesting
    ∧ walked.cursor = { cursor with position := 11 }
    ∧ (∀ moment ∈ walked.moments, moment.Keeps cursor)
    ∧ walked.moments.any (fun moment => moment.event = .leaves) = true := by
  intro cursor walked
  have deep : cursor.depth ≤ Grammar.maxNesting := by decide
  obtain ⟨-, restored, keeps, -⟩ := Rule.walk_restores .argumentList cursor deep
  have position : walked.cursor.position = 11 := by decide +kernel
  exact ⟨deep, position ▸ restored, keeps, by decide +kernel⟩

end JaiTree
