import JaiTree.Grammar.Argument
import JaiTree.Grammar.Signature

/-!
Directives in expressions, each with what stands after it.
-/

namespace JaiTree.Grammar

open Form

/-- What stands after a directive. -/
def operandForm : Operand → Form
  | .expression => blockOr expression
  | .optionalExpression => expressionOnLine
  | .optionalString => stringOnLine
  | .foreignName => opt (fun s => !s.startsLine && s.kind = .identifier) identifier ++ stringOnLine
  | .bake => identifier ++ .label .arguments argumentList
  | .optionalType =>
    settled .directiveType fun
      | .typeExpression => type
      | _ => .empty
  | .codeBody => blockOr expressionOnLine
  | .parameterList => parameters
  | .bare | .hereString | .statementOnly => .empty

/-- No expression begins with the directive here. -/
def misplaced : Form := .refuse fun s => .misplacedDirective s.text

/-- A directive with what stands after it. -/
def directive : Form :=
  onSight fun s =>
    match s.directive? with
    | none => missing .unexpectedToken
    | some d =>
      match d.operand with
      | .statementOnly => misplaced
      | .hereString => hereString
      | operand => .node .directiveExpression (any ++ operandForm operand)

/-- Directives on the line of what they modify. -/
def trailingDirectives : Form :=
  many
    (do
      let s ← Glance.tokenAt 0
      return s.directive?.any fun d => d.isExpression && d != .string && !s.startsLine)
    directive

end JaiTree.Grammar
