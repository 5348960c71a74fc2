import JaiTree.Grammar.Type

/-!
Expressions: an operand, and the operators after it that bind tighter than a floor.
-/

namespace JaiTree.Grammar

open Form

/-- A keyword that stands for a value. -/
def keywordLiteral : Form :=
  onSight fun s =>
    match s.keyword? with
    | some .trueWord | some .falseWord => .node .booleanLiteral any
    | _ => .node .nullLiteral any

/-- A name, a number, or the mark for no value at all. -/
def primary : Form :=
  onSight fun s =>
    match s.kind with
    | .identifier => .node .identifier any
    | .number => .node .numberLiteral any
    | .uninitialized => .node .uninitializedLiteral any
    | _ => missing .expectedExpression

/-- An operator before its operand. -/
def prefixed : Form :=
  .node .unaryExpression (.take (some .operator) ++ .label .operand unary)

/-- Whether a comma and a modifier of a cast lie ahead. -/
def atCastModifier : Glance Bool := do
  if (← Glance.kindAt 0) = .comma then
    match ← Glance.keywordAt 1 with
    | some .truncWord | some .noCheckWord => return true
    | _ => return false
  else
    return false

/-- A value in another type: a cast to a type that is given, or to the type that is wanted. -/
def cast : Form :=
  .node .castExpression <| onSight fun s =>
    (if s.isWord .castWord then
      any ++ many atCastModifier (any ++ any)
        ++ token .openParen ++ .label .type type ++ token .closeParen
    else
      any)
    ++ .label .value unary

/-- A word on inlining, before a procedure type or before a call. -/
def inlined : Form :=
  settled .directiveProcedureTypeFunctionDeclaration fun
    | .procedureType => procedureType
    | _ => .node .directiveExpression (any ++ unary)

/-- The word, when it stands here. -/
def optWord (keyword : Keyword) : Form := opt (Sight.isWord keyword) any

/-- A condition and two values to choose from. -/
def conditionalValue : Form :=
  .node .ifStatement <|
    any ++ .label .condition expression ++ optWord .thenWord
      ++ .label .consequence expression
      ++ opt (Sight.isWord .elseWord) (any ++ .label .alternative expression)

/-- An expression in parentheses, or a procedure type. -/
def parenthesized : Form :=
  settled .typeExpression fun
    | .typeExpression => procedureType
    | _ =>
      .node .parenthesizedExpression <|
        token .openParen ++ .within .parentheses expression ++ token .closeParen

/-- A type where an expression may stand. -/
def typeOperand : Form :=
  settled .typeExpression fun
    | .typeExpression => type
    | _ => missing .expectedExpression

/-- A literal or a member with nothing before its point. -/
def leadingPoint : Form :=
  .choose (fun _ => Growth.ofPoint) fun growth => .node growth.kind (growthBody growth)

/-- An operand that begins with a token of this sight, whatever word it spells. -/
def operandOf (s : Sight) : Form :=
  match s.kind with
  | .identifier | .number | .uninitialized => primary
  | .doubleQuote => quotedString
  | .error => .faulty
  | .openParen => parenthesized
  | .dot => leadingPoint
  | .atSign => note
  | .dash | .not | .tilde | .star | .ampersand | .shiftLeft => prefixed
  | .openBracket | .dollar => typeOperand
  | .directive .string => hereString
  | .directive d => if d.isExpression then directive else misplaced
  | _ => missing .expectedExpression

/-- An operand. A word that wants an operand of its own is a plain name where none follows. -/
def operand : Form :=
  onSight fun s =>
    match s.keyword? with
    | some .trueWord | some .falseWord | some .nullWord => keywordLiteral
    | some .castWord | some .xxWord => ifelse Glance.lacksOperand (operandOf s) cast
    | some .inlineWord | some .noInlineWord => ifelse Glance.lacksOperand (operandOf s) inlined
    | some .ifxWord => conditionalValue
    | _ => operandOf s

/-- An expression of operators that bind tighter than the floor. -/
def expressionRule (floor : Power) : Form := growing true operand (Growth.next floor)

end JaiTree.Grammar
