import JaiTree.Conflict.Basic
import JaiTree.Lookahead.Pattern

/-!
Decisions: how each conflict is settled by the tokens that lie ahead.
-/

namespace JaiTree

/-- One alternative when the condition holds, another otherwise. -/
def Winner.either (yes no : Winner) (condition : Bool) : Winner := if condition then yes else no

/-- One alternative when the next token is of a kind, another otherwise. -/
def Winner.onKind (kind : TokenKind) (yes no : Winner) : Glance Winner :=
  (fun k => either yes no (k = kind)) <$> Glance.kindAt 0

open Winner (either onKind)

/-- The decision that settles a conflict, inside or outside a parameter list. -/
def Conflict.decide (inParameters : Bool) : Conflict → Glance Winner
  | .structEnum => do
    match ← Glance.keywordAt 0 with
    | some .structWord | some .unionWord => return .structDeclaration
    | some .enumWord | some .enumFlagsWord => return .enumDeclaration
    | _ => return .declaration
  | .callMember => do
    let s ← Glance.tokenAt 0
    return either .functionCall .memberAccess (s.kind = .openParen && !s.startsLine)
  | .declarationAssignment => do
    return either .declaration .assignment (← Glance.nameList 0).isSome
  | .typeIdentifier => do
    let s ← Glance.tokenAt 0
    match s.keyword? with
    | some .structWord | some .unionWord | some .enumWord | some .enumFlagsWord =>
      return .primitiveType
    | _ => return either .primitiveType .identifier s.isPrimitive
  | .expressionCompositeLiteral => do
    match ← Glance.kindAt 1 with
    | .openCurly => return .compositeLiteral
    | .openBracket => return .arrayLiteral
    | _ => return .memberAccess
  | .parameterDeclaration => do
    if (← Glance.keywordAt 0) = some .usingWord then
      match ← Glance.kindAt 1 with
      | .identifier | .dollar => return .parameterDeclaration
      | _ => return .identifier
    else
      return .identifier
  | .directiveType => do
    let s ← Glance.tokenAt 0
    return either .typeExpression .directiveExpression (!s.startsLine && s.startsType)
  | .directiveProcedureType => do
    let s ← Glance.tokenAt 0
    return either .procedureType .directiveExpression (s.directive?.any Directive.isProcedureSuffix)
  | .declarationExpression => do
    return either .declaration .expression (← Glance.nameList 0).isSome
  | .typeExpression => do
    match ← Glance.kindAt 0 with
    | .openBracket | .dollar => return .typeExpression
    | .openParen => return either .typeExpression .expression (← Glance.procedure 0)
    | _ => return .expression
  | .directiveStatementExpression =>
    onKind (.directive .string) .expression .directiveStatement
  | .functionDeclarationExpression => do
    return either .functionDeclaration .expression (← Glance.procedure 0)
  | .directiveRange => onKind .dotDot .rangeExpression .directiveExpression
  | .parameterExpression => onKind .assignment .defaultValue .parameterDeclaration
  | .castRange => onKind .dotDot .rangeExpression .castExpression
  | .pointerType => onKind .star .pointerType .typeExpression
  | .statementIf | .statementWhile | .statementFor | .statementDefer =>
    onKind .openCurly .block .statement
  | .forArrayAccessUnary => onKind .star .forMarker .expression
  | .forMemberAccessUnary => do
    if (← Glance.kindAt 0) ≠ .identifier then
      return .expression
    else
      match ← Glance.kindAt 1 with
      | .colon => return .iterator
      | .comma =>
        if (← Glance.kindAt 2) = .identifier then
          return either .iterator .expression ((← Glance.kindAt 3) = .colon)
        else
          return .expression
      | _ => return .expression
  | .forBinary => onKind .less .forMarker .expression
  | .typeParameterExpression => do
    let s ← Glance.tokenAt 0
    match s.kind with
    | .dollar => return .polymorphicType
    | .identifier =>
      if s.isPrimitive then
        return .typeExpression
      else
        match ← Glance.kindAt 1 with
        | .colon | .comma | .closeParen | .assignment => return .parameterDeclaration
        | _ => return .typeExpression
    | _ => return .typeExpression
  | .typeFunctionDeclaration => do
    return either .functionDeclaration .typeExpression (← Glance.signature 1)
  | .typeStructDeclaration => do
    match ← Glance.kindAt 1 with
    | .openCurly | .openParen | .directive _ => return .structDeclaration
    | _ => return .typeExpression
  | .typeEnumDeclaration => do
    match ← Glance.kindAt 1 with
    | .openCurly | .directive _ | .identifier => return .enumDeclaration
    | _ => return .typeExpression
  | .functionDeclaration => onKind .openCurly .block .functionDeclaration
  | .procedureType => do
    let s ← Glance.tokenAt 0
    return either .procedureType .statement (s.directive?.isSome && !s.startsLine)
  | .procedureTypeFunctionDeclaration => onKind .semicolon .functionDeclaration .procedureType
  | .directiveFunctionDeclaration => do
    let s ← Glance.tokenAt 0
    return either .functionDeclaration .statement (s.directive?.any fun d =>
      d.isProcedureSuffix || (d.isExpression && d != .string && !s.startsLine))
  | .directiveProcedureTypeFunctionDeclaration => do
    return either .procedureType .expression (← Glance.procedure 1)
  | .typeReturnType => do
    if (← Glance.kindAt 0) = .identifier then
      return either .returnType .typeExpression ((← Glance.kindAt 1) = .colon)
    else
      return .typeExpression
  | .returnTypeList => return either .parameterList .returnTypeList inParameters

end JaiTree
