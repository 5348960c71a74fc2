import JaiTree.Conflict.Decide

/-!
The conflict table: which rules compete, what tells them apart, how far the decision may look and
which alternatives it may name.
-/

namespace JaiTree

namespace Conflict

/-- The competing rules, as the grammar names them. -/
def rules : Conflict → List String
  | .structEnum => ["struct_declaration", "enum_declaration"]
  | .callMember => ["function_call", "member_access"]
  | .declarationAssignment => ["declaration", "assignment"]
  | .typeIdentifier => ["type_expression", "identifier"]
  | .expressionCompositeLiteral => ["_expression", "composite_literal"]
  | .parameterDeclaration => ["parameter_declaration", "declaration"]
  | .directiveType => ["directive_expression", "type_expression"]
  | .directiveProcedureType => ["directive_expression", "procedure_type"]
  | .declarationExpression => ["declaration", "_expression"]
  | .typeExpression => ["type_expression", "_expression"]
  | .directiveStatementExpression => ["directive_statement", "_expression"]
  | .functionDeclarationExpression => ["function_declaration", "_expression"]
  | .directiveRange => ["directive_expression", "range_expression"]
  | .parameterExpression => ["parameter_declaration", "_expression"]
  | .castRange => ["cast_expression", "range_expression"]
  | .pointerType => ["pointer_type"]
  | .statementIf => ["_statement", "if_statement"]
  | .statementWhile => ["_statement", "while_statement"]
  | .statementFor => ["_statement", "for_statement"]
  | .statementDefer => ["_statement", "defer_statement"]
  | .forArrayAccessUnary => ["for_statement", "array_access", "unary_expression"]
  | .forMemberAccessUnary => ["for_statement", "member_access", "unary_expression"]
  | .forBinary => ["for_statement", "binary_expression"]
  | .typeParameterExpression => ["type_expression", "parameter_declaration", "_expression"]
  | .typeFunctionDeclaration => ["type_expression", "function_declaration"]
  | .typeStructDeclaration => ["type_expression", "struct_declaration"]
  | .typeEnumDeclaration => ["type_expression", "enum_declaration"]
  | .functionDeclaration => ["function_declaration"]
  | .procedureType => ["procedure_type"]
  | .procedureTypeFunctionDeclaration => ["procedure_type", "function_declaration"]
  | .directiveFunctionDeclaration => ["directive_expression", "function_declaration"]
  | .directiveProcedureTypeFunctionDeclaration =>
    ["directive_expression", "procedure_type", "function_declaration"]
  | .typeReturnType => ["type_expression", "return_type"]
  | .returnTypeList => ["return_type_list"]

/-- The tokens that tell the rules apart. -/
def discriminator : Conflict → String
  | .structEnum => "keyword after `::`: struct/union or enum/enum_flags"
  | .callMember => "`(` on the same line after a member chain"
  | .declarationAssignment => "`:` or `::` after an identifier list"
  | .typeIdentifier => "primitive type name in type position"
  | .expressionCompositeLiteral => "`\x7b` or `[` directly after `.`"
  | .parameterDeclaration => "`using` followed by a parameter name"
  | .directiveType => "type on the directive's line"
  | .directiveProcedureType => "procedure suffix directive after a signature"
  | .declarationExpression => "no `:`/`::` after the identifier list"
  | .typeExpression => "`[`, `$` or a parameter list in expression position"
  | .directiveStatementExpression => "directive at statement start"
  | .functionDeclarationExpression =>
    "`(` after `::` followed by `)`, `$`, `using`, `ident :`, `ident ,` or `ident )` "
      ++ "+ `->`/`\x7b`/directive"
  | .directiveRange => "`..` after a directive operand"
  | .parameterExpression => "`=` after a parameter type"
  | .castRange => "`..` after a cast operand"
  | .pointerType => "consecutive `*`"
  | .statementIf => "`\x7b` after the condition or `else`"
  | .statementWhile => "`\x7b` after the condition"
  | .statementFor => "`\x7b` after the range"
  | .statementDefer => "`\x7b` after defer"
  | .forArrayAccessUnary => "`*` directly after for"
  | .forMemberAccessUnary => "`:` after `ident` or `ident , ident`"
  | .forBinary => "`<` directly after for"
  | .typeParameterExpression => "token after the first identifier of a parameter"
  | .typeFunctionDeclaration => "#type followed by a signature after `::`"
  | .typeStructDeclaration => "`\x7b`, `(` or a directive after struct/union"
  | .typeEnumDeclaration => "`\x7b`, a directive or a base type after enum/enum_flags"
  | .functionDeclaration => "`\x7b` after the signature"
  | .procedureType => "directive on the signature's line"
  | .procedureTypeFunctionDeclaration => "`;` after a signature with no body"
  | .directiveFunctionDeclaration =>
    "procedure suffix on any line, other directives on the signature's line"
  | .directiveProcedureTypeFunctionDeclaration => "inline/no_inline followed by a parameter list"
  | .typeReturnType => "`ident :` after `->`"
  | .returnTypeList => "`,` after a return type inside a parameter list"

/-- How far the decision may look. -/
def bound : Conflict → Bound
  | .declarationAssignment => .nameList 1
  | .expressionCompositeLiteral => .fixed 1
  | .parameterDeclaration => .fixed 1
  | .declarationExpression => .nameList 1
  | .typeExpression => .fixed 3
  | .functionDeclarationExpression => .fixed 3
  | .forMemberAccessUnary => .fixed 3
  | .typeParameterExpression => .fixed 1
  | .typeFunctionDeclaration => .fixed 5
  | .typeStructDeclaration => .fixed 1
  | .typeEnumDeclaration => .fixed 1
  | .directiveProcedureTypeFunctionDeclaration => .fixed 4
  | .typeReturnType => .fixed 1
  | _ => .fixed 0

/-- The alternatives that the decision may name. -/
def winners : Conflict → List Winner
  | .structEnum => [.structDeclaration, .enumDeclaration, .declaration]
  | .callMember => [.functionCall, .memberAccess]
  | .declarationAssignment => [.declaration, .assignment]
  | .typeIdentifier => [.primitiveType, .identifier]
  | .expressionCompositeLiteral => [.compositeLiteral, .arrayLiteral, .memberAccess]
  | .parameterDeclaration => [.parameterDeclaration, .identifier]
  | .directiveType => [.typeExpression, .directiveExpression]
  | .directiveProcedureType => [.procedureType, .directiveExpression]
  | .declarationExpression => [.declaration, .expression]
  | .typeExpression => [.typeExpression, .expression]
  | .directiveStatementExpression => [.directiveStatement, .expression]
  | .functionDeclarationExpression => [.functionDeclaration, .expression]
  | .directiveRange => [.rangeExpression, .directiveExpression]
  | .parameterExpression => [.defaultValue, .parameterDeclaration]
  | .castRange => [.rangeExpression, .castExpression]
  | .pointerType => [.pointerType, .typeExpression]
  | .statementIf => [.block, .statement]
  | .statementWhile => [.block, .statement]
  | .statementFor => [.block, .statement]
  | .statementDefer => [.block, .statement]
  | .forArrayAccessUnary => [.forMarker, .expression]
  | .forMemberAccessUnary => [.iterator, .expression]
  | .forBinary => [.forMarker, .expression]
  | .typeParameterExpression => [.polymorphicType, .parameterDeclaration, .typeExpression]
  | .typeFunctionDeclaration => [.functionDeclaration, .typeExpression]
  | .typeStructDeclaration => [.structDeclaration, .typeExpression]
  | .typeEnumDeclaration => [.enumDeclaration, .typeExpression]
  | .functionDeclaration => [.block, .functionDeclaration]
  | .procedureType => [.procedureType, .statement]
  | .procedureTypeFunctionDeclaration => [.functionDeclaration, .procedureType]
  | .directiveFunctionDeclaration => [.functionDeclaration, .statement]
  | .directiveProcedureTypeFunctionDeclaration => [.procedureType, .expression]
  | .typeReturnType => [.returnType, .typeExpression]
  | .returnTypeList => [.parameterList, .returnTypeList]

end Conflict

/-- The offset that a bound comes to for the tokens that lie ahead. -/
def Bound.offset (rest : List Padded) : Bound → Nat
  | .fixed offset => offset
  | .nameList offset => nameRun rest + offset

/-- A line of the conflict table. -/
structure Entry where
  conflict : Conflict
  rules : List String
  discriminator : String
  bound : Bound
  winners : List Winner
deriving Repr, DecidableEq

namespace Entry

/-- The line of a conflict. -/
def ofConflict (conflict : Conflict) : Entry :=
  { conflict, rules := conflict.rules, discriminator := conflict.discriminator,
    bound := conflict.bound, winners := conflict.winners }

/-- Every line, in order of the grammar. -/
def table : List Entry := Conflict.all.map ofConflict

/-- Settles the conflict for the tokens that lie ahead. -/
def resolve (inParameters : Bool) (eof : Padded) (rest : List Padded) (entry : Entry) :
    Except Diagnostic Winner :=
  let decision := entry.conflict.decide inParameters
  let winner := decision.run eof rest
  -- A decision that breaks the rules of its own line is refused and not followed.
  if decision.reach eof rest ≤ entry.bound.offset rest && entry.winners.contains winner then
    .ok winner
  else
    .error ⟨.unresolvedConflict (", ".intercalate entry.rules), (ahead eof rest 0).token.start⟩

end Entry

end JaiTree
