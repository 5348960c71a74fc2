/-!
Conflicts: the places where the same token begins more than one rule of the grammar.
-/

namespace JaiTree

/-- A set of rules that compete for the same tokens. -/
inductive Conflict where
  | structEnum | callMember | declarationAssignment | typeIdentifier | expressionCompositeLiteral
  | parameterDeclaration | directiveType | directiveProcedureType | declarationExpression
  | typeExpression | directiveStatementExpression | functionDeclarationExpression | directiveRange
  | parameterExpression | castRange | pointerType | statementIf | statementWhile | statementFor
  | statementDefer | forArrayAccessUnary | forMemberAccessUnary | forBinary
  | typeParameterExpression | typeFunctionDeclaration | typeStructDeclaration
  | typeEnumDeclaration | functionDeclaration | procedureType | procedureTypeFunctionDeclaration
  | directiveFunctionDeclaration | directiveProcedureTypeFunctionDeclaration | typeReturnType
  | returnTypeList
deriving Repr, DecidableEq

/-- Every conflict, in order of the grammar. -/
def Conflict.all : List Conflict :=
  [.structEnum, .callMember, .declarationAssignment, .typeIdentifier, .expressionCompositeLiteral,
   .parameterDeclaration, .directiveType, .directiveProcedureType, .declarationExpression,
   .typeExpression, .directiveStatementExpression, .functionDeclarationExpression,
   .directiveRange, .parameterExpression, .castRange, .pointerType, .statementIf, .statementWhile,
   .statementFor, .statementDefer, .forArrayAccessUnary, .forMemberAccessUnary, .forBinary,
   .typeParameterExpression, .typeFunctionDeclaration, .typeStructDeclaration,
   .typeEnumDeclaration, .functionDeclaration, .procedureType, .procedureTypeFunctionDeclaration,
   .directiveFunctionDeclaration, .directiveProcedureTypeFunctionDeclaration, .typeReturnType,
   .returnTypeList]

/-- The alternative that a conflict is settled for. -/
inductive Winner where
  | declaration | assignment | expression | statement | block | structDeclaration
  | enumDeclaration | functionDeclaration | functionCall | memberAccess | compositeLiteral
  | arrayLiteral | identifier | primitiveType | polymorphicType | pointerType | procedureType
  | typeExpression | parameterDeclaration | defaultValue | directiveExpression
  | directiveStatement | rangeExpression | castExpression | forMarker | iterator | returnType
  | returnTypeList | parameterList
deriving Repr, DecidableEq

/-- Every alternative, once. -/
def Winner.all : List Winner :=
  [.declaration, .assignment, .expression, .statement, .block, .structDeclaration,
   .enumDeclaration, .functionDeclaration, .functionCall, .memberAccess, .compositeLiteral,
   .arrayLiteral, .identifier, .primitiveType, .polymorphicType, .pointerType, .procedureType,
   .typeExpression, .parameterDeclaration, .defaultValue, .directiveExpression,
   .directiveStatement, .rangeExpression, .castExpression, .forMarker, .iterator, .returnType,
   .returnTypeList, .parameterList]

/-- How far a decision may look. -/
inductive Bound where
  | fixed (offset : Nat)
  /-- Up to an offset from the end of the names between commas that stand here. -/
  | nameList (offset : Nat)
deriving Repr, DecidableEq

theorem Conflict.mem_all (conflict : Conflict) : conflict ∈ all := by
  cases conflict <;> decide

theorem Winner.mem_all (winner : Winner) : winner ∈ all := by
  cases winner <;> decide

end JaiTree
