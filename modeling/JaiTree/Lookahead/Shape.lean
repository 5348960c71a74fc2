import JaiTree.Conflict.Decide

/-!
Shapes: what a statement is, as far as the tokens at its head tell.
-/

namespace JaiTree

/-- What a declaration declares. -/
inductive DeclarationShape where
  | struct | enum | function | bake | foreignLibrary | importing | general
deriving Repr, DecidableEq

/-- What a statement is. -/
inductive StatementShape where
  /-- A token that is wrong in itself. -/
  | lexicalError
  /-- A semicolon alone. -/
  | empty
  | block | annotated | importing | load | asm | scope
  /-- A condition that is decided before the program runs. -/
  | staticIf
  | directive
  | keyword (keyword : Keyword)
  /-- The overload of an operator. -/
  | operator
  | declaration (shape : DeclarationShape)
  | expressionList
deriving Repr, DecidableEq

namespace Glance

/-- Whether the overload of an operator is declared here. -/
def overload : Glance Bool := do
  if (← keywordAt 0) = some .operatorWord then return (← kindAt 1).isOverloadable else return false

end Glance

namespace DeclarationShape

/-- A procedure when a conflict is settled for it, and nothing special otherwise. -/
def functionIf (conflict : Conflict) (winner : Winner) : Glance DeclarationShape := do
  return if (← conflict.decide false) = winner then .function else .general

/-- What the value after a double colon declares, when it is no struct and no enum. -/
def ofValue : Glance DeclarationShape := do
  let s ← Glance.tokenAt 0
  if s.isInlining then
    functionIf .directiveProcedureTypeFunctionDeclaration .procedureType
  else
    match s.kind with
    | .directive d =>
      if d.isBake then
        return .bake
      else if d = .foreignLibrary || d = .foreignSystemLibrary then
        return .foreignLibrary
      else if d.isImport then
        return .importing
      else if d = .typeMark then
        functionIf .typeFunctionDeclaration .functionDeclaration
      else
        return .general
    | .openParen => functionIf .functionDeclarationExpression .functionDeclaration
    | _ => return .general

/-- What the tokens after a double colon declare. -/
def ofConstant : Glance DeclarationShape := do
  match ← Conflict.structEnum.decide false with
  | .structDeclaration =>
    match ← Conflict.typeStructDeclaration.decide false with
    | .structDeclaration => return .struct
    | _ => return .general
  | .enumDeclaration =>
    match ← Conflict.typeEnumDeclaration.decide false with
    | .enumDeclaration => return .enum
    | _ => return .general
  | _ => ofValue

/-- What the declaration here declares. -/
def glance : Glance DeclarationShape := do
  match ← Glance.nameList 0 with
  | none => return .general
  | some list =>
    if list.colon = .colonColon then
      let shape ← ofConstant.after (list.colonOffset + 1)
      -- Several names declare nothing special, whatever their value looks like.
      return if list.names > 1 then .general else shape
    else
      return .general

end DeclarationShape

namespace StatementShape

/-- What a statement is that begins with a directive. -/
def ofDirective (d : Directive) : StatementShape :=
  if d = .string then .expressionList
  else if d.isImport then .importing
  else if d = .load then .load
  else if d = .asm then .asm
  else if d.isScope then .scope
  else if d = .staticIf || d = .staticIfx then .staticIf
  else .directive

/-- What a statement is that begins with names. -/
def ofNames : Glance StatementShape := do
  match ← Conflict.declarationAssignment.decide false with
  | .declaration => .declaration <$> DeclarationShape.glance
  | _ => return .expressionList

/-- What the statement here is. -/
def glance : Glance StatementShape := do
  let s ← Glance.tokenAt 0
  match s.kind with
  | .error => return .lexicalError
  | .semicolon => return .empty
  | .openCurly => return .block
  | .atSign => return .annotated
  | .directive d => return ofDirective d
  | .identifier =>
    match s.keyword? with
    | some word =>
      if word.startsStatement then
        if ← Glance.actsAsName 0 then ofNames else return .keyword word
      else if ← Glance.overload then
        return .operator
      else
        ofNames
    | none => ofNames
  | _ => return .expressionList

end StatementShape

end JaiTree
