import JaiTree.Grammar.Declaration

/-!
Statements and lists of statements.
-/

namespace JaiTree

/-- What ends a list of statements. -/
inductive ListEnd where
  /-- Nothing but the end of the text. -/
  | endOfInput
  | closeCurly
  /-- A closing brace or the next case. -/
  | nextCase
deriving Repr, DecidableEq

namespace Grammar

open Form

/-- What comes next in a list of statements. -/
inductive ListStep where
  | stop | semicolon | item
deriving Repr, DecidableEq

/-- What comes next in a list with this end. -/
def listStep (listEnd : ListEnd) : Glance ListStep := do
  match ← Glance.kindAt 0 with
  | .eof => return .stop
  | .semicolon => return .semicolon
  | .closeCurly => return if listEnd = .endOfInput then .item else .stop
  | _ =>
    if listEnd = .nextCase then
      if (← Glance.keywordAt 0) = some .caseWord then
        return if ← Glance.actsAsName 0 then .item else .stop
      else
        return .item
    else
      return .item

/-- A statement in a list; under a case it is a part of its body. -/
def listItem : ListEnd → Form
  | .nextCase => .label .body statement
  | _ => statement

/-- Statements and semicolons; a statement that fails becomes an error. -/
def statements (listEnd : ListEnd) : Form :=
  .fix <| .choose (fun _ => listStep listEnd) fun
    | .stop => .empty
    | .semicolon => any ++ .again
    | .item => .guard (listItem listEnd) ++ .again

/-- A block or a statement, as a conflict is settled. -/
def body (conflict : Conflict) : Form :=
  settled conflict fun
    | .block => block
    | _ => statement

/-- Whether an equals sign before a brace opens the cases of a switch here. -/
def atCases : Glance Bool := do
  if (← Glance.kindAt 0) = .equals then return (← Glance.kindAt 1) = .openCurly else return false

/-- Whether the word for a condition stands here and is no name. -/
def atElseIf : Glance Bool := do
  if (← Glance.keywordAt 0) = some .ifWord then return !(← Glance.actsAsName 0) else return false

/-- What stands after `else`: another condition continues the chain. -/
def elseBranch : Form :=
  settled .statementIf fun
    | .block => .label .alternative block
    | _ =>
      ifelse atElseIf
        (.label .alternative (.node .ifStatement (any ++ .again)))
        (.label .alternative statement)

/-- A condition with its cases, or with what happens when it holds and when it does not. -/
def conditional : Form :=
  .fix <|
    .label .condition (.within .condition expression)
      ++ ifelse atCases
        (.take (some .operator) ++ .label .consequence block)
        (optWord .thenWord ++ .label .consequence (body .statementIf)
          ++ opt (Sight.isWord .elseWord) (any ++ elseBranch))

def ifStatement : Form := .node .ifStatement (any ++ conditional)

/-- A conditional statement that is decided before the program runs. -/
def staticIf : Form := .node .directiveStatement (any ++ conditional)

def whileStatement : Form :=
  .node .whileStatement <|
    any ++ .label .condition expression ++ .label .body (body .statementWhile)

/-- Whether a mark for pointers or for the reverse order stands before what is looped over. -/
def atForMarker : Glance Bool := do
  match ← Glance.kindAt 0 with
  | .star => return (← Conflict.forArrayAccessUnary.decide false) = .forMarker
  | .less => return (← Conflict.forBinary.decide false) = .forMarker
  | _ => return false

/-- Whether the loop names what it runs through. -/
def namesIterator : Glance Bool := do
  return (← Conflict.forMemberAccessUnary.decide false) = .iterator

/-- A loop over a range or over the elements of a value. -/
def forStatement : Form :=
  .node .forStatement <|
    any ++ many atForMarker any
      ++ ifelse namesIterator (separated (.label .iterator identifier) ++ token .colon) .empty
      ++ .label .range range ++ .label .body (body .statementFor)

/-- A return, with values on its line. -/
def returnStatement : Form :=
  .node .returnStatement <|
    any ++ opt (fun s => !s.startsLine && s.startsExpression)
        (separated (.label .values expression))
      ++ optSemicolon

/-- A way out of a loop or on to its next turn, with the name of the loop on its line. -/
def jumpStatement : Form :=
  onSight fun s =>
    .node (if s.isWord .continueWord then .continueStatement else .breakStatement) <|
      any ++ opt (fun s => s.kind = .identifier && !s.startsLine) identifier ++ optSemicolon

def deferStatement : Form :=
  .node .deferStatement (any ++ .label .statement (body .statementDefer))

def removeStatement : Form :=
  .node .removeStatement (any ++ .label .expression expression ++ optSemicolon)

/-- Whether a comma and a modifier of `using` lie ahead. -/
def atUsingModifier : Glance Bool := do
  if (← Glance.kindAt 0) = .comma then
    match ← Glance.keywordAt 1 with
    | some .mapWord | some .exceptWord | some .onlyWord => return true
    | _ => return false
  else
    return false

/-- What a using statement brings in: a declaration, or nothing for an expression. -/
def usingShape : Glance (Option DeclarationShape) := do
  match ← Conflict.declarationExpression.decide false with
  | .declaration => some <$> DeclarationShape.glance
  | _ => return none

/-- The names of a value or of a declaration, brought into scope. -/
def usingStatement : Form :=
  .node .usingStatement <|
    any
      ++ ifelse atUsingModifier
        (any ++ any ++ opt (fun s => s.kind = .openParen) argumentList) .empty
      ++ .choose (fun _ => usingShape) fun
        | some shape => .label .statement (declaration shape)
        | none => .label .expression expression ++ optSemicolon

/-- A case: its value, and the statements up to the next case. -/
def caseStatement : Form :=
  .node .caseStatement <|
    any ++ opt (fun s => s.kind ≠ .semicolon) (.label .value range) ++ token .semicolon
      ++ statements .nextCase

/-- A statement that begins with a keyword. -/
def keywordStatement : Keyword → Form
  | .ifWord | .ifxWord => ifStatement
  | .whileWord => whileStatement
  | .forWord => forStatement
  | .returnWord => returnStatement
  | .breakWord | .continueWord => jumpStatement
  | .deferWord => deferStatement
  | .removeWord => removeStatement
  | .usingWord => usingStatement
  | .caseWord => caseStatement
  | _ => missing .unexpectedToken

def assignmentOperator : Form :=
  onSight fun s =>
    if s.kind.isAssignment then .take (some .operator) else missing (.expectedToken "=")

/-- Whether the expression before the next token is assigned to. -/
def assigns : Glance Bool := do
  let kind ← Glance.kindAt 0
  return kind = .comma || kind.isAssignment

/-- Expressions that are assigned to, or one expression alone. -/
def expressionList : Form :=
  .grow false expression (fun _ => some <$> assigns)
    (fun assigned => if assigned then .assignment else .expressionStatement)
    (fun assigned => if assigned then some .left else none)
    (fun assigned =>
      if assigned then
        many (Glance.isNext .comma) (any ++ .label .left expression) ++ assignmentOperator
          ++ separated (.label .right expression) ++ optSemicolon
      else
        optSemicolon)

/-- What the notes before the next token belong to, if it is a declaration. -/
def annotatedShape : Glance (Option DeclarationShape) := do
  if ← Glance.overload then
    return some .function
  else
    match ← Conflict.declarationAssignment.decide false with
    | .declaration => some <$> DeclarationShape.glance
    | _ => return none

/-- Notes before a declaration belong to it; anywhere else they are expressions. -/
def annotated : Form :=
  .lead (many (Glance.isNext .atSign) note) (fun _ => annotatedShape) DeclarationShape.kind
    declarationBody expressionList

def loadStatement : Form :=
  .node .loadStatement (any ++ .label .path string ++ optSemicolon)

/-- The features that an assembly block asks for. -/
def asmFeatures : Form :=
  .fix <| opt (fun s => s.kind = .identifier) <|
    .label .features identifier ++ opt (fun s => s.kind = .comma) (any ++ .again)

def asmBlock : Form :=
  .node .asmBlock <|
    any ++ asmFeatures ++ token .openCurly ++ optToken .asmContent ++ token .closeCurly

/-- A statement, one level deep already. -/
def statementRule : Form :=
  .choose (fun _ => StatementShape.glance) fun
    | .lexicalError => .faulty
    | .empty => missing .unexpectedToken
    | .block => block
    | .annotated => annotated
    | .importing => .node .importStatement importedModule
    | .load => loadStatement
    | .asm => asmBlock
    | .scope => .node .directiveStatement (.node .scopeDirective any)
    | .staticIf => staticIf
    | .directive => .node .directiveStatement (directive ++ optSemicolon)
    | .keyword keyword => keywordStatement keyword
    | .operator => declaration .function
    | .declaration shape => declaration shape
    | .expressionList => expressionList

end Grammar

end JaiTree
