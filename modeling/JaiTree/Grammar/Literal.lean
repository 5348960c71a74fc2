import JaiTree.Grammar.Form

/-!
Names, strings and the rules one level deeper that most other rules are made of.
-/

namespace JaiTree

/-- No token fits here, for a cause that only needs a description of the next one. -/
def Form.missing (cause : String → Cause) : Form := .refuse fun s => cause s.described

namespace Grammar

open Form

/-- An expression of any operators, one level deeper. -/
def expression : Form := .enter (.expression .default)

/-- An operand of a prefix operator, one level deeper. -/
def unary : Form := .enter (.expression .unary)

def type : Form := .enter .type

def statement : Form := .enter .statement

def identifier : Form := .node .identifier (token .identifier)

/-- A piece between the quotes of a string. -/
def stringPiece : Form :=
  onSight fun s =>
    match s.kind with
    | .escapeSequence => .node .escapeSequence any
    | .stringPlaceholder => .node .stringPlaceholder any
    | _ => any

/-- Whether the next token is a piece of a string. -/
def atStringPiece : Glance Bool := do
  match ← Glance.kindAt 0 with
  | .stringContent | .escapeSequence | .stringPlaceholder => return true
  | _ => return false

def quotedString : Form :=
  .node .stringLiteral (token .doubleQuote ++ many atStringPiece stringPiece ++ token .doubleQuote)

/-- A string between two occurrences of a name. -/
def hereString : Form :=
  .node .stringLiteral <|
    token (.directive .string) ++ .label .delimiter identifier
      ++ opt (fun s => s.kind = .hereStringContent) (.take (some .content))
      ++ .label .endDelimiter identifier

/-- A string of either sort; a token that is wrong in itself stands for one. -/
def string : Form :=
  onSight fun s =>
    match s.kind with
    | .doubleQuote => quotedString
    | .directive .string => hereString
    | .error => .faulty
    | _ => missing (.expectedToken "string literal")

/-- A string, when one begins on the same line. -/
def stringOnLine : Form := opt (fun s => !s.startsLine && s.startsString) string

/-- An expression, when one begins on the same line. -/
def expressionOnLine : Form := opt (fun s => !s.startsLine && s.startsExpression) expression

/-- Statements between braces, in which braces are braces again. -/
def block : Form :=
  .node .block (token .openCurly ++ .enter .blockItems ++ token .closeCurly)

def blockOr (other : Form) : Form :=
  onSight fun s => if s.kind = .openCurly then block else other

end Grammar

end JaiTree
