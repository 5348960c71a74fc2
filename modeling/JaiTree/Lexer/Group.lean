import JaiTree.Lexer.Assembly
import JaiTree.Lexer.Comment
import JaiTree.Lexer.HereString
import JaiTree.Lexer.Number
import JaiTree.Lexer.Quotation
import JaiTree.Text.Word

/-!
Groups: the pieces that belong together at the head of a text.
-/

namespace JaiTree.Lexer

open Text

/-- Operators and punctuation, each before those that its spelling begins with. -/
def operators : List TokenKind :=
  [.shiftLeftEquals, .shiftRightEquals, .uninitialized, .colonColon, .arrow, .dotDot, .equals,
   .notEquals, .lessEquals, .greaterEquals, .shiftLeft, .shiftRight, .and, .or, .plusEquals,
   .minusEquals, .starEquals, .slashEquals, .percentEquals, .ampersandEquals, .pipeEquals,
   .caretEquals, .assignment, .less, .greater, .not, .plus, .dash, .star, .slash, .percent,
   .ampersand, .pipe, .caret, .tilde, .dot, .colon, .semicolon, .comma, .atSign, .dollar,
   .openParen, .closeParen, .openBracket, .closeBracket, .openCurly, .closeCurly]

/-- The longest operator at the head of the text. -/
def operator (text : List Char) : List Piece :=
  match operators.find? fun kind => kind.text.toList.isPrefixOf text with
  | some kind => [{ kind, size := kind.text.length }]
  | none => []

/-- A comma and a name, as some directives end, or nothing. -/
def directiveEnding : List Char → List Char
  | ',' :: cs => if (name cs).isEmpty then [] else ',' :: name cs
  | _ => []

/-- A directive: with its ending when that makes a known one, without it otherwise. -/
def directive (text : List Char) : List Piece :=
  let base := text.take 1 ++ name (text.drop 1)
  let whole := base ++ directiveEnding (text.drop base.length)
  if base.length ≤ 1 then
    []
  else
    match Directive.ofText? (String.ofList whole), Directive.ofText? (String.ofList base) with
    | some d, _ => [{ kind := .directive d, size := whole.length }]
    | none, some d => [{ kind := .directive d, size := base.length }]
    | none, none => [.faulty (.unknownDirective (String.ofList base)) base.length]

/-- Whether the text begins with the directive, as a whole word of whatever script. -/
def beginsWith (d : Directive) (text : List Char) : Bool :=
  d.spelling.toList.isPrefixOf text && wordEnds (text.drop d.spelling.length)

/-- What begins with a hash sign: raw text is cut together with the directive before it. -/
def hash (text : List Char) : List Piece :=
  if beginsWith .string text then HereString.pieces Directive.string.spelling.length text
  else if beginsWith .asm text then Assembly.pieces Directive.asm.spelling.length text
  else directive text

/-- The pieces that the first character of the text asks for; none when it begins no token. -/
def recognise : List Char → List Piece
  | [] => []
  | c :: cs =>
    let text := c :: cs
    if isBlank c then [{ kind := .whitespace, size := (text.takeWhile isBlank).length }]
    else if ['/', '/'].isPrefixOf text then Comment.line text
    else if ['/', '*'].isPrefixOf text then Comment.block text
    else if c = '#' then hash text
    else if isNameStart c then [{ kind := .identifier, size := (name text).length }]
    else if c.isDigit then [{ kind := .number, size := Number.size text }]
    else if c = '"' then Quotation.string text
    else operator text

/-- The pieces at the head of the text. A character that begins no token is one of its own. -/
def group (text : List Char) : List Piece :=
  match recognise text with
  | [] => [.faulty (.unrecognised (String.ofList (text.take 1))) 1]
  | pieces => pieces

end JaiTree.Lexer
