import JaiTree.Directive

/-!
Kinds of tokens, with the spelling of those that are always spelled alike.
-/

namespace JaiTree

inductive TokenKind where
  | eof | error | whitespace | commentLine | commentBlock | commentMarkdownBlock | identifier
  | number | doubleQuote | stringContent | escapeSequence | stringPlaceholder | hereStringContent
  | asmContent | openBracket | closeBracket | openCurly | closeCurly | openParen | closeParen
  | assignment | equals | not | notEquals | less | lessEquals | greater | greaterEquals | or | and
  | pipe | ampersand | caret | tilde | shiftLeft | shiftRight | dot | dotDot | uninitialized
  | semicolon | colon | colonColon | comma | arrow | atSign | dollar | plusEquals | minusEquals
  | starEquals | slashEquals | percentEquals | ampersandEquals | pipeEquals | caretEquals
  | shiftLeftEquals | shiftRightEquals | plus | dash | slash | star | percent
  | directive (directive : Directive)
deriving Repr, DecidableEq

namespace TokenKind

/-- The kind in a diagnostic: its spelling when it has only one, its title otherwise. -/
def text : TokenKind → String
  | .eof => "EOF"
  | .error => "Error"
  | .whitespace => "Whitespace"
  | .commentLine => "CommentLine"
  | .commentBlock => "CommentBlock"
  | .commentMarkdownBlock => "CommentMarkdownBlock"
  | .identifier => "Identifier"
  | .number => "Number"
  | .doubleQuote => "\""
  | .stringContent => "StringContent"
  | .escapeSequence => "EscapeSequence"
  | .stringPlaceholder => "StringPlaceholder"
  | .hereStringContent => "HereStringContent"
  | .asmContent => "AsmContent"
  | .openBracket => "["
  | .closeBracket => "]"
  | .openCurly => "\x7b"
  | .closeCurly => "\x7d"
  | .openParen => "("
  | .closeParen => ")"
  | .assignment => "="
  | .equals => "=="
  | .not => "!"
  | .notEquals => "!="
  | .less => "<"
  | .lessEquals => "<="
  | .greater => ">"
  | .greaterEquals => ">="
  | .or => "||"
  | .and => "&&"
  | .pipe => "|"
  | .ampersand => "&"
  | .caret => "^"
  | .tilde => "~"
  | .shiftLeft => "<<"
  | .shiftRight => ">>"
  | .dot => "."
  | .dotDot => ".."
  | .uninitialized => "---"
  | .semicolon => ";"
  | .colon => ":"
  | .colonColon => "::"
  | .comma => ","
  | .arrow => "->"
  | .atSign => "@"
  | .dollar => "$"
  | .plusEquals => "+="
  | .minusEquals => "-="
  | .starEquals => "*="
  | .slashEquals => "/="
  | .percentEquals => "%="
  | .ampersandEquals => "&="
  | .pipeEquals => "|="
  | .caretEquals => "^="
  | .shiftLeftEquals => "<<="
  | .shiftRightEquals => ">>="
  | .plus => "+"
  | .dash => "-"
  | .slash => "/"
  | .star => "*"
  | .percent => "%"
  | .directive d => d.spelling

/-- Whether tokens of the kind have texts of their own. -/
def isOpen : TokenKind → Bool
  | .eof | .error | .whitespace | .commentLine | .commentBlock | .commentMarkdownBlock
  | .identifier | .number | .stringContent | .escapeSequence | .stringPlaceholder
  | .hereStringContent | .asmContent => true
  | _ => false

/-- The only text of the kind's tokens, when there is only one. -/
def spelling? (kind : TokenKind) : Option String := if kind.isOpen then none else some kind.text

/-- Whether the grammar looks past tokens of the kind. -/
def isTrivia : TokenKind → Bool
  | .whitespace | .commentLine | .commentBlock | .commentMarkdownBlock => true
  | _ => false

def isAssignment : TokenKind → Bool
  | .assignment | .plusEquals | .minusEquals | .starEquals | .slashEquals | .percentEquals
  | .ampersandEquals | .pipeEquals | .caretEquals | .shiftLeftEquals | .shiftRightEquals => true
  | _ => false

/-- Whether an overload may be declared for the kind, or for a pair it opens. -/
def isOverloadable : TokenKind → Bool
  | .plus | .dash | .star | .slash | .percent | .equals | .notEquals | .less | .greater
  | .lessEquals | .greaterEquals | .ampersand | .pipe | .caret | .shiftLeft | .shiftRight
  | .and | .or | .not | .openBracket | .tilde => true
  | _ => false

def directive? : TokenKind → Option Directive
  | .directive d => some d
  | _ => none

end TokenKind

end JaiTree
