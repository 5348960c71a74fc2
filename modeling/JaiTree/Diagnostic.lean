import JaiTree.Text.Quoted

/-!
Diagnostics: what is wrong with a text, where, and how it is said.
-/

namespace JaiTree

/-- What is wrong. -/
inductive Cause where
  /-- A character that begins no token. -/
  | unrecognised (token : String)
  | unterminatedString
  | unterminatedComment
  /-- A here-string whose delimiter never comes again. -/
  | unterminatedHereString (delimiter : String)
  /-- A here-string that seems to be closed by another word. -/
  | mismatchedHereString (expected found : String)
  | unterminatedAsm
  /-- A hash sign before a word that is no directive. -/
  | unknownDirective (directive : String)
  | unexpectedToken (token : String)
  | expectedToken (expected found : String)
  | expectedExpression (found : String)
  | expectedType (found : String)
  | misplacedDirective (directive : String)
  | nestingTooDeep (limit : Nat)
  /-- A choice that its own rules do not allow. -/
  | unresolvedConflict (rules : String)
deriving Repr, DecidableEq

namespace Cause

/-- The cause in one word. -/
def name : Cause → String
  | .unrecognised _ => "UnrecognisedToken"
  | .unterminatedString => "UnterminatedString"
  | .unterminatedComment => "UnterminatedBlockComment"
  | .unterminatedHereString _ => "UnterminatedHereString"
  | .mismatchedHereString _ _ => "HereStringDelimiterMismatch"
  | .unterminatedAsm => "UnterminatedAsmBlock"
  | .unknownDirective _ => "UnknownDirective"
  | .unexpectedToken _ => "UnexpectedToken"
  | .expectedToken _ _ => "ExpectedToken"
  | .expectedExpression _ => "ExpectedExpression"
  | .expectedType _ => "ExpectedType"
  | .misplacedDirective _ => "MisplacedDirective"
  | .nestingTooDeep _ => "NestingTooDeep"
  | .unresolvedConflict _ => "UnresolvedConflict"

/-- The cause in a sentence. -/
def message : Cause → String
  | .unrecognised token => "unrecognised token: " ++ Text.quoted token
  | .unterminatedString => "unterminated string literal"
  | .unterminatedComment => "unterminated block comment"
  | .unterminatedHereString delimiter =>
    "unterminated here-string, expected closing " ++ Text.quoted delimiter
  | .mismatchedHereString expected found =>
    "here-string delimiter mismatch: expected " ++ Text.quoted expected ++ ", found "
      ++ Text.quoted found
  | .unterminatedAsm => "unterminated #asm block"
  | .unknownDirective directive => "unknown directive: " ++ Text.quoted directive
  | .unexpectedToken token => "unexpected token: " ++ Text.quoted token
  | .expectedToken expected found =>
    "expected " ++ Text.quoted expected ++ ", found " ++ Text.quoted found
  | .expectedExpression found => "expected expression, found " ++ Text.quoted found
  | .expectedType found => "expected type, found " ++ Text.quoted found
  | .misplacedDirective directive =>
    "directive " ++ Text.quoted directive ++ " is not valid in expression position"
  | .nestingTooDeep limit => "nesting deeper than " ++ toString limit ++ " levels"
  | .unresolvedConflict rules => "unresolved grammar conflict between " ++ rules

/-- What a reader may do about it. -/
def tip? : Cause → Option String
  | .unrecognised _ => none
  | .unterminatedString => some "String literal is missing its closing `\"`"
  | .unterminatedComment => some "Block comment is missing its closing `*/`"
  | .unterminatedHereString delimiter =>
    some ("Here-string is never closed, expected `" ++ delimiter ++ "` to end it")
  | .mismatchedHereString expected found =>
    some ("Here-string opened with `" ++ expected ++ "` but closed with `" ++ found ++ "`")
  | .unterminatedAsm => some "#asm block is missing its closing `\x7d`"
  | .unknownDirective directive => some ("`" ++ directive ++ "` is not a known directive")
  | .unexpectedToken token =>
    some ("Unexpected token: `" ++ token ++ "`, did you miss a semicolon?")
  | .expectedToken expected found =>
    some ("Expected `" ++ expected ++ "`, found `" ++ found ++ "`")
  | .expectedExpression found => some ("Expected an expression, found `" ++ found ++ "`")
  | .expectedType found => some ("Expected a type, found `" ++ found ++ "`")
  | .misplacedDirective directive =>
    some ("`" ++ directive ++ "` can only be used as a statement")
  | .nestingTooDeep limit =>
    some ("Nesting goes deeper than " ++ toString limit ++ " levels, split the expression up")
  | .unresolvedConflict rules =>
    some ("Parser could not choose between " ++ rules ++ ", this is a parser bug")

/-- Whether the text cannot even be cut into tokens there. -/
def isLexical : Cause → Bool
  | .unrecognised _ | .unterminatedString | .unterminatedComment | .unterminatedHereString _
  | .mismatchedHereString _ _ | .unterminatedAsm | .unknownDirective _ => true
  | _ => false

end Cause

/-- A cause at a byte of the text. -/
structure Diagnostic where
  cause : Cause
  /-- The byte offset that it is reported at. -/
  position : Nat
deriving Repr, DecidableEq

/-- The diagnostic in one line. -/
def Diagnostic.message (diagnostic : Diagnostic) : String :=
  diagnostic.cause.message ++ " at byte " ++ toString diagnostic.position

end JaiTree
