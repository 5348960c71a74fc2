import JaiTree.Diagnostic
import JaiTree.Keyword
import JaiTree.Token.Kind

/-!
Tokens: the pieces a text is cut into, and what can be read off their kind and text.
-/

namespace JaiTree

/-- A kind and the text it was found for. -/
structure Lexeme where
  kind : TokenKind
  /-- The text, exactly as it is written. -/
  text : String
deriving Repr, DecidableEq

namespace Lexeme

/-- The names that stand for types of the language itself. -/
def primitives : List String :=
  ["int", "u8", "u16", "u32", "u64", "s8", "s16", "s32", "s64", "float", "float32", "float64",
   "bool", "string", "void", "Code", "Type"]

/-- The keyword that an identifier spells; whether it is read as one is up to the grammar. -/
def keyword? (lexeme : Lexeme) : Option Keyword :=
  if lexeme.kind = .identifier then Keyword.ofText? lexeme.text else none

def directive? (lexeme : Lexeme) : Option Directive := lexeme.kind.directive?

/-- Whether the lexeme names a type of the language itself. -/
def isPrimitive (lexeme : Lexeme) : Bool :=
  lexeme.kind = .identifier && primitives.contains lexeme.text

/-- The text in a diagnostic, which cannot show the end of the input. -/
def described (lexeme : Lexeme) : String :=
  if lexeme.kind = .eof then "end of input" else lexeme.text

end Lexeme

/-- A piece of the text at its place. -/
structure Token extends Lexeme where
  /-- The byte offset of the text. -/
  start : Nat
  /-- What is wrong with the piece, when it is an error token. -/
  error : Option Cause := none
deriving Repr, DecidableEq

namespace Token

/-- The byte offset just past the text. -/
def stop (token : Token) : Nat := token.start + token.text.utf8ByteSize

theorem start_le_stop (token : Token) : token.start ≤ token.stop := Nat.le_add_right _ _

/-- Whether the grammar looks past the token. -/
def isTrivia (token : Token) : Bool := token.kind.isTrivia

/-- The end of a text that is `position` bytes long. -/
def eofAt (position : Nat) : Token := { kind := .eof, text := "", start := position }

/-- The diagnostic that an error token carries, at its start. -/
def diagnostic? (token : Token) : Option Diagnostic :=
  token.error.map fun cause => ⟨cause, token.start⟩

/-- The kind and the text on two lines between braces. -/
def shown (token : Token) : String :=
  "Token \x7b\nkind: " ++ token.kind.text ++ ",\nvalue: " ++ token.text ++ "\x7d"

end Token

end JaiTree
