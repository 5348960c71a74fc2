import JaiTree.Token.Trivia

/-!
Delimiters and groups: which pairs are open after some tokens, and which tokens are cut off
together. All three sorts of pairs are matched together: a pair closes only what was opened last.
-/

namespace JaiTree

/-- What comes in pairs. -/
inductive Delimiter where
  | paren | bracket | curly
deriving Repr, DecidableEq

namespace Delimiter

/-- The kind of token that opens the pair. -/
def opening : Delimiter → TokenKind
  | .paren => .openParen
  | .bracket => .openBracket
  | .curly => .openCurly

/-- The kind of token that closes the pair. -/
def closing : Delimiter → TokenKind
  | .paren => .closeParen
  | .bracket => .closeBracket
  | .curly => .closeCurly

end Delimiter

namespace TokenKind

/-- The pair that tokens of the kind open. -/
def opens? : TokenKind → Option Delimiter
  | .openParen => some .paren
  | .openBracket => some .bracket
  | .openCurly => some .curly
  | _ => none

/-- The pair that tokens of the kind close. -/
def closes? : TokenKind → Option Delimiter
  | .closeParen => some .paren
  | .closeBracket => some .bracket
  | .closeCurly => some .curly
  | _ => none

/-- Whether more tokens may be cut off together with one of the kind, behind it. -/
def beginsGroup : TokenKind → Bool
  | .doubleQuote | .directive .string | .directive .asm => true
  | _ => false

/-- Whether tokens of the kind stand between the quotes of a string. -/
def isStringPiece : TokenKind → Bool
  | .stringContent | .escapeSequence | .stringPlaceholder => true
  | _ => false

end TokenKind

/-- How a token of a kind changes which pairs are open, the last one first. -/
inductive Shifts : List Delimiter → TokenKind → List Delimiter → Prop where
  | opens (pair : Delimiter) {stack : List Delimiter} : Shifts stack pair.opening (pair :: stack)
  | closes (pair : Delimiter) {stack : List Delimiter} : Shifts (pair :: stack) pair.closing stack
  | other {kind : TokenKind} {stack : List Delimiter} :
      kind.opens? = none → kind.closes? = none → Shifts stack kind stack

/-- The kinds of tokens that a string or a block of assembly is read from. -/
inductive Grouped : List TokenKind → Prop where
  | quotedString {pieces : List TokenKind} : (∀ kind ∈ pieces, kind.isStringPiece = true) →
      Grouped (.doubleQuote :: (pieces ++ [.doubleQuote]))
  | hereString {content : List TokenKind} : (content = [] ∨ content = [.hereStringContent]) →
      Grouped (.directive .string :: .identifier :: (content ++ [.identifier]))
  | asmBlock {features content : List TokenKind} :
      (∀ kind ∈ features, kind = .identifier ∨ kind = .comma) →
      (content = [] ∨ content = [.asmContent]) →
      Grouped (.directive .asm :: (features ++ .openCurly :: (content ++ [.closeCurly])))

/-- How many braces are open. -/
def curlies (stack : List Delimiter) : Nat := stack.count .curly

@[simp] theorem curlies_curly (stack : List Delimiter) :
    curlies (.curly :: stack) = curlies stack + 1 := List.count_cons_self

@[simp] theorem curlies_paren (stack : List Delimiter) :
    curlies (.paren :: stack) = curlies stack := List.count_cons_of_ne (by decide)

@[simp] theorem curlies_bracket (stack : List Delimiter) :
    curlies (.bracket :: stack) = curlies stack := List.count_cons_of_ne (by decide)

end JaiTree
