import JaiTree.Text.Width
import JaiTree.Token

/-!
Pieces: a text is cut by saying how many characters each token takes.
-/

namespace JaiTree.Lexer

/-- A number of characters that make one token of a kind. -/
structure Piece where
  kind : TokenKind
  /-- How many characters the token takes. -/
  size : Nat
  /-- What is wrong with them. -/
  error : Option Cause := none
deriving Repr, DecidableEq

namespace Piece

/-- Characters that make no sound token. -/
def faulty (cause : Cause) (size : Nat) : Piece := { kind := .error, size, error := some cause }

/-- How many characters the pieces take together. -/
def total : List Piece → Nat
  | [] => 0
  | p :: ps => p.size + total ps

/-- The tokens that the pieces cut from the head of a text that begins at byte `start`. -/
def tokens (start : Nat) (text : List Char) : List Piece → List Token
  | [] => []
  | p :: ps =>
    let token : Token :=
      { kind := p.kind, text := String.ofList (text.take p.size), start, error := p.error }
    token :: tokens token.stop (text.drop p.size) ps

@[simp] theorem total_nil : total [] = 0 := rfl

@[simp] theorem total_cons (p : Piece) (ps : List Piece) :
    total (p :: ps) = p.size + total ps := rfl

@[simp] theorem total_append (a b : List Piece) : total (a ++ b) = total a + total b := by
  induction a with
  | nil => simp
  | cons p ps ih => simp [ih, Nat.add_assoc]

/-- Nothing is lost between the pieces: the texts of the tokens make up the text. -/
theorem flatten_tokens (start : Nat) (text : List Char) (pieces : List Piece) :
    ((tokens start text pieces).map fun t => t.text.toList).flatten = text.take (total pieces) := by
  induction pieces generalizing start text with
  | nil => simp [tokens]
  | cons p ps ih =>
    simp only [tokens, List.map_cons, List.flatten_cons, ih, total_cons, String.toList_ofList]
    rw [List.take_add]

end Piece

end JaiTree.Lexer
