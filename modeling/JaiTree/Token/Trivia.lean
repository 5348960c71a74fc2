import JaiTree.Token

/-!
Trivia: blanks and comments, folded into the token that they stand before.
-/

namespace JaiTree

/-- What a decision of the grammar sees of a token. -/
structure Sight extends Lexeme where
  /-- Whether a line break stands between the token and the one before it. -/
  startsLine : Bool
deriving Repr, DecidableEq

/-- A token that the grammar sees, with the trivia before it. -/
structure Padded where
  /-- Blanks and comments right before the token. -/
  leading : List Token
  token : Token
deriving Repr, DecidableEq

namespace Padded

/-- Every token in order of the text. -/
def tokens (padded : Padded) : List Token := padded.leading ++ [padded.token]

/-- Whether a line break stands in the trivia. -/
def startsLine (padded : Padded) : Bool :=
  padded.leading.any fun trivia => trivia.text.toList.contains '\n'

/-- What a decision sees: all but the place, and of the trivia only the line break. -/
def sight (padded : Padded) : Sight :=
  { padded.token.toLexeme with startsLine := padded.startsLine }

/-- Folds trivia into the next other token. -/
def attach (leading : List Token) : List Token → List Padded
  -- A text ends with its end token, so trivia waits for nothing only where that was cut off.
  | [] => []
  | t :: ts =>
    if t.isTrivia then attach (leading ++ [t]) ts else ⟨leading, t⟩ :: attach [] ts

/-- The tokens that the grammar sees, each with the trivia before it. -/
def ofTokens (tokens : List Token) : List Padded := attach [] tokens

end Padded

end JaiTree
