import JaiTree.Lexer.Group

/-!
The lexer: a text is cut into tokens, group by group, and ends with one token for its end.
-/

namespace JaiTree

/-- The tokens of a text past its first `skip` characters, of which the next begins at byte
`start`. -/
def Lexer.scan : (skip start : Nat) → (text : List Char) → List Token
  | _, start, [] => [.eofAt start]
  | skip + 1, start, _ :: cs => scan skip start cs
  | 0, start, c :: cs =>
    let pieces := group (c :: cs)
    let size := Piece.total pieces
    Piece.tokens start (c :: cs) pieces
      ++ scan (size - 1) (start + Text.width ((c :: cs).take size)) cs

/-- The tokens of a text, blanks and comments included, with its end as the last. -/
def tokenize (text : String) : List Token := Lexer.scan 0 0 text.toList

/-- A lexer that hands out its tokens one at a time. -/
structure Lexer where
  /-- The text not yet cut. -/
  rest : List Char
  /-- The byte offset of that text. -/
  position : Nat
  /-- Tokens already cut, to be handed out first. -/
  pending : List Token
  /-- Whether the end of the text has been handed out as the last token. -/
  finished : Bool

namespace Lexer

/-- A lexer at the beginning of a text. -/
def ofText (text : String) : Lexer :=
  { rest := text.toList, position := 0, pending := [], finished := false }

/-- Moves the lexer on by a number of bytes, past the end if there are not as many. -/
def advance (bytes : Nat) (lexer : Lexer) : Lexer :=
  { lexer with rest := Text.dropBytes bytes lexer.rest, position := lexer.position + bytes }

/-- Puts a token after those that wait to be handed out. -/
def push (token : Token) (lexer : Lexer) : Lexer :=
  { lexer with pending := lexer.pending ++ [token] }

/-- Cuts the next group of the text into waiting tokens. -/
def cut (lexer : Lexer) : Lexer :=
  let pieces := group lexer.rest
  let size := Piece.total pieces
  { lexer with
    rest := lexer.rest.drop size
    position := lexer.position + Text.width (lexer.rest.take size)
    pending := lexer.pending ++ Piece.tokens lexer.position lexer.rest pieces }

/-- The next token: a waiting one, the first of the next group, or the end of the text. -/
def next (lexer : Lexer) : Token × Lexer :=
  match lexer.pending with
  | token :: pending => (token, { lexer with pending })
  | [] =>
    match lexer.rest with
    | [] => (.eofAt lexer.position, lexer)
    | _ :: _ =>
      match lexer.cut.pending with
      | token :: pending => (token, { lexer.cut with pending })
      | [] => (.eofAt lexer.position, lexer)

/-- The next token, and none once the end of the text has been handed out. -/
def next? (lexer : Lexer) : Option Token × Lexer :=
  if lexer.finished then
    (none, lexer)
  else
    let (token, lexer) := lexer.next
    (some token, { lexer with finished := token.kind = .eof })

end Lexer

end JaiTree
