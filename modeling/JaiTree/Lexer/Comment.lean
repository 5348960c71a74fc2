import JaiTree.Lexer.Piece

/-!
Comments: to the end of the line, or up to the first closing mark.
-/

namespace JaiTree.Lexer.Comment

/-- How many characters stand before the first closing mark. -/
def closing : List Char → Option Nat
  | [] => none
  | c :: cs => if ['*', '/'].isPrefixOf (c :: cs) then some 0 else (closing cs).map (· + 1)

/-- A comment that runs to the end of its line. -/
def line (text : List Char) : List Piece :=
  [{ kind := .commentLine, size := (text.takeWhile (· != '\n')).length }]

/-- A second star marks the comment as text to be read, unless the comment ends with it. -/
def blockKind (text : List Char) : TokenKind :=
  if ['/', '*', '*'].isPrefixOf text && !(['/', '*', '*', '/'].isPrefixOf text) then
    .commentMarkdownBlock
  else
    .commentBlock

/-- A comment between marks; they do not nest. -/
def block (text : List Char) : List Piece :=
  match closing (text.drop 2) with
  | some inner => [{ kind := blockKind text, size := inner + 4 }]
  | none => [.faulty .unterminatedComment text.length]

end JaiTree.Lexer.Comment
