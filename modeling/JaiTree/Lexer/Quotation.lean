import JaiTree.Lexer.Piece

/-!
Strings: a quote, then escapes, placeholders and plain runs, up to the next quote.
-/

namespace JaiTree.Lexer.Quotation

/-- A character that stands for itself in a string. -/
def isPlain (c : Char) : Bool := c != '"' && c != '\\' && c != '%'

/-- The pieces of a string past its opening quote and past `skip` characters of the text, or
nothing when no quote closes it. -/
def pieces : (skip : Nat) → (text : List Char) → Option (List Piece)
  | _, [] => none
  | skip + 1, _ :: cs => pieces skip cs
  | 0, c :: cs =>
    if c = '"' then
      some [{ kind := .doubleQuote, size := 1 }]
    else if c = '\\' then
      (pieces 1 cs).map ({ kind := .escapeSequence, size := 2 } :: ·)
    else if c = '%' then
      let digits := (cs.takeWhile Char.isDigit).length
      (pieces digits cs).map ({ kind := .stringPlaceholder, size := 1 + digits } :: ·)
    else
      let plain := (cs.takeWhile isPlain).length
      (pieces plain cs).map ({ kind := .stringContent, size := 1 + plain } :: ·)

theorem pieces_skip (skip : Nat) (text : List Char) :
    pieces skip text = pieces 0 (text.drop skip) := by
  induction text generalizing skip with
  | nil => cases skip <;> simp [pieces]
  | cons c cs ih =>
    cases skip with
    | zero => simp
    | succ skip => simp only [pieces, List.drop_succ_cons, ih]

/-- A string that begins with the quote at the head of the text. -/
def string (text : List Char) : List Piece :=
  match pieces 0 (text.drop 1) with
  | some ps => { kind := .doubleQuote, size := 1 } :: ps
  | none => [.faulty .unterminatedString text.length]

end JaiTree.Lexer.Quotation
