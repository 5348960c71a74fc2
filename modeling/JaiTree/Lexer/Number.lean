import JaiTree.Lexer.Piece

/-!
Numbers: binary, hexadecimal and decimal, the last with a fraction and an exponent.
-/

namespace JaiTree.Lexer.Number

/-- The size of an exponent at the head of the text, zero when none stands there. -/
def exponentSize : List Char → Nat
  | [] => 0
  | c :: cs =>
    if c = 'e' || c = 'E' then
      let sign := if cs.head? = some '+' || cs.head? = some '-' then 1 else 0
      let digits := ((cs.drop sign).takeWhile Char.isDigit).length
      if digits = 0 then 0 else 1 + sign + digits
    else
      0

/-- The size of what follows the whole part: a fraction and an exponent. -/
def fractionSize : List Char → Nat
  -- Two points belong to a range and not to the number before them.
  | '.' :: '.' :: _ => 0
  | '.' :: cs =>
    let digits := (cs.takeWhile Char.isDigit).length
    1 + digits + exponentSize (cs.drop digits)
  | cs => exponentSize cs

/-- The size of a decimal number at the head of the text. -/
def decimalSize (text : List Char) : Nat :=
  let whole := (text.takeWhile fun c => c.isDigit || c = '_').length
  whole + fractionSize (text.drop whole)

/-- Whether a character is a binary digit or stands between two. -/
def isBinary (c : Char) : Bool := c = '0' || c = '1' || c = '_'

/-- Whether a character is a hexadecimal digit or stands between two. -/
def isHexadecimal (c : Char) : Bool :=
  c.isDigit || ('a' ≤ c && c ≤ 'f') || ('A' ≤ c && c ≤ 'F') || c = '_'

/-- The size of a number in another base after its two-character mark, or of the decimal number
there when no digit of the base follows the mark. -/
def basedSize (isDigit : Char → Bool) (text : List Char) : Nat :=
  let digits := ((text.drop 2).takeWhile isDigit).length
  if digits = 0 then decimalSize text else 2 + digits

/-- The size of the number at the head of the text. -/
def size : List Char → Nat
  | '0' :: 'b' :: cs => basedSize isBinary ('0' :: 'b' :: cs)
  | '0' :: 'x' :: cs => basedSize isHexadecimal ('0' :: 'x' :: cs)
  | text => decimalSize text

end JaiTree.Lexer.Number
