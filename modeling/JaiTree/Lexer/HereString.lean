import JaiTree.Lexer.Piece
import JaiTree.Text.Line
import JaiTree.Text.Name

/-!
Here-strings: raw text between two occurrences of a name that its directive sets.
-/

namespace JaiTree.Lexer.HereString

open Text

/-- The last line that holds one name and nothing else, taken for a closing name that is written
wrongly: the name, and how many characters stand before its end. -/
def lastLoneName (offset : Nat) : List (List Char) → Option (List Char × Nat)
  | [] => none
  | l :: ls =>
    match lastLoneName (offset + l.length) ls with
    | some found => some found
    | none => if isName (trim l) then some (trim l, offset + (trimEnd l).length) else none

/-- Why the body has no end, and how many of its characters are to blame. -/
def unclosed (delimiter body : List Char) : Cause × Nat :=
  let firstLine := body.takeWhile (· != '\n')
  let found := lastName firstLine
  let mismatch (found : List Char) : Cause :=
    .mismatchedHereString (String.ofList delimiter) (String.ofList found)
  -- A wrong name at the end of the first line counts before one on a later line.
  if !found.isEmpty && found != delimiter then
    (mismatch found, firstLine.length)
  else
    match lastLoneName firstLine.length (lines (body.drop firstLine.length)) with
    | some (later, size) => (mismatch later, size)
    | none => (.unterminatedHereString (String.ofList delimiter), firstLine.length)

/-- The pieces from a directive of `mark` characters on: the name after it, the content up to the
next occurrence of that name, and the name again. -/
def pieces (mark : Nat) (text : List Char) : List Piece :=
  let rest := text.drop mark
  let gap := (rest.takeWhile isIndent).length
  let delimiter := name (rest.drop gap)
  let size := delimiter.length
  let body := rest.drop (gap + size)
  if delimiter.isEmpty then
    [{ kind := .directive .string, size := mark }]
  else
    match findWord delimiter none body with
    | some content =>
      List.filter (fun p => p.size != 0)
        [{ kind := .directive .string, size := mark }, { kind := .whitespace, size := gap },
         { kind := .identifier, size }, { kind := .hereStringContent, size := content },
         { kind := .identifier, size }]
    | none =>
      let (cause, blamed) := unclosed delimiter body
      [.faulty cause (mark + gap + size + blamed)]

end JaiTree.Lexer.HereString
