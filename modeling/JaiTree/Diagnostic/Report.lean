import JaiTree.Diagnostic
import JaiTree.Text.Blank
import JaiTree.Text.Line

/-!
Reports: a diagnostic above the line of text that it points at.
-/

namespace JaiTree.Diagnostic

/-- The first line of a report: the cause in one word, and the tip when there is one. -/
def title (diagnostic : Diagnostic) : String :=
  match diagnostic.cause.tip? with
  | none => "Error: " ++ diagnostic.cause.name
  | some tip => "Error: " ++ diagnostic.cause.name ++ " (" ++ tip ++ ")"

/-- The bar that stands under a line number, with the space beside it left free. -/
def gutter (place : Text.Place) : String :=
  String.ofList (List.replicate ((toString place.number).length + 1) ' ') ++ "|"

/-- The line of the place, without its indentation and the blanks at its end. -/
def shownLine (place : Text.Place) : String :=
  String.ofList (Text.trimEnd (place.line.dropWhile Text.isIndent))

/-- An arrow as long as the bytes between the indentation of the line and the place. -/
def arrow (place : Text.Place) : String :=
  let indent := (place.line.takeWhile Text.isIndent).length
  String.ofList (List.replicate (place.column - indent) '-') ++ "^"

/-- The report of a diagnostic of the text: the title, the line, and an arrow below it. -/
def report (text : String) (diagnostic : Diagnostic) : String :=
  let place := Text.Place.ofByte text.toList diagnostic.position
  diagnostic.title ++ "\n"
    ++ gutter place ++ "\n"
    ++ toString place.number ++ " | " ++ shownLine place ++ "\n"
    ++ gutter place ++ " " ++ arrow place ++ "\n"

end JaiTree.Diagnostic
