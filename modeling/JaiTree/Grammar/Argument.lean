import JaiTree.Grammar.Literal

/-!
Arguments, the elements of literals, and notes.
-/

namespace JaiTree.Grammar

open Form

/-- Whether a name and an equals sign lie ahead from an offset on. -/
def assignsAt (offset : Nat) : Glance Bool := do
  if (← Glance.kindAt offset) = .identifier then
    return (← Glance.kindAt (offset + 1)) = .assignment
  else
    return false

/-- Whether a point, a name and an equals sign lie ahead. -/
def assignsMember : Glance Bool := do
  if (← Glance.kindAt 0) = .dot then assignsAt 1 else return false

/-- A value behind its name, or a value alone. -/
def argument : Form :=
  .node .argument <|
    ifelse (assignsAt 0) (.label .name identifier ++ any ++ .label .value expression) expression

/-- Arguments in parentheses. -/
def argumentList : Form :=
  .node .argumentList <|
    token .openParen ++ .within .arguments (items .closeParen argument) ++ token .closeParen

/-- A value behind its name, behind a point and its name, or alone. -/
def compositeElement : Form :=
  .node .compositeElement <|
    ifelse (assignsAt 0) (.label .name identifier ++ any ++ .label .value expression) <|
      ifelse assignsMember
        (any ++ .label .member identifier ++ any ++ .label .value expression)
        expression

/-- The elements of a composite literal, from its point on. -/
def compositeBody : Form :=
  token .dot ++ token .openCurly ++ .within .literal (items .closeCurly compositeElement)
    ++ token .closeCurly

/-- The elements of an array literal, from its point on. -/
def arrayBody : Form :=
  token .dot ++ token .openBracket ++ .within .literal (items .closeBracket expression)
    ++ token .closeBracket

/-- A note: a name behind an at sign, and on its line a string or arguments. -/
def note : Form :=
  .node .note <|
    token .atSign ++ .label .name identifier ++ onSight fun s =>
      if s.startsLine then .empty
      else if s.startsString then string
      else if s.kind = .openParen then
        any ++ items .closeParen (.label .args expression) ++ token .closeParen
      else .empty

end JaiTree.Grammar
