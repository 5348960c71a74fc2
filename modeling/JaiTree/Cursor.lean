import JaiTree.Conflict.Table
import JaiTree.Grammar
import JaiTree.Lexer

/-!
Cursors: a place among the tokens of a text, with all that a rule read from there depends on.
-/

namespace JaiTree

/-- A place among the tokens of a text. -/
structure Cursor where
  /-- The tokens that the grammar sees, without the end. -/
  tokens : List Padded
  /-- The end of the text, with the trivia before it. -/
  eof : Padded
  /-- How many tokens come before the place. -/
  position : Nat := 0
  /-- Whether an equals sign before a brace opens the cases of a switch. -/
  inSwitch : Bool := false
  /-- How many parameter lists are open. -/
  parameterDepth : Nat := 0
  /-- How many levels are open. -/
  depth : Nat := 0

namespace Cursor

/-- Whether a token is the end of the text. -/
def isEnd (padded : Padded) : Bool := padded.token.kind = .eof

/-- The first of the tokens. Where the end is not among them, it stands behind the last one. -/
def ofPadded (all : List Padded) : Cursor :=
  { tokens := all.takeWhile fun p => !isEnd p
    eof := (all.find? isEnd).getD
      ⟨[], .eofAt ((all.getLast?.map fun p => p.token.stop).getD 0)⟩ }

/-- The first token of a text. -/
def ofText (text : String) : Cursor := ofPadded (Padded.ofTokens (tokenize text))

/-- The tokens from the place on. -/
def rest (cursor : Cursor) : List Padded := cursor.tokens.drop cursor.position

/-- The token at an offset from the place, the end past that. -/
def peek (offset : Nat) (cursor : Cursor) : Padded := ahead cursor.eof cursor.rest offset

/-- What a decision answers at the place. -/
def glance {α : Type} (decision : Glance α) (cursor : Cursor) : α :=
  decision.run cursor.eof cursor.rest

/-- What the rules at the place have to know of those around them. -/
def setting (cursor : Cursor) : Setting :=
  { inSwitch := cursor.inSwitch, inParameters := cursor.parameterDepth != 0 }

/-- Moves the place on, to where this many tokens are left. -/
def leaving (rest : List Padded) (cursor : Cursor) : Cursor :=
  { cursor with position := cursor.position + (cursor.rest.length - rest.length) }

/-- Reads a form at the place: its children or a diagnostic, and the place where it ended. -/
def read (form : Form) (cursor : Cursor) : Except Diagnostic (List Child) × Cursor :=
  match Grammar.read cursor.eof (Grammar.maxNesting - cursor.depth) form cursor.setting
      cursor.rest with
  | .done children rest => (.ok children, cursor.leaving rest)
  | .failed error rest => (.error error, cursor.leaving rest)

/-- Opens a level, unless as many are open as are followed. -/
def open? (cursor : Cursor) : Except Diagnostic Cursor :=
  if cursor.depth < Grammar.maxNesting then
    .ok { cursor with depth := cursor.depth + 1 }
  else
    .error ⟨.nestingTooDeep Grammar.maxNesting, (cursor.peek 0).token.start⟩

/-- Settles a conflict at an offset from the place. -/
def resolve (entry : Entry) (offset : Nat) (cursor : Cursor) : Except Diagnostic Winner :=
  entry.resolve cursor.setting.inParameters cursor.eof (cursor.rest.drop offset)

end Cursor

end JaiTree
