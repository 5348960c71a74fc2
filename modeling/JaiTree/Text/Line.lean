import JaiTree.Text.Width

/-!
Lines: a text is cut after each newline, and a byte offset falls on one of the pieces.
-/

namespace JaiTree.Text

/-- The pieces of the text, each ending with its newline except perhaps the last. -/
def lines : List Char → List (List Char)
  | [] => []
  | c :: cs =>
    if c = '\n' then
      [c] :: lines cs
    else
      match lines cs with
      | [] => [[c]]
      | l :: ls => (c :: l) :: ls

@[simp] theorem flatten_lines (text : List Char) : (lines text).flatten = text := by
  induction text with
  | nil => rfl
  | cons c cs ih =>
    simp only [lines]
    split
    · simp [ih]
    · cases h : lines cs with
      | nil => simp [h] at ih; simp [← ih]
      | cons l ls => simp [h] at ih; simp [ih]

/-- A place in a text as a reader names it. -/
structure Place where
  /-- The number of the line, counted from one. -/
  number : Nat
  /-- The line, with its newline if it has one. -/
  line : List Char
  /-- How many bytes of the line come before the place. -/
  column : Nat
deriving Repr, DecidableEq

/-- The place `offset` bytes into the lines; an offset past them all falls at the end of a last
line that has no newline, and on an empty line after one that has. -/
def Place.find (number : Nat) (offset : Nat) : List (List Char) → Place
  | [] => ⟨number, [], 0⟩
  | l :: ls =>
    if offset < width l || (ls.isEmpty && l.getLast? != some '\n') then
      ⟨number, l, offset⟩
    else
      Place.find (number + 1) (offset - width l) ls

/-- The place of byte `offset`, or of the end of the text when it is shorter. -/
def Place.ofByte (text : List Char) (offset : Nat) : Place :=
  Place.find 1 (min offset (width text)) (lines text)

end JaiTree.Text
