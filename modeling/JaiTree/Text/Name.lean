import JaiTree.Text.Blank

/-!
Names: an ASCII letter or underscore, then letters, digits and underscores.
-/

namespace JaiTree.Text

/-- A character that may begin a name. -/
def isNameStart (c : Char) : Bool := c.isAlpha || c = '_'

/-- A character that may continue a name. -/
def isNameChar (c : Char) : Bool := c.isAlphanum || c = '_'

/-- The longest name at the head of the text, empty when none stands there. -/
def name : List Char → List Char
  | [] => []
  | c :: cs => if isNameStart c then c :: cs.takeWhile isNameChar else []

/-- Whether the text is one name and nothing else. -/
def isName (text : List Char) : Bool := !text.isEmpty && (name text).length = text.length

theorem isPrefix_name (text : List Char) : name text <+: text := by
  cases text with
  | nil => simp [name]
  | cons c cs =>
    by_cases h : isNameStart c
    · simpa [name, h] using List.takeWhile_prefix isNameChar
    · simp [name, h]

theorem isNameChar_of_isNameStart {c : Char} (h : isNameStart c = true) : isNameChar c = true := by
  simp only [isNameStart, isNameChar, Char.isAlphanum, Bool.or_eq_true] at h ⊢
  rcases h with h | h
  · exact .inl (.inl h)
  · exact .inr h

theorem isNameChar_of_mem_name {c : Char} {text : List Char} (h : c ∈ name text) :
    isNameChar c = true := by
  cases text with
  | nil => simp [name] at h
  | cons d ds =>
    by_cases hd : isNameStart d
    · simp only [name, hd, if_true, List.mem_cons] at h
      rcases h with rfl | h
      · exact isNameChar_of_isNameStart hd
      · exact List.all_eq_true.mp List.all_takeWhile c h
    · simp [name, hd] at h

/-- The first place where `word` stands with no name character on either side, given the
character before the text. -/
def findWord (word : List Char) (before : Option Char) : List Char → Option Nat
  | [] => none
  | c :: cs =>
    if word.isPrefixOf (c :: cs) && !before.any isNameChar
        && !((c :: cs).drop word.length).head?.any isNameChar then
      some 0
    else
      (findWord word (some c) cs).map (· + 1)

/-- The name that ends the text once the blanks at its end are gone: the run of name characters
there, less the digits in front of it. -/
def lastName (text : List Char) : List Char :=
  ((trimEnd text).reverse.takeWhile isNameChar).reverse.dropWhile Char.isDigit

end JaiTree.Text
