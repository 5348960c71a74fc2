import JaiTree.Proofs.Text.Words

/-!
What lies ahead: before a blank, what is read at the head of a text does not depend on what stands
behind the blank.
-/

namespace JaiTree.Text

theorem not_isNameChar_of_isBlank {c : Char} (blank : isBlank c = true) : isNameChar c = false := by
  cases named : isNameChar c with
  | false => rfl
  | true =>
    simp only [isBlank, Bool.or_eq_true, Bool.and_eq_true, decide_eq_true_eq] at blank
    rw [isNameChar, Char.isAlphanum] at named
    delta Char.isAlpha Char.isUpper Char.isLower Char.isDigit at named
    simp only [Bool.or_eq_true, Bool.and_eq_true, decide_eq_true_eq, UInt32.le_iff_toNat_le,
      ge_iff_le] at named
    rcases named with named | rfl
    · simp at named
      omega
    · revert blank
      decide

theorem not_isBlank_of_isNameChar {c : Char} (named : isNameChar c = true) :
    isBlank c = false := by
  cases blank : isBlank c with
  | false => rfl
  | true =>
    rw [not_isNameChar_of_isBlank blank] at named
    cases named

/-- A name begins with no blank. -/
theorem not_isBlank_of_name {text : List Char} (some_name : name text ≠ []) :
    ∀ c ∈ text.head?, isBlank c = false := by
  obtain ⟨d, ds, rfl, starts, -⟩ := name_eq_cons some_name
  rintro c ⟨⟩
  exact not_isBlank_of_isNameChar (isNameChar_of_isNameStart starts)

/-- The blanks at the head of a text end where no other follows. -/
theorem takeWhile_isBlank {blanks text : List Char} (blank : ∀ c ∈ blanks, isBlank c = true)
    (stop : ∀ c ∈ text.head?, isBlank c = false) : (blanks ++ text).takeWhile isBlank = blanks :=
  takeWhile_run blank stop

theorem not_isDigit_of_isBlank {c : Char} (blank : isBlank c = true) : c.isDigit = false := by
  have other := not_isNameChar_of_isBlank blank
  simp only [isNameChar, Char.isAlphanum, Bool.or_eq_false_iff] at other
  exact other.1.2

theorem ne_of_isBlank {c d : Char} (blank : isBlank c = true) (other : isBlank d = false) :
    c ≠ d := by
  rintro rfl
  rw [blank] at other
  cases other

section

variable {a x y : List Char} {c : Char} {p : Char → Bool} {word : List Char} {before : Option Char}

theorem takeWhile_ahead (y : List Char)
    (within : ((a ++ c :: x).takeWhile p).length ≤ a.length) :
    (a ++ c :: y).takeWhile p = (a ++ c :: x).takeWhile p := by
  rw [List.takeWhile_append] at within ⊢
  rw [List.takeWhile_append]
  by_cases whole : (a.takeWhile p).length = a.length
  · rw [if_pos whole] at within ⊢
    rw [if_pos whole]
    cases holds : p c with
    | false => simp [holds]
    | true =>
      rw [List.takeWhile_cons_of_pos holds, List.length_append, List.length_cons] at within
      omega
  · rw [if_neg whole, if_neg whole]

theorem length_takeWhile_ahead (stop : p c = false) (a x : List Char) :
    ((a ++ c :: x).takeWhile p).length ≤ a.length := by
  rw [List.takeWhile_append]
  split
  · simp [stop]
  · exact (a.takeWhile_prefix p).length_le

theorem isPrefixOf_ahead (out : c ∉ word) (a x y : List Char) :
    word.isPrefixOf (a ++ c :: y) = word.isPrefixOf (a ++ c :: x) := by
  induction a generalizing word with
  | nil =>
    cases word with
    | nil => simp
    | cons d ds =>
      have other : (d == c) = false := by
        simp only [List.mem_cons, not_or] at out
        simpa using fun same => out.1 same.symm
      simp [List.isPrefixOf, other]
  | cons d ds ih =>
    cases word with
    | nil => simp
    | cons e es =>
      simp only [List.mem_cons, not_or] at out
      simp only [List.cons_append, List.isPrefixOf, ih out.2]

theorem length_le_of_isPrefixOf (out : c ∉ word) (begins : word.isPrefixOf (a ++ c :: x) = true) :
    word.length ≤ a.length := by
  induction a generalizing word with
  | nil =>
    cases word with
    | nil => simp
    | cons d ds =>
      simp only [List.nil_append, List.isPrefixOf, Bool.and_eq_true, beq_iff_eq] at begins
      simp [begins.1] at out
  | cons d ds ih =>
    cases word with
    | nil => simp
    | cons e es =>
      simp only [List.mem_cons, not_or] at out
      simp only [List.cons_append, List.isPrefixOf, Bool.and_eq_true] at begins
      have below := ih out.2 begins.2
      simp only [List.length_cons]
      omega

theorem head?_drop_ahead {n : Nat} (within : n ≤ a.length) (x y : List Char) :
    ((a ++ c :: y).drop n).head? = ((a ++ c :: x).drop n).head? := by
  rw [List.drop_append_of_le_length within, List.drop_append_of_le_length within]
  cases a.drop n <;> rfl

theorem name_ahead (stop : isNameChar c = false) (a x y : List Char) :
    name (a ++ c :: y) = name (a ++ c :: x) := by
  cases a with
  | nil =>
    have starts : isNameStart c = false := by
      cases starts : isNameStart c with
      | false => rfl
      | true =>
        rw [isNameChar_of_isNameStart starts] at stop
        cases stop
    simp [name, starts]
  | cons d ds =>
    rw [List.cons_append, name, List.cons_append, name,
      takeWhile_ahead y (length_takeWhile_ahead stop ds x)]

theorem length_name_ahead (stop : isNameChar c = false) (a x : List Char) :
    (name (a ++ c :: x)).length ≤ a.length := by
  cases a with
  | nil =>
    have none := name_ahead stop [] x []
    rw [← none]
    cases starts : isNameStart c with
    | false => simp [name, starts]
    | true =>
      rw [isNameChar_of_isNameStart starts] at stop
      cases stop
  | cons d ds =>
    rw [List.cons_append, name]
    split
    · have below := length_takeWhile_ahead stop ds x
      simp only [List.length_cons]
      omega
    · simp

/-- Whether a word stands at the head of a text. -/
theorem stands_ahead (out : c ∉ word) (a x y : List Char) :
    (word.isPrefixOf (a ++ c :: y) && !before.any isNameChar
        && !((a ++ c :: y).drop word.length).head?.any isNameChar)
      = (word.isPrefixOf (a ++ c :: x) && !before.any isNameChar
        && !((a ++ c :: x).drop word.length).head?.any isNameChar) := by
  rw [isPrefixOf_ahead out a x y]
  cases begins : word.isPrefixOf (a ++ c :: x) with
  | false => rfl
  | true => rw [head?_drop_ahead (length_le_of_isPrefixOf out begins) x y]

theorem findWord_ahead (out : c ∉ word) (some_char : word ≠ []) {offset : Nat}
    (found : findWord word before (a ++ c :: x) = some offset)
    (within : offset + word.length ≤ a.length) (y : List Char) :
    findWord word before (a ++ c :: y) = some offset := by
  induction a generalizing before offset with
  | nil =>
    have size := List.length_pos_iff.mpr some_char
    simp only [List.length_nil] at within
    omega
  | cons d ds ih =>
    have stands := @stands_ahead c word before out (d :: ds) x y
    rw [List.cons_append, findWord] at found ⊢
    rw [List.cons_append, List.cons_append] at stands
    rw [stands]
    split
    · next holds => rwa [if_pos holds] at found
    · next holds =>
      rw [if_neg holds] at found
      obtain ⟨inner, later, rfl⟩ := Option.map_eq_some_iff.mp found
      rw [List.length_cons] at within
      rw [ih later (by omega)]
      rfl

/-- A word that holds no blank is nowhere in a text when it is on neither side of a blank. -/
theorem findWord_eq_none_iff (out : c ∉ word) (some_char : word ≠ []) :
    findWord word before (a ++ c :: x) = none
      ↔ findWord word before (a ++ [c]) = none ∧ findWord word (some c) x = none := by
  induction a generalizing before with
  | nil =>
    have other (x : List Char) : word.isPrefixOf (c :: x) = false := by
      cases word with
      | nil => exact absurd rfl some_char
      | cons d ds =>
        simp only [List.mem_cons, not_or] at out
        simp [List.isPrefixOf, Ne.symm out.1]
    simp [findWord, other]
  | cons d ds ih =>
    have stands := @stands_ahead c word before out (d :: ds) [] x
    rw [List.cons_append, findWord, List.cons_append, findWord]
    rw [List.cons_append, List.cons_append] at stands
    rw [stands]
    split
    · simp
    · simp only [Option.map_eq_none_iff]
      exact ih

theorem findWord_eq_none {text : List Char} (some_char : word ≠ [])
    (out : ∀ d ∈ text, d ∉ word) : findWord word before text = none := by
  induction text generalizing before with
  | nil => rfl
  | cons d ds ih =>
    have other : word.isPrefixOf (d :: ds) = false := by
      cases word with
      | nil => exact absurd rfl some_char
      | cons e es =>
        have not_mem := out d List.mem_cons_self
        simp only [List.mem_cons, not_or] at not_mem
        simp [List.isPrefixOf, Ne.symm not_mem.1]
    rw [findWord, other, ih fun e member => out e (List.mem_cons_of_mem d member)]
    rfl

end

end JaiTree.Text
