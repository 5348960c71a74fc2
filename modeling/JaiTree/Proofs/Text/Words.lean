import JaiTree.Text.Blank
import JaiTree.Text.Word
import Mathlib.Data.List.TakeWhile

/-!
Words: where a name and the blanks around it end.
-/

namespace JaiTree.Text

theorem take_length_takeWhile (p : Char → Bool) (text : List Char) :
    text.take (text.takeWhile p).length = text.takeWhile p :=
  (List.prefix_iff_eq_take.mp (List.takeWhile_prefix p)).symm

/-- A run of characters is all of one where the text is cut anywhere behind it. -/
theorem takeWhile_take {p : Char → Bool} {text : List Char} {n : Nat}
    (within : (text.takeWhile p).length ≤ n) : (text.take n).takeWhile p = text.takeWhile p := by
  rw [← List.take_takeWhile, List.take_of_length_le within]

theorem head?_of_head?_take {text : List Char} {n : Nat} {c : Char}
    (first : (text.take n).head? = some c) : text.head? = some c := by
  rw [List.head?_take] at first
  split at first
  · cases first
  · exact first

theorem drop_length_takeWhile (p : Char → Bool) (text : List Char) :
    text.drop (text.takeWhile p).length = text.dropWhile p := by
  induction text with
  | nil => rfl
  | cons c cs ih =>
    by_cases holds : p c = true
    · rw [List.takeWhile_cons_of_pos holds, List.dropWhile_cons_of_pos holds, List.length_cons,
        List.drop_succ_cons, ih]
    · rw [List.takeWhile_cons_of_neg holds, List.dropWhile_cons_of_neg holds, List.length_nil,
        List.drop_zero]

theorem not_of_dropWhile_eq_cons {p : Char → Bool} {text cs : List Char} {c : Char}
    (behind : text.dropWhile p = c :: cs) : p c = false := by
  have stop := List.head?_dropWhile_not p text
  rw [behind] at stop
  exact stop

/-- A run of characters at the head of a text ends where another comes. -/
theorem takeWhile_run {p : Char → Bool} {run text : List Char} (inside : ∀ c ∈ run, p c = true)
    (stop : ∀ c ∈ text.head?, p c = false) : (run ++ text).takeWhile p = run := by
  rw [List.takeWhile_append_of_pos inside]
  cases text with
  | nil => simp
  | cons c cs => simp [stop c rfl]

theorem name_eq_cons {text : List Char} (some_name : name text ≠ []) :
    ∃ c cs, text = c :: cs ∧ isNameStart c = true
      ∧ name text = c :: cs.takeWhile isNameChar := by
  cases text with
  | nil => exact absurd rfl some_name
  | cons c cs =>
    by_cases starts : isNameStart c = true
    · exact ⟨c, cs, rfl, starts, by simp [name, starts]⟩
    · simp [name, starts] at some_name

/-- What follows a name does not go on with it. -/
theorem name_ends {text : List Char} (some_name : name text ≠ []) {c : Char} {cs : List Char}
    (behind : text.drop (name text).length = c :: cs) : isNameChar c = false := by
  obtain ⟨d, ds, rfl, -, named⟩ := name_eq_cons some_name
  rw [named, List.length_cons, List.drop_succ_cons, drop_length_takeWhile] at behind
  exact not_of_dropWhile_eq_cons behind

theorem name_of_isName {text : List Char} (isName_text : isName text = true) :
    name text = text := by
  simp only [isName, Bool.and_eq_true, decide_eq_true_eq] at isName_text
  exact (isPrefix_name text).eq_of_length isName_text.2

theorem isName_name {text : List Char} (some_name : name text ≠ []) :
    isName (name text) = true := by
  obtain ⟨c, cs, -, starts, named⟩ := name_eq_cons some_name
  rw [named, isName, name, if_pos starts, List.takeWhile_idem]
  simp

theorem not_isIndent_of_isNameChar {c : Char} (h : isNameChar c = true) : isIndent c = false := by
  cases indent : isIndent c with
  | false => rfl
  | true =>
    simp only [isIndent, Bool.or_eq_true, decide_eq_true_eq] at indent
    rcases indent with rfl | rfl <;> cases h

theorem not_isNameStart_of_isDigit {c : Char} (digit : c.isDigit = true) :
    isNameStart c = false := by
  cases starts : isNameStart c with
  | false => rfl
  | true =>
    delta isNameStart Char.isAlpha Char.isUpper Char.isLower at starts
    delta Char.isDigit at digit
    simp only [Bool.or_eq_true, Bool.and_eq_true, decide_eq_true_eq, UInt32.le_iff_toNat_le,
      ge_iff_le] at starts digit
    rcases starts with starts | rfl
    · simp at starts digit
      omega
    · simp at digit

theorem isPrefixOf_take {word text : List Char} {n : Nat} (within : word.length ≤ n) :
    word.isPrefixOf (text.take n) = word.isPrefixOf text := by
  rw [Bool.eq_iff_iff, List.isPrefixOf_iff_prefix, List.isPrefixOf_iff_prefix,
    List.prefix_take_iff]
  exact and_iff_left within

theorem findWord_prefix {word text : List Char} {before : Option Char} {offset : Nat}
    (found : findWord word before text = some offset) : word <+: text.drop offset := by
  induction text generalizing before offset with
  | nil => simp [findWord] at found
  | cons c cs ih =>
    rw [findWord] at found
    split at found
    · next stands =>
      simp only [Bool.and_eq_true] at stands
      cases found
      exact List.isPrefixOf_iff_prefix.mp stands.1.1
    · obtain ⟨inner, later, rfl⟩ := Option.map_eq_some_iff.mp found
      rw [List.drop_succ_cons]
      exact ih later

end JaiTree.Text
