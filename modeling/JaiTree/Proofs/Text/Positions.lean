import JaiTree.Proofs.Text.Lines
import Mathlib.Tactic.SplitIfs

/-!
Positions: which line a byte of a text falls on, and where on that line. The lines are the pieces
of the text cut after each newline, and the number of a line counts the newline bytes before the
place. Main statement: `Text.Place.ofByte_exact`.
-/

namespace JaiTree.Text

/-- The bytes of the characters in UTF-8. -/
def bytes (text : List Char) : List UInt8 := text.flatMap String.utf8EncodeChar

/-- The pieces are the text cut after each newline, and nowhere else. -/
inductive CutAfterNewlines : List Char → List (List Char) → Prop where
  | nothing : CutAfterNewlines [] []
  | rest {line : List Char} : line ≠ [] → '\n' ∉ line → CutAfterNewlines line [line]
  | line {body text : List Char} {pieces : List (List Char)} : '\n' ∉ body →
      CutAfterNewlines text pieces →
      CutAfterNewlines (body ++ ['\n'] ++ text) ((body ++ ['\n']) :: pieces)

/-- The place lies `offset` bytes into the text, on the piece that `before` others come before. -/
structure Place.On (text : List Char) (pieces : List (List Char)) (offset before : Nat)
    (place : Place) : Prop where
  newlines : ((bytes text).take offset).count 10 = before
  line : pieces[before]?.getD [] = place.line
  past : pieces[before]? = none
    ↔ offset = width text ∧ (text = [] ∨ text.getLast? = some '\n')
  column : width (pieces.take before).flatten + place.column = offset
  within : place.column ≤ width place.line

variable {text : List Char} {pieces : List (List Char)} {offset : Nat}

@[simp] theorem bytes_append (a b : List Char) : bytes (a ++ b) = bytes a ++ bytes b :=
  List.flatMap_append

@[simp] theorem length_bytes (text : List Char) : (bytes text).length = width text := by
  induction text with
  | nil => rfl
  | cons c cs ih =>
    rw [bytes, List.flatMap_cons, List.length_append, String.length_utf8EncodeChar, ← bytes, ih,
      width_cons]

theorem bytes_toList (text : String) : bytes text.toList = text.toByteArray.data.toList := by
  have encoded := String.toByteArray_ofList (l := text.toList)
  rw [String.ofList_toList] at encoded
  rw [encoded, List.utf8Encode, List.data_toByteArray, bytes]

/-- The byte of a newline is part of no other character. -/
theorem newline_mem_encode {c : Char} : 10 ∈ String.utf8EncodeChar c ↔ c = '\n' := by
  have same : c = '\n' ↔ c.val.toNat = 10 := by
    rw [Char.ext_iff, ← UInt32.toNat_inj]
    rfl
  have byte : (10 : UInt8).toNat = 10 := rfl
  rw [same, String.utf8EncodeChar]
  split_ifs
  all_goals
    simp only [List.mem_cons, List.not_mem_nil, or_false, ← UInt8.toNat_inj, UInt8.toNat_ofNat',
      byte]
    omega

theorem newline_mem_bytes : 10 ∈ bytes text ↔ '\n' ∈ text := by
  simp [bytes, List.mem_flatMap, newline_mem_encode]

theorem count_newline_bytes (unbroken : '\n' ∉ text) : (bytes text).count 10 = 0 :=
  List.count_eq_zero.mpr fun member => unbroken (newline_mem_bytes.mp member)

/-- Up to the end of a text without a newline no byte is one of a newline. -/
theorem count_newline_take (unbroken : '\n' ∉ text) (within : offset ≤ width text)
    (rest : List Char) : ((bytes (text ++ rest)).take offset).count 10 = 0 := by
  have inside : offset ≤ (bytes text).length := by rwa [length_bytes]
  rw [bytes_append, List.take_append_of_le_length inside, List.count_eq_zero]
  intro member
  exact unbroken (newline_mem_bytes.mp (List.mem_of_mem_take member))

/-- Behind a line that has ended, one newline byte more has come before. -/
theorem count_newline_line (unbroken : '\n' ∉ text) (behind : width (text ++ ['\n']) ≤ offset)
    (rest : List Char) :
    ((bytes (text ++ ['\n'] ++ rest)).take offset).count 10
      = ((bytes rest).take (offset - width (text ++ ['\n']))).count 10 + 1 := by
  have newline : (bytes ['\n']).count 10 = 1 := by decide
  have ended : (bytes (text ++ ['\n'])).length ≤ offset := by rwa [length_bytes]
  rw [bytes_append, List.take_append, List.take_of_length_le ended, length_bytes,
    List.count_append, bytes_append, List.count_append, count_newline_bytes unbroken, newline,
    Nat.zero_add, Nat.add_comm]

/-- A text is cut into its lines after each newline. -/
theorem lines_cut (text : List Char) : CutAfterNewlines text (lines text) := by
  induction text with
  | nil => exact .nothing
  | cons c cs ih =>
    rw [lines]
    by_cases broken : c = '\n'
    · subst broken
      rw [if_pos rfl]
      exact .line List.not_mem_nil ih
    · have apart {body : List Char} (unbroken : '\n' ∉ body) : '\n' ∉ c :: body := by
        rw [List.mem_cons, not_or]
        exact ⟨Ne.symm broken, unbroken⟩
      rw [if_neg broken]
      generalize lines cs = pieces at ih ⊢
      cases ih with
      | nothing => exact .rest (List.cons_ne_nil c []) (apart List.not_mem_nil)
      | rest some_char unbroken => exact .rest (List.cons_ne_nil c _) (apart unbroken)
      | line unbroken cut => exact .line (apart unbroken) cut

/-- There is one way to cut a text after each newline. -/
theorem CutAfterNewlines.eq_lines (cut : CutAfterNewlines text pieces) : pieces = lines text := by
  induction cut with
  | nothing => rfl
  | rest some_char unbroken => rw [lines_unbroken unbroken some_char]
  | line unbroken cut ih =>
    rw [List.append_assoc, List.singleton_append, lines_newline, ← ih, lines_append unbroken rfl]
    rfl

namespace Place

variable {body : List Char} {before : Nat} {place : Place}

theorem find_inside {line : List Char} (number : Nat) (inside : offset < width line) :
    find number offset (line :: pieces) = ⟨number, line, offset⟩ := by
  rw [find, decide_eq_true inside]
  rfl

theorem find_behind (number : Nat) (behind : width (body ++ ['\n']) ≤ offset) :
    find number offset ((body ++ ['\n']) :: pieces)
      = find (number + 1) (offset - width (body ++ ['\n'])) pieces := by
  have outside : ¬ offset < width (body ++ ['\n']) := Nat.not_lt_of_le behind
  rw [find, decide_eq_false outside, List.getLast?_concat]
  simp

/-- A line that has ended does not change what lies behind it. -/
theorem On.behind (on : On text pieces (offset - width (body ++ ['\n'])) before place)
    (unbroken : '\n' ∉ body) (behind : width (body ++ ['\n']) ≤ offset) :
    On (body ++ ['\n'] ++ text) ((body ++ ['\n']) :: pieces) offset (before + 1) place where
  newlines := by rw [count_newline_line unbroken behind, on.newlines]
  line := on.line
  past := by
    have reached : offset = width (body ++ ['\n'] ++ text)
        ↔ offset - width (body ++ ['\n']) = width text := by
      rw [width_append]
      omega
    have last : body ++ ['\n'] ++ text = [] ∨ (body ++ ['\n'] ++ text).getLast? = some '\n'
        ↔ text = [] ∨ text.getLast? = some '\n' := by
      rw [List.getLast?_append, List.getLast?_concat]
      cases ends : text.getLast? with
      | none => simp [List.getLast?_eq_none_iff.mp ends]
      | some c =>
        have some_char : text ≠ [] := List.ne_nil_of_mem (List.mem_of_getLast? ends)
        simp [some_char]
    rw [List.getElem?_cons_succ, on.past, reached, last]
  column := by
    have column := on.column
    rw [List.take_succ_cons, List.flatten_cons, width_append]
    omega
  within := on.within

/-- A byte up to the end of the text falls on one of the pieces, or behind them all. -/
theorem find_on (cut : CutAfterNewlines text pieces) (number : Nat) (within : offset ≤ width text) :
    ∃ before, (find number offset pieces).number = number + before
      ∧ On text pieces offset before (find number offset pieces) := by
  induction cut generalizing number offset with
  | nothing =>
    have first : offset = 0 := Nat.le_zero.mp within
    subst first
    exact ⟨0, rfl, rfl, rfl, by simp, rfl, Nat.le_refl 0⟩
  | @rest line some_char unbroken =>
    have last : line.getLast some_char ≠ '\n' := fun same => unbroken (same ▸ List.getLast_mem _)
    have here : find number offset [line] = ⟨number, line, offset⟩ := by
      simp [find, List.getLast?_eq_some_getLast some_char, last]
    have newlines := count_newline_take unbroken within []
    rw [List.append_nil] at newlines
    rw [here]
    refine ⟨0, rfl, newlines, rfl, ?_, Nat.zero_add offset, within⟩
    simp [List.getLast?_eq_some_getLast some_char, last, some_char]
  | @line body text pieces unbroken cut ih =>
    rw [width_append] at within
    by_cases inside : offset < width (body ++ ['\n'])
    · have before : offset ≤ width body := by
        have newline : width ['\n'] = 1 := by decide
        rw [width_append, newline] at inside
        omega
      have newlines := count_newline_take unbroken before (['\n'] ++ text)
      rw [← List.append_assoc] at newlines
      rw [find_inside number inside]
      refine ⟨0, rfl, newlines, rfl, ?_, Nat.zero_add offset, Nat.le_of_lt inside⟩
      have short : offset ≠ width (body ++ ['\n'] ++ text) := by
        rw [width_append]
        omega
      simp only [short, false_and, iff_false]
      exact Option.some_ne_none _
    · have behind : width (body ++ ['\n']) ≤ offset := Nat.le_of_not_lt inside
      obtain ⟨before, numbered, on⟩ := @ih (offset - width (body ++ ['\n'])) (number + 1)
        (by omega)
      rw [find_behind number behind]
      exact ⟨before + 1, by omega, on.behind unbroken behind⟩

/-- The line of a byte is counted by the newline bytes before it, or before the end of the text
when that is shorter. It is the piece of that number of the text cut after each newline, which can
be done in one way only, and it is empty behind the last piece, where a text ends that is empty or
ends with a newline. The bytes of the pieces before it and those of the column are all that come
before the place. -/
theorem ofByte_exact (text : String) (offset : Nat) :
    let place := Place.ofByte text.toList offset
    let reached := min offset text.utf8ByteSize
    let pieces := lines text.toList
    (∀ cut, CutAfterNewlines text.toList cut ↔ cut = pieces)
    ∧ place.number = 1 + (text.toByteArray.data.toList.take reached).count 10
    ∧ pieces[place.number - 1]?.getD [] = place.line
    ∧ (pieces[place.number - 1]? = none
      ↔ reached = text.utf8ByteSize ∧ (text = "" ∨ text.toList.getLast? = some '\n'))
    ∧ width (pieces.take (place.number - 1)).flatten + place.column = reached
    ∧ place.column ≤ width place.line := by
  intro place reached pieces
  have size := width_toList text
  have cuts (cut : List (List Char)) : CutAfterNewlines text.toList cut ↔ cut = pieces :=
    ⟨CutAfterNewlines.eq_lines, fun same => same ▸ lines_cut text.toList⟩
  have found : place = find 1 reached pieces := by
    show find 1 (min offset (width text.toList)) pieces = find 1 reached pieces
    rw [size]
  obtain ⟨before, numbered, on⟩ := @find_on text.toList pieces reached (lines_cut text.toList) 1
    (by omega)
  rw [← found] at numbered on
  have index : place.number - 1 = before := by omega
  have empty : text = "" ↔ text.toList = [] := by simp
  refine ⟨cuts, ?_, ?_, ?_, ?_, on.within⟩
  · rw [numbered, ← bytes_toList, on.newlines]
  · rw [index, on.line]
  · rw [index, on.past, size, empty]
  · rw [index, on.column]

end Place

end JaiTree.Text
