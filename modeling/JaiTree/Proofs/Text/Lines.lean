import JaiTree.Proofs.Text.Words
import JaiTree.Text.Line

/-!
Lines and their ends: how a text is cut into lines where two texts meet, and what is left of a line
without the blanks at its ends.
-/

namespace JaiTree.Text

variable {a b : List Char}

theorem lines_newline (a b : List Char) :
    lines (a ++ '\n' :: b) = lines (a ++ ['\n']) ++ lines b := by
  induction a with
  | nil => simp [lines]
  | cons c cs ih =>
    rw [List.cons_append, List.cons_append, lines, lines, ih]
    split
    · simp
    · cases parts : lines (cs ++ ['\n']) with
      | nil =>
        have whole := flatten_lines (cs ++ ['\n'])
        simp [parts] at whole
      | cons l ls => simp

theorem lines_eq_cons {c : Char} {cs : List Char} : ∃ l ls, lines (c :: cs) = (c :: l) :: ls := by
  rw [lines]
  split
  · exact ⟨[], _, rfl⟩
  · cases lines cs with
    | nil => exact ⟨[], [], rfl⟩
    | cons l ls => exact ⟨l, ls, rfl⟩

/-- A line goes on over what has no line break before it. -/
theorem lines_append {l : List Char} {ls : List (List Char)} (unbroken : '\n' ∉ a)
    (parts : lines b = l :: ls) : lines (a ++ b) = (a ++ l) :: ls := by
  induction a with
  | nil => exact parts
  | cons c cs ih =>
    simp only [List.mem_cons, not_or] at unbroken
    rw [List.cons_append, lines, if_neg (Ne.symm unbroken.1), ih unbroken.2]
    rfl

theorem lines_unbroken (unbroken : '\n' ∉ a) (some_char : a ≠ []) : lines a = [a] := by
  induction a with
  | nil => exact absurd rfl some_char
  | cons c cs ih =>
    simp only [List.mem_cons, not_or] at unbroken
    rw [lines, if_neg (Ne.symm unbroken.1)]
    cases cs with
    | nil => rfl
    | cons d ds => rw [ih unbroken.2 (List.cons_ne_nil d ds)]

/-- A text begins with lines that end, and goes on with a part of a line. -/
theorem exists_last_line (a : List Char) :
    ∃ before last, a = before ++ last ∧ '\n' ∉ last ∧ (∀ c ∈ before.getLast?, c = '\n')
      ∧ ∀ b, lines (a ++ b) = lines before ++ lines (last ++ b) := by
  induction a with
  | nil => exact ⟨[], [], rfl, by simp, by simp, fun b => rfl⟩
  | cons c cs ih =>
    obtain ⟨before, last, rfl, unbroken, ends, parts⟩ := ih
    by_cases broken : c = '\n'
    · subst broken
      refine ⟨'\n' :: before, last, rfl, unbroken, ?_, fun b => ?_⟩
      · cases before with
        | nil => simp
        | cons d ds => rwa [List.getLast?_cons_cons]
      · rw [List.cons_append, lines, if_pos rfl, parts, lines, if_pos rfl, List.cons_append]
    · cases before with
      | nil =>
        refine ⟨[], c :: last, rfl, ?_, by simp, fun b => rfl⟩
        simp [Ne.symm broken, unbroken]
      | cons d ds =>
        refine ⟨c :: d :: ds, last, rfl, unbroken, ?_, fun b => ?_⟩
        · rwa [List.getLast?_cons_cons]
        have rest : lines (d :: (ds ++ last) ++ b) = _ := parts b
        obtain ⟨l, ls, first⟩ := @lines_eq_cons d ds
        have whole : lines (c :: d :: ds) = (c :: d :: l) :: ls := by
          rw [lines, if_neg broken, first]
        rw [first] at rest
        rw [List.cons_append, List.cons_append, lines, if_neg broken, rest, whole]
        rfl

theorem exists_trimEnd (text : List Char) :
    ∃ blanks, text = trimEnd text ++ blanks ∧ ∀ c ∈ blanks, isBlank c = true := by
  refine ⟨(text.reverse.takeWhile isBlank).reverse, ?_, ?_⟩
  · rw [trimEnd, ← List.reverse_append, List.takeWhile_append_dropWhile, List.reverse_reverse]
  · intro c member
    exact List.all_eq_true.mp List.all_takeWhile c (List.mem_reverse.mp member)

theorem isPrefix_trimEnd (text : List Char) : trimEnd text <+: text := by
  obtain ⟨blanks, whole, -⟩ := exists_trimEnd text
  exact ⟨blanks, whole.symm⟩

theorem trimEnd_append {blanks : List Char} (blank : ∀ c ∈ blanks, isBlank c = true)
    (text : List Char) : trimEnd (text ++ blanks) = trimEnd text := by
  rw [trimEnd, List.reverse_append, List.dropWhile_append_of_pos (by simpa using blank), trimEnd]

theorem trim_append {blanks : List Char} (blank : ∀ c ∈ blanks, isBlank c = true)
    (text : List Char) : trim (text ++ blanks) = trim text := by
  rw [trim, List.dropWhile_append]
  split
  · next none =>
    rw [trim, List.isEmpty_iff.mp none, List.dropWhile_eq_nil_iff.mpr blank]
  · rw [trimEnd_append blank, trim]

theorem trimEnd_trimEnd (text : List Char) : trimEnd (trimEnd text) = trimEnd text := by
  obtain ⟨blanks, whole, blank⟩ := exists_trimEnd text
  have same := trimEnd_append blank (trimEnd text)
  rw [← whole] at same
  exact same.symm

theorem trim_trimEnd (text : List Char) : trim (trimEnd text) = trim text := by
  obtain ⟨blanks, whole, blank⟩ := exists_trimEnd text
  have same := trim_append blank (trimEnd text)
  rw [← whole] at same
  exact same.symm

/-- What is left of a text that holds more than blanks ends with no blank. -/
theorem exists_trimEnd_eq {text : List Char} {c : Char} (member : c ∈ text)
    (seen : isBlank c = false) : ∃ before last, trimEnd text = before ++ [last]
      ∧ isBlank last = false := by
  rw [trimEnd]
  cases rest : text.reverse.dropWhile isBlank with
  | nil =>
    have whole := List.takeWhile_append_dropWhile (p := isBlank) (l := text.reverse)
    rw [rest, List.append_nil] at whole
    rw [← List.mem_reverse, ← whole] at member
    have blank := List.all_eq_true.mp List.all_takeWhile c member
    rw [seen] at blank
    cases blank
  | cons d ds => exact ⟨ds.reverse, d, List.reverse_cons, not_of_dropWhile_eq_cons rest⟩

/-- What is no blank is left, with all that comes before it. -/
theorem length_trimEnd_append (a : List Char) {c : Char} (b : List Char)
    (seen : isBlank c = false) : a.length < (trimEnd (a ++ c :: b)).length := by
  rw [trimEnd, List.reverse_append, List.reverse_cons, List.append_assoc, List.dropWhile_append]
  split
  · simp [seen]
  · simp

theorem mem_trim {text : List Char} {c : Char} (member : c ∈ text) (seen : isBlank c = false) :
    c ∈ trim text := by
  have out {blanks : List Char} (all : ∀ d ∈ blanks, isBlank d = true) : c ∉ blanks := by
    intro among
    rw [all c among] at seen
    cases seen
  have begins : c ∈ text.dropWhile isBlank := by
    rw [← List.takeWhile_append_dropWhile (p := isBlank) (l := text)] at member
    exact (List.mem_append.mp member).resolve_left (out (List.all_eq_true.mp List.all_takeWhile))
  obtain ⟨blanks, whole, all⟩ := exists_trimEnd (text.dropWhile isBlank)
  rw [whole] at begins
  exact (List.mem_append.mp begins).resolve_right (out all)

theorem mem_of_mem_trim {text : List Char} {c : Char} (member : c ∈ trim text) : c ∈ text := by
  have among := (List.dropWhile_sublist isBlank).subset (List.mem_reverse.mp member)
  exact (List.dropWhile_sublist isBlank).subset (List.mem_reverse.mp among)

theorem isNameChar_of_isName {text : List Char} (isName_text : isName text = true) :
    ∀ c ∈ text, isNameChar c = true := by
  intro c member
  rw [← name_of_isName isName_text] at member
  exact isNameChar_of_mem_name member

end JaiTree.Text
