import JaiTree.Proofs.Lexer.Features
import JaiTree.Proofs.Lexer.Enclosed
import JaiTree.Proofs.Text.Positions

/-!
Truncated text: what is read at the head of a text is read there again where the text is cut right
behind it. Main statements: `Number.size_take`, `HereString.unclosed_take`.
-/

namespace JaiTree.Lexer

open Text

namespace Number

variable {text : List Char}

/-- An exponent is read again where the text is cut anywhere behind it. -/
theorem exponentSize_take {n : Nat} (within : exponentSize text ≤ n) :
    exponentSize (text.take n) = exponentSize text := by
  match text, n with
  | [], n => rw [List.take_nil]
  | c :: cs, 0 => exact (Nat.le_zero.mp within).symm
  | c :: cs, n + 1 =>
    rw [List.take_succ_cons]
    rw [exponentSize] at within ⊢
    rw [exponentSize]
    split
    · next mark =>
      rw [if_pos mark] at within
      dsimp only at within ⊢
      generalize signed : (if cs.head? = some '+' || cs.head? = some '-' then 1 else 0) = sign
        at within ⊢
      cases n with
      | zero =>
        -- Cut behind its letter, there was no exponent: one would take more.
        split at within
        · next none => simp [none]
        · omega
      | succ n =>
        rw [List.head?_take, if_neg (Nat.succ_ne_zero n), signed, List.drop_take,
          ← List.take_takeWhile, List.length_take]
        split at within
        · next none => simp [none]
        · rw [Nat.min_eq_right (by omega)]
    · rfl

/-- What follows the whole part is read again where the text is cut right behind it. -/
theorem fractionSize_take (text : List Char) :
    fractionSize (text.take (fractionSize text)) = fractionSize text := by
  by_cases point : text.head? = some '.'
  · obtain ⟨cs, rfl⟩ := List.head?_eq_some_iff.mp point
    by_cases range : cs.head? = some '.'
    · obtain ⟨ds, rfl⟩ := List.head?_eq_some_iff.mp range
      rfl
    · have single (n : Nat) : (cs.take n).head? ≠ some '.' :=
        fun point => range (head?_of_head?_take point)
      rw [fractionSize_point range, Nat.add_assoc, Nat.add_comm 1, List.take_succ_cons,
        fractionSize_point (single _), takeWhile_take (Nat.le_add_right _ _), List.drop_take,
        Nat.add_sub_cancel_left, exponentSize_take (Nat.le_refl _)]
      omega
  · have other : (text.take (exponentSize text)).head? ≠ some '.' :=
      fun again => point (head?_of_head?_take again)
    rw [fractionSize_other point, fractionSize_other other, exponentSize_take (Nat.le_refl _)]

theorem decimalSize_take (text : List Char) :
    decimalSize (text.take (decimalSize text)) = decimalSize text := by
  rw [decimalSize, decimalSize, takeWhile_take (Nat.le_add_right _ _), List.drop_take,
    Nat.add_sub_cancel_left, fractionSize_take]

/-- A number in another base is read again, and so is the zero before a mark that no digit of the
base follows. -/
theorem size_based_take {isDigit : Char → Bool} {mark : Char}
    (based : ∀ cs, size ('0' :: mark :: cs) = basedSize isDigit ('0' :: mark :: cs))
    (zero : ∀ cs, decimalSize ('0' :: mark :: cs) = 1) (cs : List Char) :
    size (('0' :: mark :: cs).take (size ('0' :: mark :: cs))) = size ('0' :: mark :: cs) := by
  rw [based, basedSize, zero, List.drop_succ_cons, List.drop_succ_cons, List.drop_zero]
  split
  · rfl
  · next some_digit =>
    rw [Nat.add_comm 2, List.take_succ_cons, List.take_succ_cons, based, basedSize,
      List.drop_succ_cons, List.drop_succ_cons, List.drop_zero, takeWhile_take (Nat.le_refl _),
      if_neg some_digit, Nat.add_comm]

/-- A number is read again where the text is cut right behind it. -/
theorem size_take (text : List Char) : size (text.take (size text)) = size text := by
  by_cases binary : ∃ cs, text = '0' :: 'b' :: cs
  · obtain ⟨cs, rfl⟩ := binary
    exact size_based_take (fun cs => rfl) (fun cs => rfl) cs
  by_cases hexadecimal : ∃ cs, text = '0' :: 'x' :: cs
  · obtain ⟨cs, rfl⟩ := hexadecimal
    exact size_based_take (fun cs => rfl) (fun cs => rfl) cs
  · have other (n : Nat) : ∀ e cs, text.take n = '0' :: e :: cs → e ≠ 'b' ∧ e ≠ 'x' := by
      intro e cs same
      obtain ⟨rest, whole⟩ := List.take_prefix n text
      rw [same] at whole
      constructor
      · rintro rfl
        exact binary ⟨cs ++ rest, whole.symm⟩
      · rintro rfl
        exact hexadecimal ⟨cs ++ rest, whole.symm⟩
    have decimal := size_decimal (other text.length)
    rw [List.take_length] at decimal
    rw [size_decimal (other _), decimal, decimalSize_take]

end Number

namespace Comment

/-- A closing mark is found again where the text is cut right behind it. -/
theorem closing_take {text : List Char} {inner : Nat} (found : closing text = some inner) :
    closing (text.take (inner + 2)) = some inner := by
  induction text generalizing inner with
  | nil => cases found
  | cons c cs ih =>
    have same : ['*', '/'].isPrefixOf ((c :: cs).take (inner + 2))
        = ['*', '/'].isPrefixOf (c :: cs) := isPrefixOf_take (Nat.le_add_left 2 inner)
    rw [List.take_succ_cons] at same ⊢
    rw [closing] at found ⊢
    rw [same]
    split at found
    · next closes => rwa [if_pos closes]
    · next goes =>
      obtain ⟨rest, later, rfl⟩ := Option.map_eq_some_iff.mp found
      rw [if_neg goes, ih later]
      rfl

theorem blockKind_take {text : List Char} {n : Nat} (marked : 4 ≤ n) :
    blockKind (text.take n) = blockKind text := by
  have short : 3 ≤ n := Nat.le_of_succ_le marked
  rw [blockKind, blockKind, isPrefixOf_take short, isPrefixOf_take marked]

end Comment

namespace HereString

variable {text l rest : List Char} {pieces : List (List Char)} {offset size : Nat}
  {found : List Char}

/-- A lone name at the end of a line is found again where the text is cut right behind it. -/
theorem lastLoneName_line_take (named : isName (trim l) = true) (unbroken : '\n' ∉ trimEnd l)
    (ends : rest ≠ [] → l ≠ trimEnd l) (offset : Nat) :
    lastLoneName offset (lines ((l ++ rest).take (trimEnd l).length))
        = some (trim l, offset + (trimEnd l).length)
      ∧ ∀ c ∈ ((l ++ rest).drop (trimEnd l).length).head?, isBlank c = true := by
  obtain ⟨blanks, whole, blank⟩ := exists_trimEnd l
  have parts : l ++ rest = trimEnd l ++ (blanks ++ rest) := by rw [← List.append_assoc, ← whole]
  have some_char : trimEnd l ≠ [] := by
    intro none
    rw [← trim_trimEnd, none] at named
    cases named
  rw [parts, List.take_left, List.drop_left, lines_unbroken unbroken some_char,
    lastLoneName_single, trim_trimEnd, trimEnd_trimEnd, if_pos named]
  refine ⟨rfl, fun c first => ?_⟩
  cases blanks with
  | nil =>
    rw [List.append_nil] at whole
    cases rest with
    | nil => cases first
    | cons d ds => exact absurd whole (ends (List.cons_ne_nil d ds))
  | cons b bs =>
    cases first
    exact blank _ List.mem_cons_self

/-- What is taken for a wrong closing name is so again where the text is cut right behind it, and a
blank stands there unless the text ends. -/
theorem lastLoneName_take (cut : CutAfterNewlines text pieces)
    (lone : lastLoneName offset pieces = some (found, size)) :
    lastLoneName offset (lines (text.take (size - offset))) = some (found, size)
      ∧ ∀ c ∈ (text.drop (size - offset)).head?, isBlank c = true := by
  -- By induction on the lines: a later lone name is found again behind the first line, which is
  -- kept whole, and where there is none all behind the first line is cut off.
  induction cut generalizing offset with
  | nothing => cases lone
  | @rest line some_char unbroken =>
    rw [lastLoneName_single] at lone
    split at lone
    · next named =>
      cases lone
      have unbroken : '\n' ∉ trimEnd line := fun member =>
        unbroken ((isPrefix_trimEnd line).subset member)
      have again := @lastLoneName_line_take line [] named unbroken (absurd rfl) offset
      rw [List.append_nil] at again
      rwa [Nat.add_sub_cancel_left]
    · cases lone
  | @line body text pieces unbroken cut ih =>
    rw [lastLoneName] at lone
    split at lone
    · next later =>
      cases lone
      have above := le_of_lastLoneName later
      have behind : (body ++ ['\n']).length ≤ size - offset := by omega
      obtain ⟨again, ends⟩ := ih later
      have first (rest : List Char) :
          (body ++ ['\n']) :: lines rest = lines (body ++ ['\n'] ++ rest) :=
        (CutAfterNewlines.line unbroken (lines_cut rest)).eq_lines
      rw [List.take_append, List.take_of_length_le behind, ← first, lastLoneName, Nat.sub_sub,
        again, List.drop_append, List.drop_eq_nil_of_le behind, List.nil_append, Nat.sub_sub]
      exact ⟨rfl, ends⟩
    · split at lone
      · next named =>
        cases lone
        have newline : isBlank '\n' = true := rfl
        have bare : trimEnd (body ++ ['\n']) = trimEnd body :=
          trimEnd_append (List.forall_mem_singleton.mpr newline) body
        have unbroken : '\n' ∉ trimEnd (body ++ ['\n']) := by
          rw [bare]
          exact fun member => unbroken ((isPrefix_trimEnd body).subset member)
        have ends : body ++ ['\n'] ≠ trimEnd (body ++ ['\n']) := by
          intro same
          rw [← same] at unbroken
          simp at unbroken
        have again := @lastLoneName_line_take _ text named unbroken (fun _ => ends) offset
        rwa [Nat.add_sub_cancel_left]
      · cases lone

variable (delimiter body : List Char)

/-- The body of a here-string without an end is to blame in the same way where it is cut right
behind what is to blame, and a blank stands there unless the body ends. -/
theorem unclosed_take :
    unclosed delimiter (body.take (unclosed delimiter body).2) = unclosed delimiter body
      ∧ ∀ c ∈ (body.drop (unclosed delimiter body).2).head?, isBlank c = true := by
  have below := firstLine_le delimiter body
  generalize size : (unclosed delimiter body).2 = n at below ⊢
  have line := takeWhile_take below
  have newline (c : Char) (first : c ∈ (body.dropWhile (· != '\n')).head?) :
      isBlank c = true := by
    have stop := List.head?_dropWhile_not (· != '\n') body
    rw [Option.mem_def.mp first] at stop
    obtain rfl : c = '\n' := by simpa using stop
    rfl
  rw [unclosed] at size ⊢
  rw [unclosed, line, List.drop_take]
  dsimp only at size ⊢
  split at size
  · next wrong =>
    subst size
    rw [if_pos wrong, if_pos wrong, drop_length_takeWhile]
    exact ⟨rfl, newline⟩
  · next right =>
    rw [if_neg right, if_neg right]
    cases lone : lastLoneName (body.takeWhile (· != '\n')).length
        (lines (body.drop (body.takeWhile (· != '\n')).length)) with
    | some pair =>
      obtain ⟨later, last⟩ := pair
      rw [lone] at size
      dsimp only at size
      subst size
      obtain ⟨again, ends⟩ := lastLoneName_take (lines_cut _) lone
      rw [List.drop_drop, Nat.add_sub_cancel' below] at ends
      rw [again]
      exact ⟨rfl, ends⟩
    | none =>
      rw [lone] at size
      dsimp only at size
      subst size
      rw [Nat.sub_self, List.take_zero, drop_length_takeWhile]
      exact ⟨rfl, newline⟩

/-- A here-string sets the same name where its body is cut off somewhere. -/
theorem Named.take {text gap delimiter body : List Char} (sets : Named text gap delimiter body)
    (n : Nat) :
    Named (text.take (Directive.string.spelling.length + gap.length + delimiter.length + n)) gap
      delimiter (body.take n) := by
  have some_gap := sets.gap_ne_nil
  obtain ⟨begins, whole, indents, some_name, named⟩ := sets
  have taken : text.take (Directive.string.spelling.length + gap.length + delimiter.length + n)
      = Directive.string.spelling.toList ++ (gap ++ (delimiter ++ body.take n)) := by
    rw [whole, ← String.length_toList, Nat.add_assoc, Nat.add_assoc, List.take_length_add_append,
      List.take_length_add_append, List.take_length_add_append]
  have again : name (delimiter ++ body.take n) = delimiter := by
    have some_head : name (delimiter ++ body) ≠ [] := by rwa [named]
    have isName_delimiter := isName_name some_head
    rw [named] at isName_delimiter
    refine name_append isName_delimiter ?_
    cases first : (body.take n).head? with
    | none => rfl
    | some c =>
      obtain ⟨cs, rfl⟩ := List.head?_eq_some_iff.mp (head?_of_head?_take first)
      have behind : (delimiter ++ c :: cs).drop (name (delimiter ++ c :: cs)).length = c :: cs := by
        rw [named, List.drop_left]
      exact name_ends some_head behind
  obtain ⟨c, cs, rfl⟩ := List.exists_cons_of_ne_nil some_gap
  refine ⟨?_, taken, indents, some_name, again⟩
  rw [whole, beginsWith_append] at begins
  rw [taken, beginsWith_append]
  exact begins

end HereString

end JaiTree.Lexer
