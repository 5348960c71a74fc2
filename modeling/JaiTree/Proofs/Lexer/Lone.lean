import JaiTree.Proofs.Lexer.Fit
import JaiTree.Proofs.Text.Ahead
import JaiTree.Proofs.Text.Lines

/-!
Here-strings with a comment behind them: among blanks it changes nothing, unless it stands on the
line of what is taken for a wrong closing name. Main statement: `HereString.pieces_comment`.
-/

namespace JaiTree.Lexer

open Text

/-- An empty comment. -/
def Comment.empty : List Char := ['/', '*', '*', '/']

theorem Comment.not_isNameChar_of_mem {c : Char} (member : c ∈ empty) : isNameChar c = false := by
  simp only [empty, List.mem_cons, List.not_mem_nil, or_false] at member
  rcases member with rfl | rfl | rfl | rfl
  all_goals decide

theorem Comment.not_isBlank_of_head (rest : List Char) :
    ∀ c ∈ (empty ++ rest).head?, isBlank c = false := by
  rintro c ⟨⟩
  decide

namespace HereString

theorem lastLoneName_append (offset : Nat) (a b : List (List Char)) :
    lastLoneName offset (a ++ b)
      = (lastLoneName (offset + a.flatten.length) b).or (lastLoneName offset a) := by
  induction a generalizing offset with
  | nil => simp [lastLoneName]
  | cons l ls ih =>
    rw [List.cons_append, lastLoneName, ih, lastLoneName, List.flatten_cons, List.length_append,
      Nat.add_assoc]
    cases lastLoneName (offset + (l.length + ls.flatten.length)) b with
    | some found => rfl
    | none => rfl

theorem lastLoneName_single (offset : Nat) (l : List Char) :
    lastLoneName offset [l]
      = if isName (trim l) then some (trim l, offset + (trimEnd l).length) else none := rfl

theorem le_of_lastLoneName {offset size : Nat} {lines : List (List Char)} {found : List Char}
    (h : lastLoneName offset lines = some (found, size)) : offset ≤ size := by
  induction lines generalizing offset with
  | nil => cases h
  | cons l ls ih =>
    rw [lastLoneName] at h
    split at h
    · next later =>
      cases h
      have above := ih later
      omega
    · split at h
      · cases h
        omega
      · cases h

/-- Whether a line is found does not depend on where the first of them begins. -/
theorem lastLoneName_offset {offset : Nat} {lines : List (List Char)}
    (unfound : lastLoneName offset lines = none) (other : Nat) :
    lastLoneName other lines = none := by
  induction lines generalizing offset other with
  | nil => rfl
  | cons l ls ih =>
    rw [lastLoneName] at unfound ⊢
    split at unfound
    · cases unfound
    · next later =>
      rw [ih later]
      split at unfound
      · cases unfound
      · next unnamed => simp [unnamed]

theorem not_isName_trim {l : List Char} {c : Char} (member : c ∈ l) (seen : isBlank c = false)
    (stop : isNameChar c = false) : isName (trim l) = false := by
  cases named : isName (trim l) with
  | false => rfl
  | true =>
    rw [isNameChar_of_isName named c (mem_trim member seen)] at stop
    cases stop

theorem lastLoneName_eq_none {offset : Nat} {lines : List (List Char)}
    (stop : ∀ c ∈ lines.flatten, isNameChar c = false) : lastLoneName offset lines = none := by
  induction lines generalizing offset with
  | nil => rfl
  | cons l ls ih =>
    rw [List.flatten_cons, List.forall_mem_append] at stop
    have unnamed : isName (trim l) = false := by
      cases named : isName (trim l) with
      | false => rfl
      | true =>
        cases parts : trim l with
        | nil => simp [parts, isName] at named
        | cons c cs =>
          have member : c ∈ trim l := parts ▸ List.mem_cons_self
          have continues := isNameChar_of_isName named c member
          rw [stop.1 c (mem_of_mem_trim member)] at continues
          cases continues
    rw [lastLoneName, ih stop.2]
    simp [unnamed]

section

variable {blanks post : List Char} (some_blank : blanks ≠ [])
  (stop : ∀ c ∈ post.head?, isBlank c = false)

theorem slash_mem (last blanks after : List Char) :
    '/' ∈ last ++ (blanks ++ (Comment.empty ++ after)) := by
  simp [Comment.empty]

include some_blank stop in
/-- A line that a comment is put into holds no lone name, and neither does one whose lone name would
stand behind the blanks. -/
theorem lastLoneName_line {offset : Nat} {last : List Char} (unbroken : '\n' ∉ last)
    (unbroken' : '\n' ∉ blanks)
    (within : ∀ found size, lastLoneName offset (lines (last ++ (blanks ++ post)))
      = some (found, size) → size ≤ offset + last.length)
    (free : post = [] → ∀ found size, lastLoneName offset (lines (last ++ blanks))
      = some (found, size) → ∃ c ∈ last.drop (size - offset), isBlank c = false) :
    lastLoneName offset (lines (last ++ (blanks ++ post))) = none
      ∧ lastLoneName offset (lines (last ++ (blanks ++ (Comment.empty ++ (blanks ++ post)))))
        = none := by
  have whole : '\n' ∉ last ++ blanks := by simp [unbroken, unbroken']
  have comment : '\n' ∉ last ++ (blanks ++ (Comment.empty ++ blanks)) := by
    simp [unbroken, unbroken', Comment.empty]
  have unnamed (after : List Char) :
      isName (trim (last ++ (blanks ++ (Comment.empty ++ after)))) = false :=
    not_isName_trim (slash_mem last blanks after) (by decide) (by decide)
  cases post with
  | nil =>
    rw [List.append_nil] at within ⊢
    rw [lines_unbroken whole (by simp [some_blank])] at within free ⊢
    rw [lines_unbroken comment (by simp [some_blank]), lastLoneName_single, lastLoneName_single,
      unnamed]
    refine ⟨?_, rfl⟩
    rw [lastLoneName_single] at free
    split
    · next lone =>
      obtain ⟨c, member, seen⟩ := free rfl _ _ (if_pos lone)
      obtain ⟨behind, parts, all⟩ := exists_trimEnd (last ++ blanks)
      have among : c ∈ (trimEnd (last ++ blanks) ++ behind).drop
          (trimEnd (last ++ blanks)).length := by
        rw [Nat.add_sub_cancel_left] at member
        rw [← parts, List.drop_append]
        exact List.mem_append_left _ member
      rw [List.drop_left] at among
      rw [all c among] at seen
      cases seen
    · rfl
  | cons d ds =>
    obtain ⟨l, ls, parts⟩ := @lines_eq_cons d ds
    have seen : isBlank d = false := stop d rfl
    have first := lines_append whole parts
    have second := lines_append comment parts
    simp only [List.append_assoc] at first second
    rw [first] at within ⊢
    have later : lastLoneName (offset + (last ++ (blanks ++ d :: l)).length) ls = none := by
      cases later : lastLoneName (offset + (last ++ (blanks ++ d :: l)).length) ls with
      | none => rfl
      | some found =>
        have above := le_of_lastLoneName later
        have below := within found.1 found.2 (by rw [lastLoneName, later])
        simp only [List.length_append, List.length_cons] at above
        omega
    rw [lastLoneName, later] at within
    rw [second, lastLoneName, later, lastLoneName, lastLoneName_offset later, unnamed]
    refine ⟨?_, rfl⟩
    dsimp only at within ⊢
    split
    · next lone =>
      have below := within _ _ (if_pos lone)
      have above := length_trimEnd_append (last ++ blanks) l seen
      rw [List.append_assoc, List.length_append] at above
      omega
    · rfl

include some_blank stop in
/-- The last lone name does not depend on a comment among blanks behind it, on another line. -/
theorem lastLoneName_comment (blank : ∀ c ∈ blanks, isBlank c = true) {offset : Nat}
    {before : List Char}
    (within : ∀ found size, lastLoneName offset (lines (before ++ (blanks ++ post)))
      = some (found, size) → size ≤ offset + before.length)
    (free : post = [] → '\n' ∉ blanks → ∀ found size,
      lastLoneName offset (lines (before ++ blanks)) = some (found, size) →
        ∃ c ∈ before.drop (size - offset), isBlank c = false) :
    lastLoneName offset (lines (before ++ (blanks ++ (Comment.empty ++ (blanks ++ post)))))
      = lastLoneName offset (lines (before ++ (blanks ++ post))) := by
  by_cases broken : '\n' ∈ blanks
  · -- The line that ends among the blanks ends before the comment as well.
    obtain ⟨u, v, rfl⟩ := List.append_of_mem broken
    have first := lines_newline (before ++ u) (v ++ post)
    have second := lines_newline (before ++ u)
      (v ++ (Comment.empty ++ (u ++ '\n' :: (v ++ post))))
    have third := lines_newline (v ++ (Comment.empty ++ u)) (v ++ post)
    have size := congrArg List.length (flatten_lines (before ++ (u ++ ['\n'])))
    have stop : ∀ c ∈ (lines (v ++ (Comment.empty ++ (u ++ ['\n'])))).flatten,
        isNameChar c = false := by
      rw [flatten_lines]
      intro c member
      simp only [List.mem_append, List.mem_singleton] at member
      rcases member with member | member | member | rfl
      · exact not_isNameChar_of_isBlank (blank c (by simp [member]))
      · exact Comment.not_isNameChar_of_mem member
      · exact not_isNameChar_of_isBlank (blank c (by simp [member]))
      · decide
    simp only [List.append_assoc, List.cons_append] at first second third within ⊢
    rw [first, lastLoneName_append, size] at within
    have later : lastLoneName (offset + (before ++ (u ++ ['\n'])).length) (lines (v ++ post))
        = none := by
      cases later : lastLoneName (offset + (before ++ (u ++ ['\n'])).length)
          (lines (v ++ post)) with
      | none => rfl
      | some found =>
        have above := le_of_lastLoneName later
        have below := within found.1 found.2 (by rw [later]; rfl)
        simp only [List.length_append, List.length_cons] at above
        omega
    rw [first, second, third, lastLoneName_append, lastLoneName_append, lastLoneName_append, size,
      later, lastLoneName_offset later, lastLoneName_eq_none stop]
    rfl
  · obtain ⟨earlier, last, rfl, unbroken, -, parts⟩ := exists_last_line before
    have length := congrArg List.length (flatten_lines earlier)
    rw [parts, lastLoneName_append, length] at within
    have line := @lastLoneName_line blanks post some_blank stop (offset + earlier.length) last
      unbroken broken (fun found size line => ?_) (fun ended found size line => ?_)
    · rw [parts, parts, lastLoneName_append, lastLoneName_append, length, line.1, line.2]
    · have below := within found size (by rw [line]; rfl)
      rw [List.length_append] at below
      omega
    · have above := le_of_lastLoneName line
      obtain ⟨c, member, seen⟩ := free ended broken found size (by
        rw [parts, lastLoneName_append, length, line]
        rfl)
      rw [List.drop_append, List.drop_eq_nil_of_le (by omega), List.nil_append,
        Nat.sub_sub] at member
      exact ⟨c, member, seen⟩

/-- The first line of a body without an end is to blame, whatever else is. -/
theorem firstLine_le (delimiter body : List Char) :
    (body.takeWhile (· != '\n')).length ≤ (unclosed delimiter body).2 := by
  rw [unclosed]
  dsimp only
  split
  · exact Nat.le_refl _
  · split
    · next found => exact le_of_lastLoneName found
    · exact Nat.le_refl _

include some_blank stop in
/-- What is to blame for a here-string without an end does not depend on a comment among blanks
behind it, unless that stands on the line of what is taken for a wrong closing name. -/
theorem unclosed_comment (blank : ∀ c ∈ blanks, isBlank c = true) {delimiter before : List Char}
    (within : (unclosed delimiter (before ++ (blanks ++ post))).2 ≤ before.length)
    (free : post = [] → '\n' ∉ blanks →
      (∃ found, (unclosed delimiter (before ++ (blanks ++ post))).1
        = .mismatchedHereString (String.ofList delimiter) found) →
      ∃ c ∈ before.drop (unclosed delimiter (before ++ (blanks ++ post))).2, isBlank c = false) :
    unclosed delimiter (before ++ (blanks ++ (Comment.empty ++ (blanks ++ post))))
      = unclosed delimiter (before ++ (blanks ++ post)) := by
  obtain ⟨c, cs, rfl⟩ := List.exists_cons_of_ne_nil some_blank
  have first := Nat.le_trans (firstLine_le delimiter _) within
  have same := takeWhile_ahead (cs ++ (Comment.empty ++ (c :: cs ++ post))) first
  simp only [List.cons_append] at same first within free ⊢
  rw [unclosed] at within free ⊢
  rw [unclosed, same]
  generalize ended : List.takeWhile _ (before ++ c :: (cs ++ post)) = line at first within free ⊢
  dsimp only at within free ⊢
  rw [List.drop_append_of_le_length first] at within free ⊢
  rw [List.drop_append_of_le_length first]
  by_cases mismatch : (!(lastName line).isEmpty && lastName line != delimiter) = true
  · rw [if_pos mismatch, if_pos mismatch]
  · rw [if_neg mismatch] at within free ⊢
    rw [if_neg mismatch]
    have lone := @lastLoneName_comment (c :: cs) post some_blank stop blank line.length
      (before.drop line.length) (fun found size holds => ?_)
      (fun ended broken found size holds => ?_)
    · simp only [List.cons_append] at lone
      rw [lone]
    · simp only [List.cons_append] at holds
      rw [holds] at within
      rw [List.length_drop]
      dsimp only at within
      omega
    · subst ended
      rw [List.append_nil, holds] at free
      obtain ⟨d, member, seen⟩ := free rfl broken ⟨_, rfl⟩
      refine ⟨d, ?_, seen⟩
      have above := le_of_lastLoneName holds
      rw [List.drop_drop, Nat.add_sub_cancel' above]
      exact member

/-- A lone name ends with no blank. -/
theorem lastLoneName_ends {offset size : Nat} {lines : List (List Char)} {found : List Char}
    (h : lastLoneName offset lines = some (found, size)) :
    ∃ before last, lines.flatten.take (size - offset) = before ++ [last]
      ∧ isBlank last = false := by
  induction lines generalizing offset with
  | nil => cases h
  | cons l ls ih =>
    rw [lastLoneName] at h
    rw [List.flatten_cons, List.take_append]
    split at h
    · next later =>
      cases h
      have above := le_of_lastLoneName later
      obtain ⟨before, last, ends, seen⟩ := ih later
      refine ⟨l ++ before, last, ?_, seen⟩
      rw [List.take_of_length_le (by omega), Nat.sub_sub, ends, List.append_assoc]
    · split at h
      · next lone =>
        cases h
        obtain ⟨behind, parts, -⟩ := exists_trimEnd l
        have begins : trimEnd l <+: l := ⟨behind, parts.symm⟩
        cases line : trim l with
        | nil => simp [isName, line] at lone
        | cons c cs =>
          have member : c ∈ trim l := line ▸ List.mem_cons_self
          have named := isNameChar_of_isName lone c member
          have seen := not_isBlank_of_isNameChar named
          obtain ⟨before, last, ends, other⟩ := exists_trimEnd_eq (mem_of_mem_trim member) seen
          refine ⟨before, last, ?_, other⟩
          rw [Nat.add_sub_cancel_left, ← List.prefix_iff_eq_take.mp begins,
            Nat.sub_eq_zero_of_le begins.length_le, List.take_zero, List.append_nil, ends]
      · cases h

omit stop in
include some_blank in
/-- On the line of a comment nothing is to blame up to the blanks before it. -/
theorem unclosed_size_ne (unbroken : '\n' ∉ blanks) (delimiter before : List Char) :
    (unclosed delimiter (before ++ (blanks ++ (Comment.empty ++ blanks)))).2 ≠ before.length := by
  obtain ⟨c, cs, rfl⟩ := List.exists_cons_of_ne_nil some_blank
  generalize comment : Comment.empty ++ c :: cs = behind
  have whole : '\n' ∉ c :: cs ++ behind := by
    simp only [← comment, List.mem_append, not_or]
    exact ⟨unbroken, by decide, unbroken⟩
  have slash : '/' ∈ behind := by simp [← comment, Comment.empty]
  have other : c ≠ '\n' := by
    rintro rfl
    simp at unbroken
  -- The first line ends before the blanks or goes on behind them.
  have line : ((before ++ (c :: cs ++ behind)).takeWhile (· != '\n')).length ≠ before.length := by
    rw [List.takeWhile_append]
    split
    · simp [other]
    · assumption
  intro blamed
  rw [unclosed] at blamed
  generalize size : ((before ++ (c :: cs ++ behind)).takeWhile (· != '\n')).length = first
    at line blamed
  dsimp only at blamed
  split at blamed
  · exact line blamed
  split at blamed
  · next found n lone =>
    dsimp only at blamed
    subst blamed
    have above := le_of_lastLoneName lone
    rw [List.drop_append_of_le_length above] at lone
    obtain ⟨earlier, last, rest, unbroken', ends, parts⟩ := exists_last_line (before.drop first)
    have size := congrArg List.length rest
    have length := congrArg List.length (flatten_lines earlier)
    rw [List.length_drop, List.length_append] at size
    have single : lines (last ++ (c :: cs ++ behind)) = [last ++ (c :: cs ++ behind)] :=
      lines_unbroken (by simp only [List.mem_append, not_or] at whole ⊢; exact ⟨unbroken', whole⟩)
        (by simp)
    have unnamed : isName (trim (last ++ (c :: cs ++ behind))) = false :=
      not_isName_trim (c := '/') (by simp [slash]) (by decide) (by decide)
    rw [parts, single, lastLoneName_append, lastLoneName_single, unnamed] at lone
    -- So the name stands on a line before, which ends with a line break.
    have earlier_lone : lastLoneName first (lines earlier) = some (found, before.length) := lone
    have below := lastLoneName_le earlier_lone
    obtain ⟨start, blank, taken, seen⟩ := lastLoneName_ends earlier_lone
    rw [length] at below
    rw [flatten_lines, List.take_of_length_le (by omega)] at taken
    rw [ends blank (by simp [taken])] at seen
    cases seen
  · exact line blamed

end

/-- Where no name stands behind the blanks of a line, none does when the text goes on otherwise
behind some characters and no name begins there. -/
theorem name_behind_indents {a x y : List Char} (unnamed : name ((a ++ x).dropWhile isIndent) = [])
    (unnamed' : name (y.dropWhile isIndent) = []) : name ((a ++ y).dropWhile isIndent) = [] := by
  rw [List.dropWhile_append] at unnamed ⊢
  cases rest : a.dropWhile isIndent with
  | nil => simpa using unnamed'
  | cons d ds =>
    rw [rest] at unnamed
    by_cases starts : isNameStart d = true
    · simp [name, starts] at unnamed
    · simp [name, starts]

/-- Behind the blanks of a line stands a name, and what follows it. -/
theorem exists_name {rest : List Char} (some_name : name (rest.dropWhile isIndent) ≠ []) :
    ∃ gap delimiter body, rest = gap ++ (delimiter ++ body) ∧ (∀ c ∈ gap, isIndent c = true)
      ∧ delimiter ≠ [] ∧ name (delimiter ++ body) = delimiter := by
  obtain ⟨body, same⟩ := isPrefix_name (rest.dropWhile isIndent)
  refine ⟨rest.takeWhile isIndent, name (rest.dropWhile isIndent), body, ?_,
    List.all_eq_true.mp List.all_takeWhile, some_name, congrArg name same⟩
  rw [same, List.takeWhile_append_dropWhile]

/-- Of two splits of a text the one that is not longer parts the other. -/
theorem exists_behind {first second a b : List Char} (same : a ++ b = first ++ second)
    (short : first.length ≤ a.length) : ∃ e, a = first ++ e ∧ second = e ++ b := by
  obtain ⟨e, rfl⟩ : first <+: a :=
    List.prefix_of_prefix_length_le ⟨second, same.symm⟩ (List.prefix_append a b) short
  rw [List.append_assoc, List.append_cancel_left_eq] at same
  exact ⟨e, rfl, same.symm⟩

section

variable {word gap delimiter body : List Char}

theorem pieces_bare {rest : List Char} (unnamed : name (rest.dropWhile isIndent) = []) :
    pieces word.length (word ++ rest)
      = [{ kind := .directive .string, size := word.length }] := by
  rw [← drop_length_takeWhile] at unnamed
  rw [pieces, List.drop_left]
  dsimp only
  rw [unnamed]
  rfl

variable (indents : ∀ c ∈ gap, isIndent c = true) (named : name (delimiter ++ body) = delimiter)
  (some_name : delimiter ≠ [])
include indents named some_name

theorem pieces_named :
    pieces word.length (word ++ (gap ++ (delimiter ++ body)))
      = match findWord delimiter none body with
        | some content =>
          List.filter (fun p => p.size != 0)
            [{ kind := .directive .string, size := word.length },
             { kind := .whitespace, size := gap.length },
             { kind := .identifier, size := delimiter.length },
             { kind := .hereStringContent, size := content },
             { kind := .identifier, size := delimiter.length }]
        | none =>
          [.faulty (unclosed delimiter body).1
            (word.length + gap.length + delimiter.length + (unclosed delimiter body).2)] := by
  have some_head : name (delimiter ++ body) ≠ [] := by rwa [named]
  obtain ⟨c, cs, same, starts, -⟩ := name_eq_cons some_head
  have ends := not_isIndent_of_isNameChar (isNameChar_of_isNameStart starts)
  have taken : (gap ++ (delimiter ++ body)).takeWhile isIndent = gap := by
    rw [List.takeWhile_append_of_pos indents, same, List.takeWhile_cons_of_neg (by simp [ends]),
      List.append_nil]
  have unempty : delimiter.isEmpty = false := by simpa using some_name
  rw [pieces, List.drop_left, taken]
  cases found : findWord delimiter none body
  all_goals simp [← List.drop_drop, named, unempty, found]

/-- The name is cut off with all that comes before it. -/
theorem named_le :
    word.length + gap.length + delimiter.length
      ≤ Piece.total (pieces word.length (word ++ (gap ++ (delimiter ++ body)))) := by
  rw [pieces_named indents named some_name]
  split
  · rw [Piece.total_filter]
    simp only [Piece.total_cons]
    omega
  · simp only [Piece.faulty, Piece.total_cons]
    omega

end

variable {blanks post : List Char} (some_blank : blanks ≠ [])
  (stop : ∀ c ∈ post.head?, isBlank c = false) (blank : ∀ c ∈ blanks, isBlank c = true)

include some_blank blank in
/-- A comment among blanks brings no name into a text. -/
theorem findWord_comment {word e : List Char} {before : Option Char} (some_name : word ≠ [])
    (seen : ∀ d ∈ word, isNameChar d = true)
    (unfound : findWord word before (e ++ (blanks ++ post)) = none) :
    findWord word before (e ++ (blanks ++ (Comment.empty ++ (blanks ++ post)))) = none := by
  obtain ⟨c, cs, rfl⟩ := List.exists_cons_of_ne_nil some_blank
  have out {d : Char} (other : isNameChar d = false) : d ∉ word := by
    intro member
    rw [seen d member] at other
    cases other
  have word_ends := not_isNameChar_of_isBlank (blank c List.mem_cons_self)
  obtain ⟨first, later⟩ := (findWord_eq_none_iff (out word_ends) some_name).mp unfound
  refine (findWord_eq_none_iff (out word_ends) some_name).mpr ⟨first, ?_⟩
  have second := @findWord_eq_none_iff (cs ++ Comment.empty) (cs ++ post) c word (some c)
    (out word_ends) some_name
  rw [List.append_assoc, List.append_assoc] at second
  refine second.mpr ⟨findWord_eq_none some_name fun d member => out ?_, later⟩
  simp only [List.mem_append, List.mem_singleton] at member
  rcases member with member | member | rfl
  · exact not_isNameChar_of_isBlank (blank d (List.mem_cons_of_mem c member))
  · exact Comment.not_isNameChar_of_mem member
  · exact word_ends

include some_blank stop blank in
/-- A here-string does not depend on a comment among blanks behind it, unless that stands on the
line of what is taken for a wrong closing name. -/
theorem pieces_comment {word a : List Char}
    (within : Piece.total (pieces word.length (word ++ (a ++ (blanks ++ post))))
      ≤ word.length + a.length)
    (free : post = [] → '\n' ∉ blanks →
      (∃ p ∈ pieces word.length (word ++ (a ++ (blanks ++ post))), ∃ delimiter found,
        p.error = some (.mismatchedHereString delimiter found)) →
      ∃ c ∈ (word ++ a).drop (Piece.total (pieces word.length (word ++ (a ++ (blanks ++ post))))),
        isBlank c = false) :
    pieces word.length (word ++ (a ++ (blanks ++ (Comment.empty ++ (blanks ++ post)))))
      = pieces word.length (word ++ (a ++ (blanks ++ post))) := by
  by_cases bare : name ((a ++ (blanks ++ post)).dropWhile isIndent) = []
  · rw [pieces_bare bare, pieces_bare]
    rw [← List.append_assoc] at bare ⊢
    exact name_behind_indents bare rfl
  obtain ⟨gap, delimiter, body, whole, indents, some_name, named⟩ := exists_name bare
  have below := @named_le word gap delimiter body indents named some_name
  rw [whole] at within free ⊢
  obtain ⟨e, rfl, rfl⟩ : ∃ e, a = gap ++ delimiter ++ e ∧ body = e ++ (blanks ++ post) := by
    refine exists_behind (by rw [whole, List.append_assoc]) ?_
    rw [List.length_append]
    omega
  rw [List.append_assoc gap] at within free ⊢
  obtain ⟨c, cs, rfl⟩ := List.exists_cons_of_ne_nil some_blank
  have seen : ∀ d ∈ delimiter, isNameChar d = true :=
    fun d member => isNameChar_of_mem_name (named ▸ member)
  have out {d : Char} (other : isNameChar d = false) : d ∉ delimiter := by
    intro member
    rw [seen d member] at other
    cases other
  have word_ends := not_isNameChar_of_isBlank (blank c List.mem_cons_self)
  have named' (y : List Char) : name (delimiter ++ (e ++ c :: y)) = delimiter := by
    have same := name_ahead word_ends (delimiter ++ e) (cs ++ post) y
    simp only [List.append_assoc] at same
    rw [same]
    exact named
  have comment := @pieces_named word gap delimiter _ indents
    (named' (cs ++ (Comment.empty ++ (c :: cs ++ post)))) some_name
  rw [pieces_named indents named some_name] at within free ⊢
  simp only [List.append_assoc, List.cons_append] at comment within free ⊢
  rw [comment]
  cases found : findWord delimiter none (e ++ c :: (cs ++ post)) with
  | some content =>
    rw [found, Piece.total_filter] at within
    simp only [Piece.total_cons, List.length_append] at within
    rw [findWord_ahead (out word_ends) some_name found (by omega)]
  | none =>
    rw [found] at within free
    dsimp only [Piece.faulty] at within free
    simp only [Piece.total_cons, Piece.total_nil, List.length_append] at within free
    have unfound := findWord_comment some_blank blank some_name seen found
    simp only [List.cons_append] at unfound
    have blamed := @unclosed_comment (c :: cs) post some_blank stop blank delimiter e ?_ ?_
    · simp only [List.cons_append] at blamed
      rw [unfound, blamed]
    · simp only [List.cons_append]
      omega
    · intro ended broken ⟨found, cause⟩
      simp only [List.cons_append] at cause ⊢
      obtain ⟨d, member, other⟩ := free ended broken ⟨_, List.mem_singleton_self _, _, _,
        congrArg some cause⟩
      refine ⟨d, ?_, other⟩
      rw [Nat.add_zero, Nat.add_assoc, Nat.add_assoc, ← List.drop_drop, List.drop_left,
        ← List.drop_drop, List.drop_left, ← List.drop_drop, List.drop_left] at member
      exact member

end HereString

end JaiTree.Lexer
