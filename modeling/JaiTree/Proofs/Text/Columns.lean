import JaiTree.Proofs.Text.Positions

/-!
Columns: where on its line a byte stands that begins a character, told by the text alone: what is
above the line, how the line is indented, and what it holds from there up to the byte. Main
statement: `Parted.ofByte_eq`.
-/

namespace JaiTree.Text

/-- The text parted at a byte that does not stand within the indentation of its line: the lines
above, the indentation, what the line holds between that and the byte, and all from the byte on. -/
structure Parted (text : List Char) (offset : Nat) (above indent between behind : List Char) :
    Prop where
  whole : text = above ++ (indent ++ between) ++ behind
  offset : width (above ++ (indent ++ between)) = offset
  ends : ∀ c ∈ above.getLast?, c = '\n'
  unbroken : '\n' ∉ between
  indents : ∀ c ∈ indent, isIndent c = true
  begins : ∀ c ∈ (between ++ behind).head?, isIndent c = false

/-- The byte stands within the indentation of its line: from the beginning of the line through the
byte there are indents only. -/
def InIndent (text : List Char) (offset : Nat) : Prop :=
  ∃ above indent c behind, text = above ++ indent ++ c :: behind ∧ width (above ++ indent) = offset
    ∧ (∀ d ∈ above.getLast?, d = '\n') ∧ ∀ d ∈ c :: indent, isIndent d = true

/-- The characters up to the end of the line. -/
def lineEnd (text : List Char) : List Char := text.takeWhile fun c => c ≠ '\n'

variable {text above left right indent between behind : List Char} {offset : Nat}

theorem length_le_width (text : List Char) : text.length ≤ width text := by
  induction text with
  | nil => exact Nat.le_refl 0
  | cons c cs ih =>
    have size := c.utf8Size_pos
    rw [List.length_cons, width_cons]
    omega

/-- A text has as many bytes as characters just when all of them are ASCII. -/
theorem width_eq_length_iff (text : List Char) :
    width text = text.length ↔ ∀ c ∈ text, c.toNat < 128 := by
  induction text with
  | nil => simp
  | cons c cs ih =>
    have ascii : c.utf8Size = 1 ↔ c.toNat < 128 := by
      rw [Char.utf8Size_eq_one_iff, UInt32.le_iff_toNat_le]
      exact Nat.lt_succ_iff.symm
    have size := c.utf8Size_pos
    have least := length_le_width cs
    rw [List.forall_mem_cons, ← ih, ← ascii, width_cons, List.length_cons]
    omega

theorem width_of_isIndent (indents : ∀ c ∈ indent, isIndent c = true) :
    width indent = indent.length := by
  rw [width_eq_length_iff]
  intro c member
  have blank := indents c member
  rw [isIndent, Bool.or_eq_true, decide_eq_true_eq, decide_eq_true_eq] at blank
  rcases blank with rfl | rfl
  all_goals decide

theorem not_newline_of_isIndent {c : Char} (indents : isIndent c = true) : c ≠ '\n' := by
  rintro rfl
  cases indents

theorem newline_not_mem_lineEnd (text : List Char) : '\n' ∉ lineEnd text := by
  intro member
  have other := List.all_eq_true.mp List.all_takeWhile '\n' member
  simp at other

/-- Behind lines that have ended, what is cut off first are those lines. -/
theorem lines_behind (ends : ∀ c ∈ above.getLast?, c = '\n') (text : List Char) :
    lines (above ++ text) = lines above ++ lines text := by
  cases last : above.getLast? with
  | none =>
    rw [List.getLast?_eq_none_iff.mp last]
    rfl
  | some c =>
    obtain ⟨body, rfl⟩ := List.getLast?_eq_some_iff.mp last
    have newline := ends c last
    rw [newline, List.append_assoc, List.singleton_append, lines_newline]

/-- The first line of a text is what it holds up to the first newline, and that newline if there is
one. -/
theorem head?_lines (text : List Char) :
    (lines text).head?.getD [] = lineEnd text
      ∨ (lines text).head?.getD [] = lineEnd text ++ ['\n'] := by
  induction text with
  | nil => exact .inl rfl
  | cons c cs ih =>
    by_cases broken : c = '\n'
    · subst broken
      exact .inr rfl
    · have more : lineEnd (c :: cs) = c :: lineEnd cs := by simp [lineEnd, broken]
      rw [more, lines, if_neg broken]
      cases parts : lines cs with
      | nil =>
        have none := flatten_lines cs
        rw [parts] at none
        rw [← none]
        exact .inl rfl
      | cons l ls =>
        rw [parts] at ih
        rcases ih with same | same
        · exact .inl (congrArg (c :: ·) same)
        · exact .inr (congrArg (c :: ·) same)

theorem head?_head_lines (text : List Char) :
    ((lines text).head?.getD []).head? = text.head? := by
  cases text with
  | nil => rfl
  | cons c cs =>
    obtain ⟨l, ls, parts⟩ := @lines_eq_cons c cs
    rw [parts]
    rfl

namespace Place

/-- A byte that is not on one of some lines that have ended is looked for behind them. -/
theorem find_below (ends : ∀ c ∈ above.getLast?, c = '\n') (number : Nat)
    (below : width above ≤ offset) (pieces : List (List Char)) :
    find number offset (lines above ++ pieces)
      = find (number + above.count '\n') (offset - width above) pieces := by
  have cut := lines_cut above
  generalize lines above = ended at cut ⊢
  induction cut generalizing number offset with
  | nothing => rfl
  | @rest line some_char unbroken =>
    have newline := ends _ (List.getLast?_eq_some_getLast some_char)
    exact absurd (newline ▸ List.getLast_mem some_char) unbroken
  | @line body more ended unbroken cut ih =>
    have later : ∀ c ∈ more.getLast?, c = '\n' := by
      intro c last
      apply ends
      rw [List.getLast?_append, last]
      rfl
    have none : body.count '\n' = 0 := List.count_eq_zero.mpr unbroken
    rw [width_append] at below
    rw [List.cons_append, find_behind number (by omega), ih later _ (by omega), width_append,
      List.count_append, List.count_append, none, Nat.sub_sub]
    simp [Nat.add_assoc]

/-- A byte that begins a character stands on the line of the characters before it. -/
theorem find_here (unbroken : '\n' ∉ left) (number : Nat) (right : List Char) :
    find number (width left) (lines (left ++ right))
      = ⟨number, left ++ (lines right).head?.getD [], width left⟩ := by
  cases right with
  | nil =>
    rw [List.append_nil]
    by_cases none : left = []
    · subst none
      rfl
    · have last : left.getLast none ≠ '\n' := fun same => unbroken (same ▸ List.getLast_mem none)
      rw [lines_unbroken unbroken none, find, List.getLast?_eq_some_getLast none]
      simp [last, lines]
  | cons c cs =>
    obtain ⟨l, ls, parts⟩ := @lines_eq_cons c cs
    have inside : width left < width (left ++ c :: l) := by
      have size := c.utf8Size_pos
      rw [width_append, width_cons]
      omega
    rw [lines_append unbroken parts, find_inside number inside, parts]
    rfl

/-- Where a byte begins a character, its line has the number after the newlines above, holds what
stands before the byte behind those, and goes on with what the text holds from the byte on. -/
theorem ofByte_split (ends : ∀ c ∈ above.getLast?, c = '\n') (unbroken : '\n' ∉ left) :
    ofByte (above ++ left ++ right) (width (above ++ left))
      = ⟨above.count '\n' + 1, left ++ (lines right).head?.getD [], width left⟩ := by
  have inside : min (width (above ++ left)) (width (above ++ left ++ right))
      = width (above ++ left) := by
    rw [width_append _ right]
    omega
  have here : width (above ++ left) - width above = width left := by
    rw [width_append, Nat.add_sub_cancel_left]
  have below : width above ≤ width (above ++ left) := by
    rw [width_append]
    exact Nat.le_add_right _ _
  rw [ofByte, inside, List.append_assoc, lines_behind ends, find_below ends 1 below, here,
    find_here unbroken, Nat.add_comm]

end Place

namespace Parted

theorem left_unbroken (parted : Parted text offset above indent between behind) :
    '\n' ∉ indent ++ between := by
  rw [List.mem_append, not_or]
  refine ⟨fun member => ?_, parted.unbroken⟩
  exact not_newline_of_isIndent (parted.indents _ member) rfl

/-- The place of the byte: as many lines above as newlines, and on its line the indentation and what
stands between that and the byte. -/
theorem ofByte_eq (parted : Parted text offset above indent between behind) :
    Place.ofByte text offset
      = ⟨above.count '\n' + 1, indent ++ (between ++ (lines behind).head?.getD []),
        width (indent ++ between)⟩ := by
  rw [← parted.offset, parted.whole, Place.ofByte_split parted.ends parted.left_unbroken,
    List.append_assoc]

/-- The indentation goes up to what stands behind it on the line, and no farther. -/
theorem indent_eq (parted : Parted text offset above indent between behind) :
    (indent ++ (between ++ (lines behind).head?.getD [])).takeWhile isIndent = indent := by
  apply takeWhile_run parted.indents
  intro c first
  apply parted.begins
  rw [List.head?_append] at first ⊢
  rwa [head?_head_lines] at first

theorem unindented_eq (parted : Parted text offset above indent between behind) :
    (indent ++ (between ++ (lines behind).head?.getD [])).dropWhile isIndent
      = between ++ (lines behind).head?.getD [] := by
  rw [← drop_length_takeWhile, parted.indent_eq, List.drop_left]

end Parted

/-- A byte that begins a character stands within the indentation of its line or behind it. -/
theorem exists_parted (head tail : List Char) :
    InIndent (head ++ tail) (width head)
      ∨ ∃ above indent between, Parted (head ++ tail) (width head) above indent between tail := by
  obtain ⟨above, left, rfl, unbroken, ends, -⟩ := exists_last_line head
  have parts := List.takeWhile_append_dropWhile (p := isIndent) (l := left)
  have indents : ∀ c ∈ left.takeWhile isIndent, isIndent c = true :=
    List.all_eq_true.mp List.all_takeWhile
  have begins : ∀ c ∈ (left.dropWhile isIndent).head?, isIndent c = false := by
    intro c first
    have other := List.head?_dropWhile_not isIndent left
    rw [first] at other
    exact Bool.eq_false_iff.mpr (by simpa using other)
  by_cases inside : ∃ c, left.dropWhile isIndent = [] ∧ tail.head? = some c ∧ isIndent c = true
  · obtain ⟨c, none, first, indented⟩ := inside
    obtain ⟨behind, rfl⟩ := List.head?_eq_some_iff.mp first
    rw [none, List.append_nil] at parts
    rw [parts] at indents
    have blanks : ∀ b ∈ c :: left, isIndent b = true :=
      List.forall_mem_cons.mpr ⟨indented, indents⟩
    exact .inl ⟨above, left, c, behind, rfl, rfl, ends, blanks⟩
  · refine .inr ⟨above, left.takeWhile isIndent, left.dropWhile isIndent, ?_⟩
    constructor
    · rw [parts]
    · rw [parts]
    · exact ends
    · intro member
      exact unbroken ((List.dropWhile_sublist isIndent).subset member)
    · exact indents
    · intro c first
      rw [List.head?_append] at first
      cases between : (left.dropWhile isIndent).head? with
      | some d =>
        rw [between, Option.some_or] at first
        exact begins c (between ▸ first)
      | none =>
        rw [between, Option.none_or] at first
        rw [Bool.eq_false_iff]
        intro indented
        exact inside ⟨c, List.head?_eq_none_iff.mp between, first, indented⟩

/-- Whatever a newline at the end of a line, nothing is left of it. -/
theorem trimEnd_line (a text : List Char) :
    trimEnd (a ++ (lines text).head?.getD []) = trimEnd (a ++ lineEnd text) := by
  have newline : ∀ c ∈ ['\n'], isBlank c = true := List.forall_mem_singleton.mpr rfl
  rcases head?_lines text with same | same
  · rw [same]
  · rw [same, ← List.append_assoc, trimEnd_append newline]

/-- What comes before a character that is no blank is left as it is. -/
theorem trimEnd_append_seen (a : List Char) {b : List Char} {c : Char} (member : c ∈ b)
    (seen : isBlank c = false) : trimEnd (a ++ b) = a ++ trimEnd b := by
  have stops : (b.reverse.dropWhile isBlank).isEmpty = false := by
    rw [List.isEmpty_eq_false_iff, Ne, List.dropWhile_eq_nil_iff]
    intro blank
    have own := blank c (List.mem_reverse.mpr member)
    rw [seen] at own
    cases own
  rw [trimEnd, trimEnd, List.reverse_append, List.dropWhile_append, stops, if_neg (by decide),
    List.reverse_append, List.reverse_reverse]

end JaiTree.Text
