import JaiTree.Diagnostic.Report
import JaiTree.Proofs.Text.Columns
import JaiTree.Proofs.Tree.Regions

/-!
Reports: the last line of a report draws an arrow to the place of the diagnostic on the line of text
above it. The arrow is as long as the bytes that come before the place, so its head stands under the
place where these are ASCII. Main statement: `Diagnostic.report_arrow`.
-/

namespace JaiTree

namespace Text

/-- A number is written in digits. -/
theorem newline_not_mem_toString (n : Nat) : '\n' ∉ (toString n).toList := by
  intro member
  have digits : '\n' ∈ Nat.toDigits 10 n := by
    rw [← Nat.toList_repr]
    exact member
  have digit := Nat.isDigit_of_mem_toDigits (by decide) (by decide) digits
  cases digit

end Text

namespace Diagnostic

variable {text : String} {d : Diagnostic} {above indent between behind : List Char}

/-- What the report shows of the line goes from its indentation on, and draws below it a dash for
each byte up to the place. -/
theorem drawn_of_parted
    (parted : Text.Parted text.toList d.position above indent between behind) :
    let place := Text.Place.ofByte text.toList d.position
    place.number = above.count '\n' + 1
    ∧ (shownLine place).toList = Text.trimEnd (between ++ Text.lineEnd behind)
    ∧ (arrow place).toList = List.replicate (Text.width between) '-' ++ ['^'] := by
  intro place
  have found : place = _ := parted.ofByte_eq
  have bytes : Text.width (indent ++ between) - indent.length = Text.width between := by
    rw [Text.width_append, Text.width_of_isIndent parted.indents, Nat.add_sub_cancel_left]
  refine ⟨by rw [found], ?_, ?_⟩
  · rw [shownLine, String.toList_ofList, found, parted.unindented_eq, Text.trimEnd_line]
  · rw [arrow, String.toList_append, String.toList_ofList, found, parted.indent_eq, bytes]
    rfl

/-- A report whose line of text has no newline in it ends with that line, behind its number, and the
arrow, behind a bar under the number. -/
theorem lines_report (text : String) (d : Diagnostic) :
    let place := Text.Place.ofByte text.toList d.position
    let number := (toString place.number).toList
    '\n' ∉ (shownLine place).toList → '\n' ∉ (arrow place).toList →
    ∃ title, Text.lines (d.report text).toList = title ++
      [number ++ " | ".toList ++ (shownLine place).toList ++ ['\n'],
        List.replicate (number.length + 1) ' ' ++ "| ".toList ++ (arrow place).toList ++ ['\n']] := by
  intro place number unbroken unbroken'
  have digits : '\n' ∉ number := Text.newline_not_mem_toString place.number
  have shown : '\n' ∉ number ++ " | ".toList ++ (shownLine place).toList := by
    simp [digits, unbroken]
  have drawn : '\n' ∉ List.replicate (number.length + 1) ' ' ++ "| ".toList
      ++ (arrow place).toList := by
    simp [unbroken', List.mem_replicate]
  have bar : (gutter place).toList = List.replicate (number.length + 1) ' ' ++ ['|'] := by
    rw [gutter, String.toList_append, String.toList_ofList, String.length_toList]
    rfl
  have parts : (d.report text).toList = (d.title ++ "\n" ++ gutter place).toList ++ '\n' ::
      (number ++ " | ".toList ++ (shownLine place).toList ++ '\n' ::
        (List.replicate (number.length + 1) ' ' ++ "| ".toList ++ (arrow place).toList
          ++ ['\n'])) := by
    simp only [report, String.toList_append, bar, place, List.append_assoc]
    rfl
  rw [parts, Text.lines_newline _ (number ++ _ ++ _ ++ _ :: _),
    Text.lines_newline (number ++ _ ++ _) (List.replicate _ _ ++ _ ++ _ ++ _),
    Text.lines_append shown rfl, Text.lines_append drawn rfl]
  exact ⟨_, rfl⟩

/-- The diagnostics of a text are reported where characters begin. -/
theorem parted_of_mem_errors {text : String} {d : Diagnostic}
    (reported : d ∈ (parse text).errors) :
    Text.InIndent text.toList d.position ∨ ∃ above indent between behind,
      Text.Parted text.toList d.position above indent between behind := by
  obtain ⟨t, among, -, position⟩ := exists_token_of_mem_errors reported
  obtain ⟨head, tail, whole, start⟩ := exists_split_of_mem_tokenize among
  rw [position, start, whole]
  rcases Text.exists_parted head tail with inside | ⟨above, indent, between, parted⟩
  · exact .inl inside
  · exact .inr ⟨above, indent, between, tail, parted⟩

/-- A diagnostic of a text lies within the indentation of its line, or the line is parted there. The
last line of the report then has as many dashes before its caret as there are bytes between the
indentation and the place, and these are as many as the characters there just when all of them are
ASCII. The line above has the text from the indentation on, without the blanks at its end, behind a
number and a bar that are as wide as the bar before the dashes: where something is left of what the
line holds from the place on, that stands right behind the characters before the place, and
otherwise nothing stands there. Positions and widths are natural numbers; where they are kept in 32
and in 16 bits, this is said of texts of fewer than 2^32 bytes (`position_lt_of_mem_errors`) and of
arrows of fewer than 2^16 characters. -/
theorem report_arrow (text : String) (d : Diagnostic) (reported : d ∈ (parse text).errors) :
    (Text.InIndent text.toList d.position ∨ ∃ above indent between behind,
      Text.Parted text.toList d.position above indent between behind)
    ∧ ∀ above indent between behind,
      Text.Parted text.toList d.position above indent between behind →
      let number := (toString (above.count '\n' + 1)).toList
      let line := Text.lineEnd behind
      (∃ title, Text.lines (d.report text).toList = title ++
        [number ++ " | ".toList ++ Text.trimEnd (between ++ line) ++ ['\n'],
          List.replicate (number.length + 1) ' ' ++ "| ".toList
            ++ List.replicate (Text.width between) '-' ++ ['^', '\n']])
      ∧ (Text.width between = between.length ↔ ∀ c ∈ between, c.toNat < 128)
      ∧ (∀ c ∈ line, Text.isBlank c = false →
        Text.trimEnd (between ++ line) = between ++ Text.trimEnd line)
      ∧ ((∀ c ∈ line, Text.isBlank c = true) →
        Text.trimEnd (between ++ line) = Text.trimEnd between) := by
  refine ⟨parted_of_mem_errors reported, ?_⟩
  intro above indent between behind parted number line
  obtain ⟨numbered, shown, drawn⟩ := drawn_of_parted parted
  have unbroken : '\n' ∉ Text.trimEnd (between ++ line) := by
    intro member
    rcases List.mem_append.mp ((Text.isPrefix_trimEnd _).subset member) with member | member
    · exact parted.unbroken member
    · exact Text.newline_not_mem_lineEnd behind member
  have dashes : '\n' ∉ List.replicate (Text.width between) '-' ++ ['^'] := by
    simp [List.mem_replicate]
  refine ⟨?_, Text.width_eq_length_iff between, ?_, ?_⟩
  · have last := lines_report text d
    dsimp only at last
    rw [numbered, shown, drawn] at last
    obtain ⟨title, parts⟩ := last unbroken dashes
    refine ⟨title, ?_⟩
    rw [parts]
    simp [number, line]
  · intro c member seen
    exact Text.trimEnd_append_seen between member seen
  · intro blank
    exact Text.trimEnd_append blank between

/-- A value is missing on a line that is indented. -/
theorem report_arrow_indented :
    ⟨.expectedExpression ";", 6⟩ ∈ (parse "\tx := ;").errors
      ∧ Text.Parted "\tx := ;".toList 6 [] ['\t'] "x := ".toList [';']
      ∧ ∃ title, Text.lines (report "\tx := ;" ⟨.expectedExpression ";", 6⟩).toList
        = title ++ ["1 | x := ;\n".toList, "  | -----^\n".toList] := by
  have reported : ⟨.expectedExpression ";", 6⟩ ∈ (parse "\tx := ;").errors := by decide +kernel
  have parted : Text.Parted "\tx := ;".toList 6 [] ['\t'] "x := ".toList [';'] :=
    ⟨by decide, by decide, by simp, by decide, by simp [Text.isIndent], by simp [Text.isIndent]⟩
  obtain ⟨⟨title, lines⟩, -⟩ := (report_arrow _ _ reported).2 _ _ _ _ parted
  exact ⟨reported, parted, title, lines⟩

/-- A character before the place that takes two bytes moves the caret one character too far. -/
theorem report_arrow_differs :
    ¬∀ d ∈ (parse "x := \"é\" + ;").errors, ∀ above indent between behind drawn,
      Text.Parted "x := \"é\" + ;".toList d.position above indent between behind →
      (Text.lines (d.report "x := \"é\" + ;").toList).getLast?
        = some ("  | ".toList ++ drawn ++ ['^', '\n']) →
      drawn.length = between.length := by
  intro claim
  have reported : ⟨.expectedExpression ";", 12⟩ ∈ (parse "x := \"é\" + ;").errors := by
    decide +kernel
  have parted : Text.Parted "x := \"é\" + ;".toList 12 [] [] "x := \"é\" + ".toList [';'] :=
    ⟨by decide, by decide, by simp, by decide, by simp, by simp [Text.isIndent]⟩
  have drawn := claim _ reported _ _ _ _ (List.replicate 12 '-') parted (by decide +kernel)
  revert drawn
  decide

end Diagnostic

end JaiTree
