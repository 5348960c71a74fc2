import JaiTree.Text.Width
import Mathlib.Data.String.Basic

/-!
Slices: the part of a text between two bytes.
-/

namespace JaiTree.Text

/-- The text from byte `start` up to byte `stop`, when both stand between two characters. -/
def slice? (text : String) (start stop : Nat) : Option String :=
  if (⟨start⟩ : String.Pos.Raw).IsValid text ∧ (⟨stop⟩ : String.Pos.Raw).IsValid text
      ∧ start ≤ stop then
    some (String.Pos.Raw.extract text ⟨start⟩ ⟨stop⟩)
  else
    none

theorem le_of_slice? {text part : String} {start stop : Nat}
    (h : slice? text start stop = some part) : start ≤ stop := by
  rw [slice?] at h
  split at h
  · next bounds => exact bounds.2.2
  · cases h

theorem utf8Len_eq_width (text : List Char) : String.utf8Len text = width text := by
  induction text with
  | nil => rfl
  | cons c cs ih => rw [String.utf8Len_cons, ih, width_cons, Nat.add_comm]

theorem isValid_width (before after : List Char) :
    (⟨width before⟩ : String.Pos.Raw).IsValid (String.ofList (before ++ after)) := by
  rw [String.Pos.Raw.isValid_ofList]
  exact ⟨before.length, by rw [List.take_left, utf8ByteSize_ofList]⟩

/-- What stands between two parts of a text is the slice between their bytes. -/
theorem slice?_middle (before middle after : List Char) :
    slice? (String.ofList (before ++ middle ++ after)) (width before)
      (width before + width middle) = some (String.ofList middle) := by
  have first := isValid_width before (middle ++ after)
  have second := isValid_width (before ++ middle) after
  rw [← List.append_assoc] at first
  rw [width_append] at second
  rw [slice?, if_pos ⟨first, second, Nat.le_add_right _ _⟩]
  have part := String.extract_of_valid before middle after
  rw [utf8Len_eq_width, utf8Len_eq_width] at part
  rw [part]

end JaiTree.Text
