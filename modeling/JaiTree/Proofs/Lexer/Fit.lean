import JaiTree.Lexer.Group

/-!
Fitting pieces: whatever a text begins with, the pieces cut from its head take characters that are
there, and each of them takes at least one. Main statement: `group_fit`.
-/

namespace JaiTree.Lexer

/-- A piece that takes some characters, is not the end of the text, and says what is wrong with it
just when it is an error: that the text cannot be cut into tokens there. -/
structure Piece.Sound (piece : Piece) : Prop where
  pos : 0 < piece.size
  ne_eof : piece.kind ≠ .eof
  error_iff : piece.error.isSome = true ↔ piece.kind = .error
  lexical : ∀ cause ∈ piece.error, cause.isLexical = true

/-- Sound pieces that take no more characters than there are. -/
structure Piece.Fit (length : Nat) (pieces : List Piece) : Prop where
  sound : ∀ piece ∈ pieces, piece.Sound
  total_le : Piece.total pieces ≤ length

namespace Piece

theorem sound_of_kind {kind : TokenKind} {size : Nat} (pos : 0 < size) (ne_eof : kind ≠ .eof)
    (ne_error : kind ≠ .error) : Sound { kind, size } :=
  ⟨pos, ne_eof, by simp [ne_error], by simp⟩

theorem sound_faulty {cause : Cause} {size : Nat} (pos : 0 < size)
    (lexical : cause.isLexical = true) : Sound (faulty cause size) :=
  ⟨pos, by simp [faulty], by simp [faulty], by simpa [faulty] using lexical⟩

theorem fit_nil (length : Nat) : Fit length [] := ⟨by simp, by simp⟩

theorem Fit.cons {length rest : Nat} {piece : Piece} {pieces : List Piece} (sound : piece.Sound)
    (fit : Fit rest pieces) (h : piece.size + rest ≤ length) : Fit length (piece :: pieces) := by
  constructor
  · intro other member
    rcases List.mem_cons.mp member with rfl | member
    · exact sound
    · exact fit.sound other member
  · have below := fit.total_le
    rw [total_cons]
    omega

theorem fit_singleton {length : Nat} {piece : Piece} (sound : piece.Sound)
    (h : piece.size ≤ length) : Fit length [piece] := (fit_nil 0).cons sound (by simpa using h)

/-- Pieces that take nothing may be left out. -/
theorem total_filter (pieces : List Piece) :
    total (pieces.filter fun p => p.size != 0) = total pieces := by
  induction pieces with
  | nil => rfl
  | cons p ps ih =>
    rw [List.filter_cons]
    by_cases h : p.size = 0
    · simp [h, ih]
    · simp [h, ih]

theorem fit_filter {length : Nat} {pieces : List Piece}
    (sound : ∀ piece ∈ pieces, 0 < piece.size → piece.Sound) (h : total pieces ≤ length) :
    Fit length (pieces.filter fun p => p.size != 0) := by
  constructor
  · intro piece member
    obtain ⟨member, size⟩ := List.mem_filter.mp member
    exact sound piece member (by simp at size; omega)
  · rw [total_filter]
    exact h

end Piece

section Runs

variable (p : Char → Bool) (text : List Char)

theorem length_takeWhile_le : (text.takeWhile p).length ≤ text.length :=
  (text.takeWhile_prefix p).length_le

theorem length_takeWhile_pos {c : Char} (h : p c = true) :
    0 < ((c :: text).takeWhile p).length := by
  rw [List.takeWhile_cons, if_pos h]
  simp

theorem length_name_le : (Text.name text).length ≤ text.length :=
  (Text.isPrefix_name text).length_le

end Runs

namespace Comment

theorem closing_le {text : List Char} {size : Nat} (h : closing text = some size) :
    size + 2 ≤ text.length := by
  induction text generalizing size with
  | nil => simp [closing] at h
  | cons c cs ih =>
    rw [closing] at h
    split at h
    · next mark =>
      have below := (List.isPrefixOf_iff_prefix.mp mark).length_le
      cases h
      simpa using below
    · obtain ⟨inner, found, rfl⟩ := Option.map_eq_some_iff.mp h
      have below := ih found
      rw [List.length_cons]
      omega

theorem line_fit {c : Char} {text : List Char} (h : c ≠ '\n') :
    Piece.Fit (c :: text).length (line (c :: text)) :=
  Piece.fit_singleton
    (Piece.sound_of_kind (length_takeWhile_pos _ _ (by simpa using h)) (by decide) (by decide))
    (length_takeWhile_le _ _)

theorem block_fit {text : List Char} (h : ['/', '*'].isPrefixOf text = true) :
    Piece.Fit text.length (block text) := by
  have opened := (List.isPrefixOf_iff_prefix.mp h).length_le
  simp only [List.length_cons, List.length_nil] at opened
  have kinds : blockKind text ≠ .eof ∧ blockKind text ≠ .error := by
    unfold blockKind
    split <;> decide
  rw [block]
  split
  · next inner closed =>
    have below := closing_le closed
    rw [List.length_drop] at below
    exact Piece.fit_singleton (Piece.sound_of_kind (by omega) kinds.1 kinds.2) (by simp; omega)
  · exact Piece.fit_singleton (Piece.sound_faulty (by omega) rfl) (Nat.le_refl _)

end Comment

namespace Assembly

theorem body_fit (text : List Char) (h : text ≠ []) : Piece.Fit text.length (body text) := by
  have pos := List.length_pos_iff.mpr h
  rw [body]
  split
  · next inner =>
    apply Piece.fit_filter
    · intro piece member size
      simp only [List.mem_cons, List.not_mem_nil, or_false] at member
      rcases member with rfl | rfl | rfl
      all_goals exact Piece.sound_of_kind size (by decide) (by decide)
    · simp only [Piece.total_cons, Piece.total_nil]
      omega
  · exact Piece.fit_singleton (Piece.sound_faulty pos rfl) (Nat.le_refl _)

theorem features_fit (skip : Nat) (text : List Char) :
    Piece.Fit (text.length - skip) (features skip text) := by
  induction text generalizing skip with
  | nil => simpa [features] using Piece.fit_nil _
  | cons c cs ih =>
    cases skip with
    | succ skip => simpa [features] using ih skip
    | zero =>
      rw [features, Nat.sub_zero]
      split
      · exact body_fit _ (List.cons_ne_nil _ _)
      split
      · exact (ih 0).cons (Piece.sound_of_kind (by decide) (by decide) (by decide))
          (by simp; omega)
      split
      · have below := length_takeWhile_le Text.isBlank cs
        exact (ih _).cons (Piece.sound_of_kind (by omega) (by decide) (by decide))
          (by simp; omega)
      split
      · have below := length_takeWhile_le Text.isNameChar cs
        exact (ih _).cons (Piece.sound_of_kind (by omega) (by decide) (by decide))
          (by simp; omega)
      · exact Piece.fit_nil _

theorem pieces_fit {mark : Nat} {text : List Char} (pos : 0 < mark) (h : mark ≤ text.length) :
    Piece.Fit text.length (pieces mark text) := by
  have rest := features_fit 0 (text.drop mark)
  rw [List.length_drop] at rest
  exact rest.cons (Piece.sound_of_kind pos (by decide) (by decide)) (by simp; omega)

end Assembly

namespace Quotation

theorem pieces_fit {skip : Nat} {text : List Char} {ps : List Piece}
    (h : pieces skip text = some ps) : Piece.Fit (text.length - skip) ps := by
  induction text generalizing skip ps with
  | nil => cases skip <;> simp [pieces] at h
  | cons c cs ih =>
    cases skip with
    | succ skip =>
      rw [pieces] at h
      simpa using ih h
    | zero =>
      rw [pieces] at h
      rw [Nat.sub_zero]
      split at h
      · cases h
        exact Piece.fit_singleton (Piece.sound_of_kind (by decide) (by decide) (by decide))
          (by simp)
      split at h
      · obtain ⟨rest, found, rfl⟩ := Option.map_eq_some_iff.mp h
        -- The escaped character is there: past the end of the text no quote closes the string.
        have escaped : 0 < cs.length := by
          cases cs with
          | nil => simp [pieces] at found
          | cons d ds => simp
        exact (ih found).cons (Piece.sound_of_kind (by decide) (by decide) (by decide))
          (by simp; omega)
      split at h
      · obtain ⟨rest, found, rfl⟩ := Option.map_eq_some_iff.mp h
        have below := length_takeWhile_le Char.isDigit cs
        exact (ih found).cons (Piece.sound_of_kind (by omega) (by decide) (by decide))
          (by simp; omega)
      · obtain ⟨rest, found, rfl⟩ := Option.map_eq_some_iff.mp h
        have below := length_takeWhile_le isPlain cs
        exact (ih found).cons (Piece.sound_of_kind (by omega) (by decide) (by decide))
          (by simp; omega)

theorem string_fit {text : List Char} (h : text ≠ []) : Piece.Fit text.length (string text) := by
  have pos := List.length_pos_iff.mpr h
  rw [string]
  split
  · next ps found =>
    have rest := pieces_fit found
    rw [List.length_drop] at rest
    exact rest.cons (Piece.sound_of_kind (by decide) (by decide) (by decide)) (by simp; omega)
  · exact Piece.fit_singleton (Piece.sound_faulty pos rfl) (Nat.le_refl _)

end Quotation

namespace HereString

theorem findWord_le {word text : List Char} {before : Option Char} {offset : Nat}
    (h : Text.findWord word before text = some offset) : offset + word.length ≤ text.length := by
  induction text generalizing before offset with
  | nil => simp [Text.findWord] at h
  | cons c cs ih =>
    rw [Text.findWord] at h
    split at h
    · next stands =>
      simp only [Bool.and_eq_true] at stands
      have below := (List.isPrefixOf_iff_prefix.mp stands.1.1).length_le
      cases h
      simpa using below
    · obtain ⟨inner, found, rfl⟩ := Option.map_eq_some_iff.mp h
      have below := ih found
      rw [List.length_cons]
      omega

theorem length_trimEnd_le (text : List Char) : (Text.trimEnd text).length ≤ text.length := by
  rw [Text.trimEnd, List.length_reverse]
  have below := (List.dropWhile_suffix (l := text.reverse) Text.isBlank).length_le
  simpa using below

theorem lastLoneName_le {offset size : Nat} {lines : List (List Char)} {found : List Char}
    (h : lastLoneName offset lines = some (found, size)) :
    size ≤ offset + lines.flatten.length := by
  induction lines generalizing offset with
  | nil => simp [lastLoneName] at h
  | cons l ls ih =>
    rw [List.flatten_cons, List.length_append]
    rw [lastLoneName] at h
    split at h
    · next later =>
      cases h
      have below := ih later
      omega
    · split at h
      · cases h
        have below := length_trimEnd_le l
        omega
      · cases h

theorem unclosed_isLexical (delimiter body : List Char) :
    (unclosed delimiter body).1.isLexical = true := by
  rw [unclosed]
  simp only
  split
  · rfl
  · split
    all_goals rfl

theorem unclosed_le (delimiter body : List Char) : (unclosed delimiter body).2 ≤ body.length := by
  have first := length_takeWhile_le (· != '\n') body
  rw [unclosed]
  simp only
  split
  · exact first
  · split
    · next found =>
      have below := lastLoneName_le found
      rw [Text.flatten_lines, List.length_drop] at below
      simp only
      omega
    · exact first

theorem pieces_fit {mark : Nat} {text : List Char} (pos : 0 < mark) (h : mark ≤ text.length) :
    Piece.Fit text.length (pieces mark text) := by
  have length := List.length_drop (i := mark) (l := text)
  rw [pieces]
  generalize text.drop mark = rest at length ⊢
  have indent := length_takeWhile_le Text.isIndent rest
  generalize (rest.takeWhile Text.isIndent).length = gap at indent ⊢
  have named := length_name_le (rest.drop gap)
  generalize Text.name (rest.drop gap) = delimiter at named ⊢
  rw [List.length_drop] at named
  split
  · exact Piece.fit_singleton (Piece.sound_of_kind pos (by decide) (by decide)) h
  split
  · next content found =>
    have closed := findWord_le found
    rw [List.length_drop] at closed
    apply Piece.fit_filter
    · intro piece member size
      simp only [List.mem_cons, List.not_mem_nil, or_false] at member
      rcases member with rfl | rfl | rfl | rfl | rfl
      all_goals exact Piece.sound_of_kind size (by decide) (by decide)
    · simp only [Piece.total_cons, Piece.total_nil]
      omega
  · have blamed := unclosed_le delimiter (rest.drop (gap + delimiter.length))
    rw [List.length_drop] at blamed
    have lexical := unclosed_isLexical delimiter (rest.drop (gap + delimiter.length))
    generalize unclosed delimiter (rest.drop (gap + delimiter.length)) = mistake at blamed lexical ⊢
    refine Piece.fit_singleton (Piece.sound_faulty (by omega) lexical) ?_
    simp only [Piece.faulty]
    omega

end HereString

namespace Number

theorem exponentSize_le (text : List Char) : exponentSize text ≤ text.length := by
  cases text with
  | nil => simp [exponentSize]
  | cons c cs =>
    rw [exponentSize]
    split
    · generalize (if cs.head? = some '+' || cs.head? = some '-' then 1 else 0) = sign
      have digits := length_takeWhile_le Char.isDigit (cs.drop sign)
      rw [List.length_drop] at digits
      simp only [List.length_cons]
      split
      all_goals omega
    · exact Nat.zero_le _

theorem fractionSize_le (text : List Char) : fractionSize text ≤ text.length := by
  unfold fractionSize
  split
  · omega
  · next cs _ =>
    have digits := length_takeWhile_le Char.isDigit cs
    have exponent := exponentSize_le (cs.drop (cs.takeWhile Char.isDigit).length)
    rw [List.length_drop] at exponent
    simp only [List.length_cons]
    omega
  · exact exponentSize_le _

theorem decimalSize_fits {c : Char} {text : List Char} (h : c.isDigit = true) :
    0 < decimalSize (c :: text) ∧ decimalSize (c :: text) ≤ (c :: text).length := by
  have pos := length_takeWhile_pos (fun c => c.isDigit || c = '_') text (c := c) (by simp [h])
  have whole := length_takeWhile_le (fun c => c.isDigit || c = '_') (c :: text)
  have fraction := fractionSize_le
    ((c :: text).drop ((c :: text).takeWhile fun c => c.isDigit || c = '_').length)
  rw [List.length_drop] at fraction
  rw [decimalSize]
  omega

theorem basedSize_fits (isDigit : Char → Bool) {c d : Char} {text : List Char}
    (h : c.isDigit = true) :
    0 < basedSize isDigit (c :: d :: text)
      ∧ basedSize isDigit (c :: d :: text) ≤ (c :: d :: text).length := by
  have digits := length_takeWhile_le isDigit ((c :: d :: text).drop 2)
  rw [List.length_drop] at digits
  rw [basedSize]
  split
  · exact decimalSize_fits h
  · simp only [List.length_cons] at digits ⊢
    omega

theorem size_fits {c : Char} (text : List Char) (h : c.isDigit = true) :
    0 < size (c :: text) ∧ size (c :: text) ≤ (c :: text).length := by
  unfold size
  split
  · next cs whole =>
    rw [whole]
    exact basedSize_fits _ (by decide)
  · next cs whole =>
    rw [whole]
    exact basedSize_fits _ (by decide)
  · exact decimalSize_fits h

end Number

theorem operators_spelled : ∀ kind ∈ operators,
    0 < kind.text.length ∧ kind ≠ .eof ∧ kind ≠ .error := by decide

theorem operator_fit (text : List Char) : Piece.Fit text.length (operator text) := by
  rw [operator]
  split
  · next kind found =>
    have spelled := operators_spelled kind (List.mem_of_find?_eq_some found)
    have stands := List.find?_some found
    have below := (List.isPrefixOf_iff_prefix.mp stands).length_le
    rw [String.length_toList] at below
    exact Piece.fit_singleton (Piece.sound_of_kind spelled.1 spelled.2.1 spelled.2.2) below
  · exact Piece.fit_nil _

theorem length_directiveEnding_le (text : List Char) :
    (directiveEnding text).length ≤ text.length := by
  unfold directiveEnding
  split
  · next cs =>
    have below := length_name_le cs
    split
    · simp
    · simpa using below
  · simp

theorem directive_fit (text : List Char) : Piece.Fit text.length (directive text) := by
  have named := length_name_le (text.drop 1)
  have ending := length_directiveEnding_le
    (text.drop (text.take 1 ++ Text.name (text.drop 1)).length)
  simp only [List.length_drop, List.length_append, List.length_take] at named ending
  rw [directive]
  split
  · exact Piece.fit_nil _
  · next long =>
    simp only [List.length_append, List.length_take] at long
    split
    · refine Piece.fit_singleton (Piece.sound_of_kind ?_ (by simp) (by simp)) ?_
      all_goals
        simp only [List.length_append, List.length_take]
        omega
    · refine Piece.fit_singleton (Piece.sound_of_kind ?_ (by simp) (by simp)) ?_
      all_goals
        simp only [List.length_append, List.length_take]
        omega
    · refine Piece.fit_singleton (Piece.sound_faulty ?_ rfl) ?_
      all_goals
        simp only [Piece.faulty, List.length_append, List.length_take]
        omega

theorem exists_of_beginsWith {d : Directive} {text : List Char}
    (begins : beginsWith d text = true) : ∃ rest, text = d.spelling.toList ++ rest := by
  rw [beginsWith, Bool.and_eq_true] at begins
  obtain ⟨rest, whole⟩ := List.isPrefixOf_iff_prefix.mp begins.1
  exact ⟨rest, whole.symm⟩

theorem beginsWith_append (d : Directive) (rest : List Char) :
    beginsWith d (d.spelling.toList ++ rest) = Text.wordEnds rest := by
  have starts := List.isPrefixOf_iff_prefix.mpr (List.prefix_append d.spelling.toList rest)
  rw [beginsWith, starts, ← String.length_toList, List.drop_left, Bool.true_and]

theorem length_spelling_le {d : Directive} {text : List Char} (h : beginsWith d text = true) :
    d.spelling.length ≤ text.length := by
  obtain ⟨rest, rfl⟩ := exists_of_beginsWith h
  rw [List.length_append, String.length_toList]
  exact Nat.le_add_right _ _

theorem hash_fit (text : List Char) : Piece.Fit text.length (hash text) := by
  rw [hash]
  split
  · next begun => exact HereString.pieces_fit (by decide) (length_spelling_le begun)
  split
  · next begun => exact Assembly.pieces_fit (by decide) (length_spelling_le begun)
  · exact directive_fit text

theorem recognise_fit (text : List Char) : Piece.Fit text.length (recognise text) := by
  cases text with
  | nil => exact Piece.fit_nil _
  | cons c cs =>
    rw [recognise]
    split
    · next blank =>
      exact Piece.fit_singleton
        (Piece.sound_of_kind (length_takeWhile_pos _ _ blank) (by decide) (by decide))
        (length_takeWhile_le _ _)
    split
    · next mark =>
      apply Comment.line_fit
      rintro rfl
      simp at mark
    split
    · next mark => exact Comment.block_fit mark
    split
    · exact hash_fit _
    split
    · next start =>
      refine Piece.fit_singleton (Piece.sound_of_kind ?_ (by decide) (by decide))
        (length_name_le _)
      simp [Text.name, start]
    split
    · next digit =>
      have fits := Number.size_fits cs digit
      exact Piece.fit_singleton (Piece.sound_of_kind fits.1 (by decide) (by decide)) fits.2
    split
    · exact Quotation.string_fit (List.cons_ne_nil _ _)
    · exact operator_fit _

/-- The pieces at the head of a text are there, and they take at least one character of it. -/
theorem group_fit {text : List Char} (h : text ≠ []) :
    Piece.Fit text.length (group text) ∧ 0 < Piece.total (group text) := by
  have fit := recognise_fit text
  have pos := List.length_pos_iff.mpr h
  rw [group]
  split
  · exact ⟨Piece.fit_singleton (Piece.sound_faulty Nat.one_pos rfl) pos, Nat.one_pos⟩
  · next pieces found =>
    refine ⟨fit, ?_⟩
    cases pieces : recognise text with
    | nil => exact absurd pieces found
    | cons p ps =>
      have taken := (fit.sound p (by simp [pieces])).pos
      rw [Piece.total_cons]
      omega

end JaiTree.Lexer
