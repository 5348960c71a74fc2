import JaiTree.Proofs.Lexer.Spacing
import JaiTree.Proofs.Text.Occurrences

/-!
Enclosed text: what the lexer cuts off where a here-string sets a name. The content goes up to the
first place where that name stands as a whole word, and where it stands nowhere all that is cut off
is one wrong token. Main statement: `Lexer.cut_hereString`.
-/

namespace JaiTree.Lexer

open Text

/-- The lexer cuts the tokens off in one step and goes on behind them, at `after`. -/
structure Emits (lexer : Lexer) (tokens : List Token) (after : List Char) : Prop where
  whole : lexer.rest = charsOf tokens ++ after
  cut : lexer.cut = { lexer with
    rest := after
    position := lexer.position + width (charsOf tokens)
    pending := lexer.pending ++ tokens }
  scan : scan 0 lexer.position lexer.rest
    = tokens ++ Lexer.scan 0 (lexer.position + width (charsOf tokens)) after

/-- The group at the head of the text is what a lexer cuts off there. -/
theorem Emits.group (lexer : Lexer) (some_char : lexer.rest ≠ []) :
    lexer.Emits (Piece.tokens lexer.position lexer.rest (group lexer.rest))
      (lexer.rest.drop (Piece.total (Lexer.group lexer.rest))) := by
  have chars : charsOf (Piece.tokens lexer.position lexer.rest (Lexer.group lexer.rest))
      = lexer.rest.take (Piece.total (Lexer.group lexer.rest)) :=
    (Piece.tokens_tiles lexer.position (group_fit some_char).1.total_le).flatMap_text
  refine ⟨?_, ?_, ?_⟩
  · rw [chars, List.take_append_drop]
  · rw [chars]
    rfl
  · rw [chars]
    exact scan_group lexer.position some_char

namespace HereString

variable {text gap delimiter body content after : List Char}

/-- A name that a here-string sets is set behind blanks: else it would go on with the directive. -/
theorem Named.gap_ne_nil (sets : Named text gap delimiter body) : gap ≠ [] := by
  rintro rfl
  obtain ⟨begins, whole, -, some_name, named⟩ := sets
  have some_head : name (delimiter ++ body) ≠ [] := by rwa [named]
  obtain ⟨c, cs, same, starts, -⟩ := name_eq_cons some_head
  have continues := isWordChar_of_isNameChar (isNameChar_of_isNameStart starts)
  rw [whole, List.nil_append, same, beginsWith_append] at begins
  simp [wordEnds, continues] at begins

/-- A here-string whose name is found again is cut into its directive, the blanks before the name,
the name, the content and the name. -/
theorem Named.group_closed (sets : Named text gap delimiter (content ++ (delimiter ++ after)))
    (found : findWord delimiter none (content ++ (delimiter ++ after)) = some content.length) :
    group text = spaced gap delimiter content := by
  have some_gap := sets.gap_ne_nil
  obtain ⟨begins, rfl, indents, some_name, named⟩ := sets
  have again := @exists_content (delimiter ++ (content ++ (delimiter ++ after)))
    (by rwa [named]) content.length
  rw [named, List.drop_left] at again
  obtain ⟨-, -, -, -, some_content⟩ := again found
  have cuts : recognise (Directive.string.spelling.toList
        ++ (gap ++ (delimiter ++ (content ++ (delimiter ++ after)))))
      = spaced gap delimiter content := by
    have mark : Directive.string.spelling.length ≠ 0 := by decide
    have gap_size : gap.length ≠ 0 := by simpa using some_gap
    have size : delimiter.length ≠ 0 := by simpa using some_name
    rw [recognise_string begins, ← String.length_toList, pieces_named indents named some_name,
      found, String.length_toList]
    simp [spaced, mark, gap_size, size, some_content]
  exact group_of_recognise cuts

/-- The tokens of a here-string that begins at byte `start`. -/
def tokens (start : Nat) (gap delimiter content : List Char) : List Token :=
  let mark := Directive.string.spelling.toList
  [{ kind := .directive .string, text := Directive.string.spelling, start },
   { kind := .whitespace, text := String.ofList gap, start := start + width mark },
   { kind := .identifier, text := String.ofList delimiter, start := start + width (mark ++ gap) },
   { kind := .hereStringContent, text := String.ofList content,
     start := start + width (mark ++ gap ++ delimiter) },
   { kind := .identifier, text := String.ofList delimiter,
     start := start + width (mark ++ gap ++ delimiter ++ content) }]

theorem tokens_spaced (start : Nat) (gap delimiter content after : List Char) :
    Piece.tokens start (Directive.string.spelling.toList
        ++ (gap ++ (delimiter ++ (content ++ (delimiter ++ after)))))
      (spaced gap delimiter content) = tokens start gap delimiter content := by
  rw [spaced, ← String.length_toList, Piece.tokens_cons, Piece.tokens_cons, Piece.tokens_cons,
    Piece.tokens_cons, Piece.tokens_cons, Piece.tokens, String.ofList_toList]
  simp only [tokens, width_append, Nat.add_assoc]

theorem total_spaced (gap delimiter content : List Char) :
    Piece.total (spaced gap delimiter content)
      = (Directive.string.spelling.toList ++ (gap ++ (delimiter ++ (content ++ delimiter)))).length
    := by
  simp only [spaced, Piece.total_cons, Piece.total_nil, List.length_append, String.length_toList]
  omega

/-- Where its name stands for the first time behind the content, a here-string ends. -/
theorem Named.emits {lexer : Lexer}
    (sets : Named lexer.rest gap delimiter (content ++ (delimiter ++ after)))
    (found : findWord delimiter none (content ++ (delimiter ++ after)) = some content.length) :
    lexer.Emits (tokens lexer.position gap delimiter content) after := by
  have emits := Emits.group lexer sets.ne_nil
  have behind : lexer.rest.drop (Piece.total (spaced gap delimiter content)) = after := by
    have whole : lexer.rest
        = (Directive.string.spelling.toList ++ (gap ++ (delimiter ++ (content ++ delimiter))))
          ++ after := by
      rw [sets.whole]
      simp only [List.append_assoc]
    rw [total_spaced, whole, List.drop_left]
  rw [sets.group_closed found, behind] at emits
  rwa [sets.whole, tokens_spaced] at emits

/-- Where its name stands nowhere else, a here-string is cut off as one wrong token. -/
theorem Named.emits_unclosed {lexer : Lexer} (sets : Named lexer.rest gap delimiter body)
    (unfound : findWord delimiter none body = none) :
    ∃ wrong after, wrong.kind = .error ∧ wrong.start = lexer.position
      ∧ wrong.error = some (unclosed delimiter body).1 ∧ lexer.Emits [wrong] after := by
  have emits := Emits.group lexer sets.ne_nil
  rw [sets.group_unclosed unfound] at emits
  exact ⟨_, _, rfl, rfl, rfl, emits⟩

/-- A name, one blank behind the directive, is set by it unless what follows goes on with it. -/
theorem named_single (isName_delimiter : isName delimiter = true)
    (stops : body.head?.any isNameChar = false) :
    Named (Directive.string.spelling.toList ++ ' ' :: (delimiter ++ body)) [' '] delimiter body
    where
  begins := by
    have apart : isWordChar ' ' = false := by decide +kernel
    rw [beginsWith_append]
    simp [wordEnds, apart]
  whole := rfl
  indents := by
    intro c blank
    rw [List.mem_singleton.mp blank]
    rfl
  some_name := by
    rintro rfl
    cases isName_delimiter
  named := name_append isName_delimiter stops

end HereString

/-- Where a here-string sets a name, the lexer cuts off its directive, the blanks before the name,
the name, the content and the name again, and goes on right behind that. The content goes up to the
first place where the name stands as a whole word, which is also found where each place is sought
behind the end of the last one. Where the name stands nowhere as a whole word, one wrong token is
cut off that begins where the directive does. The other way round, content that holds no such word,
and neither begins nor ends as part of a name, is given back between the two names around it. -/
theorem cut_hereString :
    (∀ (lexer : Lexer) (gap delimiter body : List Char),
      HereString.Named lexer.rest gap delimiter body →
      ((∃ offset, standsAt none delimiter body offset = true) →
        ∃ content after, body = content ++ (delimiter ++ after)
          ∧ standsAt none delimiter body content.length = true
          ∧ (∀ earlier < content.length, standsAt none delimiter body earlier = false)
          ∧ (separate delimiter 0 body).find? (standsAt none delimiter body) = some content.length
          ∧ lexer.Emits (HereString.tokens lexer.position gap delimiter content) after)
      ∧ ((∀ offset, standsAt none delimiter body offset = false) →
        ∃ wrong after, wrong.kind = .error ∧ wrong.start = lexer.position
          ∧ wrong.error = some (HereString.unclosed delimiter body).1
          ∧ lexer.Emits [wrong] after))
    ∧ ∀ (lexer : Lexer) (delimiter content after : List Char),
      isName delimiter = true → content ≠ [] →
      content.head?.any isNameChar = false → content.getLast?.any isNameChar = false →
      (∀ offset, standsAt none delimiter content offset = false) →
      after.head?.any isNameChar = false →
      lexer.rest = Directive.string.spelling.toList
        ++ ' ' :: (delimiter ++ (content ++ (delimiter ++ after))) →
      lexer.Emits (HereString.tokens lexer.position [' '] delimiter content) after := by
  constructor
  · intro lexer gap delimiter body sets
    have some_name := sets.some_name
    have named : ∀ c ∈ delimiter, isNameChar c = true := by
      rw [← sets.named]
      exact fun c => isNameChar_of_mem_name
    constructor
    · rintro ⟨offset, stands⟩
      cases found : findWord delimiter none body with
      | none =>
        rw [(findWord_eq_none_iff_standsAt some_name).mp found offset] at stands
        cases stands
      | some size =>
        obtain ⟨after, again⟩ := findWord_prefix found
        have below := HereString.findWord_le found
        have whole : body = body.take size ++ (delimiter ++ after) := by
          rw [again, List.take_append_drop]
        have length : (body.take size).length = size := by
          rw [List.length_take]
          omega
        obtain ⟨here, first⟩ := (findWord_eq_some_iff some_name).mp found
        have sought : (separate delimiter 0 body).find? (standsAt none delimiter body)
            = findWord delimiter none body :=
          find?_separate some_name named fun place below => absurd below (Nat.not_lt_zero place)
        generalize body.take size = content at whole length
        subst whole length
        exact ⟨content, after, rfl, here, first, sought.trans found, sets.emits found⟩
    · intro nowhere
      exact sets.emits_unclosed ((findWord_eq_none_iff_standsAt some_name).mpr nowhere)
  · intro lexer delimiter content after isName_delimiter some_content head last nowhere stops whole
    have named := isNameChar_of_isName isName_delimiter
    have follows : (content ++ (delimiter ++ after)).head?.any isNameChar = false := by
      rwa [List.head?_append_of_ne_nil content some_content]
    have sets := HereString.named_single isName_delimiter follows
    rw [← whole] at sets
    have found := findWord_append named sets.some_name nowhere last stops
    exact sets.emits found

/-- A longer name in the content of a here-string does not end it. -/
theorem cut_hereString_longer :
    let lexer := Lexer.ofText "#string x\nxy x;"
    let body := "\nxy x;".toList
    HereString.Named lexer.rest [' '] ['x'] body ∧ standsAt none ['x'] body 4 = true
      ∧ ∃ content after, body = content ++ (['x'] ++ after)
        ∧ standsAt none ['x'] body content.length = true
        ∧ (separate ['x'] 0 body).find? (standsAt none ['x'] body) = some content.length
        ∧ lexer.Emits (HereString.tokens 0 [' '] ['x'] content) after := by
  intro lexer body
  have rest : lexer.rest = Directive.string.spelling.toList ++ ' ' :: (['x'] ++ body) := by decide
  have sets : HereString.Named lexer.rest [' '] ['x'] body := by
    rw [rest]
    exact HereString.named_single (by decide) (by decide)
  have stands : standsAt none ['x'] body 4 = true := by decide
  obtain ⟨content, after, whole, here, -, sought, emits⟩ :=
    (cut_hereString.1 lexer [' '] ['x'] body sets).1 ⟨4, stands⟩
  exact ⟨sets, stands, content, after, whole, here, sought, emits⟩

end JaiTree.Lexer
