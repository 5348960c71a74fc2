import JaiTree.Proofs.Lexer.HereStrings
import JaiTree.Proofs.Lexer.Lone

/-!
Blanks among pieces: they stand alone, behind the directive of a here-string or among the features
of an assembly block, and each of them takes all the blanks that stand there. Main statement:
`Lexer.blanks_of_scan`.
-/

namespace JaiTree.Lexer

open Text

/-- Whether the piece is the raw text of an assembly block, with an end or without one. -/
def Piece.isRaw (piece : Piece) : Bool :=
  piece.kind = .asmContent || piece.error = some .unterminatedAsm

/-- Neither blanks nor raw text, and no here-string with a wrong closing name. -/
structure Piece.Plain (piece : Piece) : Prop where
  kind : piece.kind ≠ .whitespace
  raw : piece.isRaw = false
  error : ∀ expected found, piece.error ≠ some (.mismatchedHereString expected found)

/-- A here-string that sets a name, and what stands behind that. -/
structure HereString.Named (text gap delimiter body : List Char) : Prop where
  begins : beginsWith .string text = true
  whole : text = Directive.string.spelling.toList ++ (gap ++ (delimiter ++ body))
  indents : ∀ c ∈ gap, isIndent c = true
  some_name : delimiter ≠ []
  named : name (delimiter ++ body) = delimiter

/-- The pieces of a here-string with blanks before its name. -/
def HereString.spaced (gap delimiter content : List Char) : List Piece :=
  [{ kind := .directive .string, size := Directive.string.spelling.length },
   { kind := .whitespace, size := gap.length },
   { kind := .identifier, size := delimiter.length },
   { kind := .hereStringContent, size := content.length },
   { kind := .identifier, size := delimiter.length }]

/-- How the pieces that are cut off a text together may hold blanks and raw text. -/
inductive Spacing (text : List Char) : List Piece → Prop
  | single {p : Piece} : p.Plain → Spacing text [p]
  | several {pieces : List Piece} :
      (∀ p ∈ pieces, p.Plain ∧ p.error = none) → Spacing text pieces
  | blanks {c : Char} {cs : List Char} : text = c :: cs → isBlank c = true →
      Spacing text [{ kind := .whitespace, size := (text.takeWhile isBlank).length }]
  | closed {gap delimiter content rest : List Char} :
      HereString.Named text gap delimiter (content ++ (delimiter ++ rest)) → gap ≠ [] →
      Spacing text (HereString.spaced gap delimiter content)
  | unclosed {gap delimiter body : List Char} :
      HereString.Named text gap delimiter body → findWord delimiter none body = none →
      Spacing text [.faulty (HereString.unclosed delimiter body).1
        (Directive.string.spelling.length + gap.length + delimiter.length
          + (HereString.unclosed delimiter body).2)]
  | assembly : beginsWith .asm text = true →
      Spacing text (Assembly.pieces Directive.asm.spelling.length text)

theorem Piece.plain_of_kind {kind : TokenKind} {size : Nat} (seen : kind ≠ .whitespace)
    (other : kind ≠ .asmContent) : Plain { kind, size } :=
  ⟨seen, by simp [isRaw, other], by simp⟩

theorem Quotation.pieces_plain {skip : Nat} {text : List Char} {ps : List Piece}
    (found : pieces skip text = some ps) : ∀ p ∈ ps, p.Plain ∧ p.error = none := by
  induction text generalizing skip ps with
  | nil => cases skip <;> cases found
  | cons c cs ih =>
    have more {skip size : Nat} {kind : TokenKind} (seen : kind ≠ .whitespace)
        (other : kind ≠ .asmContent)
        (found : (pieces skip cs).map ({ kind, size } :: ·) = some ps) :
        ∀ p ∈ ps, p.Plain ∧ p.error = none := by
      obtain ⟨rest, later, rfl⟩ := Option.map_eq_some_iff.mp found
      exact List.forall_mem_cons.mpr ⟨⟨Piece.plain_of_kind seen other, rfl⟩, ih later⟩
    cases skip with
    | succ skip => exact ih found
    | zero =>
      rw [pieces] at found
      split at found
      · cases found
        exact List.forall_mem_singleton.mpr ⟨Piece.plain_of_kind (by decide) (by decide), rfl⟩
      split at found
      · exact more (by decide) (by decide) found
      split at found
      · exact more (by decide) (by decide) found
      · exact more (by decide) (by decide) found

/-- Behind its directive a here-string sets a name, unless none stands there on the line. -/
theorem HereString.bare_or_named {text : List Char} (begins : beginsWith .string text = true) :
    pieces Directive.string.spelling.length text
        = [{ kind := .directive .string, size := Directive.string.spelling.length }]
      ∨ ∃ gap delimiter body, Named text gap delimiter body := by
  obtain ⟨rest, rfl⟩ := exists_of_beginsWith begins
  by_cases bare : name (rest.dropWhile isIndent) = []
  · rw [← String.length_toList]
    exact .inl (pieces_bare bare)
  · obtain ⟨gap, delimiter, body, rfl, indents, some_name, named⟩ := exists_name bare
    exact .inr ⟨gap, delimiter, body, begins, rfl, indents, some_name, named⟩

theorem HereString.pieces_spacing {text : List Char} (begins : beginsWith .string text = true) :
    Spacing text (pieces Directive.string.spelling.length text) := by
  rcases bare_or_named begins with bare | ⟨gap, delimiter, body, sets⟩
  · rw [bare]
    exact .single (Piece.plain_of_kind (by decide) (by decide))
  obtain ⟨-, rfl, indents, some_name, named⟩ := id sets
  rw [← String.length_toList]
  have whole := @exists_content (delimiter ++ body) (by rwa [named])
  rw [named, List.drop_left] at whole
  rw [pieces_named indents named some_name]
  cases found : findWord delimiter none body with
  | none =>
    rw [String.length_toList]
    exact .unclosed sets found
  | some offset =>
    obtain ⟨content, after, parts, rfl, some_content⟩ := whole found
    obtain rfl : body = content ++ (delimiter ++ after) := List.append_cancel_left parts
    have mark : Directive.string.spelling.length ≠ 0 := by decide
    have size : delimiter.length ≠ 0 := by simpa using some_name
    rw [String.length_toList]
    by_cases empty : gap = []
    · refine .several ?_
      simp [empty, mark, size, some_content, Piece.plain_of_kind]
    · have gap_size : gap.length ≠ 0 := by simpa using empty
      have closed := Spacing.closed sets empty
      simpa [spaced, mark, size, gap_size, some_content] using closed

theorem hash_spacing (text : List Char) : Spacing text (hash text) := by
  rw [hash]
  split
  · next string => exact HereString.pieces_spacing string
  split
  · next asm => exact .assembly asm
  · rw [directive]
    split
    · exact .several (by simp)
    · split
      · exact .single (Piece.plain_of_kind (by simp) (by simp))
      · exact .single (Piece.plain_of_kind (by simp) (by simp))
      · exact .single ⟨by simp [Piece.faulty], by simp [Piece.isRaw, Piece.faulty],
          by simp [Piece.faulty]⟩

theorem recognise_spacing (text : List Char) : Spacing text (recognise text) := by
  have faulty {cause : Cause} {size : Nat} (soft : cause ≠ .unterminatedAsm)
      (other : ∀ expected found, cause ≠ .mismatchedHereString expected found) :
      Spacing text [.faulty cause size] :=
    .single ⟨by simp [Piece.faulty], by simp [Piece.isRaw, Piece.faulty, soft],
      by simpa [Piece.faulty] using other⟩
  have sound {kind : TokenKind} {size : Nat} (seen : kind ≠ .whitespace)
      (other : kind ≠ .asmContent) : Spacing text [{ kind, size }] :=
    .single (Piece.plain_of_kind seen other)
  cases text with
  | nil => exact .several (by simp [recognise])
  | cons c cs =>
    rw [recognise]
    split
    · next blank => exact .blanks rfl blank
    split
    · exact sound (by decide) (by decide)
    split
    · rw [Comment.block]
      split
      · have kinds : ∀ kind, kind = Comment.blockKind (c :: cs) →
            kind ≠ .whitespace ∧ kind ≠ .asmContent := by
          rw [Comment.blockKind]
          split
          all_goals simp
        exact sound (kinds _ rfl).1 (kinds _ rfl).2
      · exact faulty (by simp) (by simp)
    split
    · exact hash_spacing _
    split
    · exact sound (by decide) (by decide)
    split
    · exact sound (by decide) (by decide)
    split
    · rw [Quotation.string]
      split
      · next ps found =>
        refine .several (List.forall_mem_cons.mpr ⟨⟨?_, rfl⟩, Quotation.pieces_plain found⟩)
        exact Piece.plain_of_kind (by decide) (by decide)
      · exact faulty (by simp) (by simp)
    · rw [operator]
      split
      · next kind found =>
        have spelled : ∀ kind ∈ operators, kind ≠ .whitespace ∧ kind ≠ .asmContent := by decide
        obtain ⟨seen, other⟩ := spelled kind (List.mem_of_find?_eq_some found)
        exact sound seen other
      · exact .several (by simp)

theorem group_spacing (text : List Char) : Spacing text (group text) := by
  have spacing := recognise_spacing text
  rw [group]
  split
  · exact .single ⟨by simp [Piece.faulty], by simp [Piece.isRaw, Piece.faulty],
      by simp [Piece.faulty]⟩
  · exact spacing

theorem group_of_recognise {text : List Char} {p : Piece} {ps : List Piece}
    (h : recognise text = p :: ps) : group text = p :: ps := by
  rw [group, h]

theorem recognise_string {text : List Char} (begins : beginsWith .string text = true) :
    recognise text = HereString.pieces Directive.string.spelling.length text := by
  obtain ⟨rest, rfl⟩ := exists_of_beginsWith begins
  have hashes : recognise (Directive.string.spelling.toList ++ rest)
      = hash (Directive.string.spelling.toList ++ rest) := rfl
  rw [hashes, hash, if_pos begins]

theorem not_string_of_asm {text : List Char} (begins : beginsWith .asm text = true) :
    ¬beginsWith .string text = true := by
  obtain ⟨rest, rfl⟩ := exists_of_beginsWith begins
  intro string
  rw [beginsWith, Bool.and_eq_true] at string
  exact absurd string.1 (by simp [Directive.spelling, List.isPrefixOf])

theorem recognise_asm {text : List Char} (begins : beginsWith .asm text = true) :
    recognise text = Assembly.pieces Directive.asm.spelling.length text := by
  obtain ⟨rest, rfl⟩ := exists_of_beginsWith begins
  have hashes : recognise (Directive.asm.spelling.toList ++ rest)
      = hash (Directive.asm.spelling.toList ++ rest) := rfl
  rw [hashes, hash, if_neg (not_string_of_asm begins), if_pos begins]

theorem group_asm {text : List Char}
    (begins : beginsWith .asm (Directive.asm.spelling.toList ++ text) = true) :
    group (Directive.asm.spelling.toList ++ text)
      = { kind := .directive .asm, size := Directive.asm.spelling.length }
        :: Assembly.features 0 text := by
  refine group_of_recognise ?_
  rw [recognise_asm begins, Assembly.pieces, ← String.length_toList, List.drop_left]

theorem HereString.Named.ne_nil {text gap delimiter body : List Char}
    (sets : Named text gap delimiter body) : text ≠ [] := by
  rw [sets.whole]
  exact List.append_ne_nil_of_left_ne_nil (by decide) _

theorem HereString.Named.group_unclosed {text gap delimiter body : List Char}
    (sets : Named text gap delimiter body) (unfound : findWord delimiter none body = none) :
    group text = [.faulty (unclosed delimiter body).1
      (Directive.string.spelling.length + gap.length + delimiter.length
        + (unclosed delimiter body).2)] := by
  obtain ⟨begins, rfl, indents, some_name, named⟩ := sets
  refine group_of_recognise ?_
  rw [recognise_string begins, ← String.length_toList, pieces_named indents named some_name,
    unfound]

/-- Each piece of blanks takes all the blanks that stand where it begins. -/
def Piece.Spaced (text : List Char) : List Piece → Prop
  | [] => True
  | p :: ps => (p.kind = .whitespace → p.size = (text.takeWhile isBlank).length)
    ∧ Spaced (text.drop p.size) ps

namespace Piece

theorem spaced_of_none {text : List Char} {pieces : List Piece}
    (seen : ∀ p ∈ pieces, p.kind ≠ .whitespace) : Spaced text pieces := by
  induction pieces generalizing text with
  | nil => trivial
  | cons p ps ih =>
    obtain ⟨first, later⟩ := List.forall_mem_cons.mp seen
    exact ⟨fun blank => absurd blank first, ih later⟩

/-- A token of blanks is all the blanks that stand where it begins. -/
theorem Spaced.token {start : Nat} {text : List Char} {pieces : List Piece}
    {before inner : List Token} {w : Token} (spaced : Spaced text pieces)
    (split : tokens start text pieces = before ++ w :: inner) (blank : w.kind = .whitespace) :
    ∃ rest, text = before.flatMap (fun t => t.text.toList) ++ rest
      ∧ w.text.toList = rest.takeWhile isBlank := by
  induction pieces generalizing start text before with
  | nil => simp [tokens] at split
  | cons p ps ih =>
    rw [tokens] at split
    cases before with
    | nil =>
      obtain ⟨rfl, -⟩ := List.cons.inj split
      refine ⟨text, rfl, ?_⟩
      rw [String.toList_ofList, spaced.1 blank]
      exact take_length_takeWhile isBlank text
    | cons t ts =>
      obtain ⟨rfl, later⟩ := List.cons.inj split
      obtain ⟨rest, parts, all⟩ := ih spaced.2 later
      refine ⟨rest, ?_, all⟩
      rw [List.flatMap_cons, String.toList_ofList, List.append_assoc, ← parts,
        List.take_append_drop]

end Piece

theorem Assembly.not_whitespace_of_mem_body {text : List Char} {p : Piece}
    (member : p ∈ body text) : p.kind ≠ .whitespace := by
  rw [body] at member
  split at member
  · have among := List.mem_of_mem_filter member
    simp only [List.mem_cons, List.not_mem_nil, or_false] at among
    rcases among with rfl | rfl | rfl
    all_goals simp
  · rw [List.mem_singleton.mp member]
    simp [Piece.faulty]

theorem Assembly.features_spaced (skip : Nat) (text : List Char) :
    Piece.Spaced (text.drop skip) (features skip text) := by
  induction text generalizing skip with
  | nil => simp [features, Piece.Spaced]
  | cons c cs ih =>
    cases skip with
    | succ skip => exact ih skip
    | zero =>
      have behind (size : Nat) :
          Piece.Spaced ((c :: cs).drop (1 + size)) (features size cs) := by
        rw [Nat.add_comm, List.drop_succ_cons]
        exact ih size
      rw [features, List.drop_zero]
      split
      · exact Piece.spaced_of_none fun p => not_whitespace_of_mem_body
      split
      · exact ⟨by simp, behind 0⟩
      split
      · next blank =>
        refine ⟨fun _ => ?_, behind _⟩
        rw [List.takeWhile_cons_of_pos blank, List.length_cons, Nat.add_comm]
      split
      · exact ⟨by simp, behind _⟩
      · trivial

theorem group_spaced (text : List Char) : Piece.Spaced text (group text) := by
  have spacing := group_spacing text
  generalize group text = pieces at spacing
  cases spacing with
  | single plain => exact ⟨fun blank => absurd blank plain.kind, trivial⟩
  | several plain => exact Piece.spaced_of_none fun p member => (plain p member).1.kind
  | blanks => exact ⟨fun _ => rfl, trivial⟩
  | @closed gap delimiter content rest sets =>
    have all := takeWhile_isBlank (fun c member => isBlank_of_isIndent (sets.indents c member))
      (not_isBlank_of_name (by rw [sets.named]; exact sets.some_name))
    refine ⟨by simp, fun _ => ?_, by simp, by simp, by simp, trivial⟩
    rw [sets.whole, ← String.length_toList, List.drop_left, all]
  | unclosed => exact ⟨by simp [Piece.faulty], trivial⟩
  | assembly => exact ⟨by simp, Assembly.features_spaced 0 _⟩

theorem scan_spaced {start : Nat} {text : List Char} {before after : List Token} {w : Token}
    (split : scan 0 start text = before ++ w :: after) (blank : w.kind = .whitespace) :
    ∃ rest, text = before.flatMap (fun t => t.text.toList) ++ rest
      ∧ w.text.toList = rest.takeWhile isBlank := by
  obtain ⟨earlier, mine, position, rest, inner, rfl, rfl, -, own, -⟩ :=
    exists_group split (by rintro position rfl; cases blank)
  obtain ⟨behind, parts, all⟩ := (group_spaced rest).token own blank
  refine ⟨behind, ?_, all⟩
  nth_rewrite 1 [parts]
  rw [List.flatMap_append, List.append_assoc]

/-- The characters of the tokens one after the other. -/
def charsOf (tokens : List Token) : List Char := tokens.flatMap fun t => t.text.toList

theorem charsOf_append (a b : List Token) : charsOf (a ++ b) = charsOf a ++ charsOf b :=
  List.flatMap_append

theorem charsOf_scan (start : Nat) (text : List Char) : charsOf (scan 0 start text) = text :=
  (scan_tiles start text).flatMap_text

/-- A token of blanks holds nothing else, and no other blank stands right behind it. -/
theorem blanks_of_scan {start : Nat} {text : List Char} {before after : List Token} {w : Token}
    (split : scan 0 start text = before ++ w :: after) (blank : w.kind = .whitespace) :
    text = charsOf before ++ (w.text.toList ++ charsOf after) ∧ w.text.toList ≠ []
      ∧ (∀ c ∈ w.text.toList, isBlank c = true)
      ∧ ∀ c ∈ (charsOf after).head?, isBlank c = false := by
  have whole : text = charsOf before ++ (w.text.toList ++ charsOf after) := by
    rw [← charsOf_scan start text, split, charsOf_append]
    rfl
  obtain ⟨rest, parts, all⟩ := scan_spaced split blank
  have same : rest = w.text.toList ++ charsOf after := by
    rw [parts] at whole
    exact List.append_cancel_left whole
  refine ⟨whole, ?_, ?_, ?_⟩
  · obtain ⟨body, found, sound⟩ := scan_eq_append start text
    have member : w ∈ body ++ [Token.eofAt (start + width text)] := by
      rw [← found, split]
      simp
    rcases List.mem_append.mp member with member | last
    · intro empty
      exact (sound w member).2.1 (String.toList_eq_nil_iff.mp empty)
    · rw [List.mem_singleton.mp last] at blank
      cases blank
  · rw [all]
    exact List.all_eq_true.mp List.all_takeWhile
  · have ends : rest.dropWhile isBlank = charsOf after := by
      rw [← drop_length_takeWhile, ← all, same, List.drop_left]
    intro c first
    have stop := List.head?_dropWhile_not isBlank rest
    rw [ends, Option.mem_def.mp first] at stop
    exact stop

end JaiTree.Lexer
