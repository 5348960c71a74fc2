import JaiTree.Proofs.Lexer.Strings
import JaiTree.Proofs.Lexer.Truncated

/-!
Tokens by themselves: all that a lexer cuts off, but what stands only within something else, is cut
off in the same way where nothing stands around it. Main statement: `Lexer.tokenize_alone`.
-/

namespace JaiTree

/-- Whether tokens of the kind stand only around or within a string, within a here-string or an
assembly block, or at the end of a text. -/
def TokenKind.isInner : TokenKind → Bool
  | .eof | .doubleQuote | .stringContent | .escapeSequence | .stringPlaceholder
  | .hereStringContent | .asmContent => true
  | _ => false

namespace Lexer

open Text

/-- Each piece is cut off in the same way by itself, unless it is an inner one or raw text without
an end. -/
def Piece.Again : List Char → List Piece → Prop
  | _, [] => True
  | text, p :: ps =>
    (p.kind.isInner = false → p.error ≠ some .unterminatedAsm → group (text.take p.size) = [p])
      ∧ Again (text.drop p.size) ps

namespace Piece

variable {text : List Char} {p : Piece} {pieces : List Piece}

theorem Again.single (alone : group (text.take p.size) = [p]) : Again text [p] :=
  ⟨fun _ _ => alone, trivial⟩

theorem Again.head {part : List Char} (begins : part <+: text) (size : p.size = part.length)
    (alone : group part = [p]) : Again text [p] :=
  .single (by rw [size, ← List.prefix_iff_eq_take.mp begins, alone])

theorem Again.inner (inner : ∀ p ∈ pieces, p.kind.isInner = true) : Again text pieces := by
  induction pieces generalizing text with
  | nil => trivial
  | cons p ps ih =>
    obtain ⟨first, later⟩ := List.forall_mem_cons.mp inner
    refine ⟨fun outer => ?_, ih later⟩
    rw [first] at outer
    cases outer

/-- Pieces of a text that is given part by part are cut off again if each is from its part. -/
theorem Again.cons (part : List Char) {rest : List Char} {kind : TokenKind}
    (alone : kind.isInner = false → group part = [{ kind, size := part.length }])
    (again : Again rest pieces) :
    Again (part ++ rest) ({ kind, size := part.length } :: pieces) := by
  refine ⟨fun outer _ => ?_, ?_⟩
  · rw [List.take_left]
    exact alone outer
  · rwa [List.drop_left]

theorem Again.past (part : List Char) {rest : List Char} {kind : TokenKind}
    (inner : kind.isInner = true) (again : Again rest pieces) :
    Again (part ++ rest) ({ kind, size := part.length } :: pieces) := by
  refine .cons part (fun outer => ?_) again
  rw [inner] at outer
  cases outer

theorem Again.token {start : Nat} {before inner : List Token} {t : Token}
    (again : Again text pieces) (split : tokens start text pieces = before ++ t :: inner)
    (outer : t.kind.isInner = false) (ended : t.error ≠ some .unterminatedAsm) :
    ∃ size, t.text.toList.length ≤ size
      ∧ group t.text.toList = [{ kind := t.kind, size, error := t.error }] := by
  induction pieces generalizing start text before with
  | nil => simp [tokens] at split
  | cons p ps ih =>
    rw [tokens] at split
    cases before with
    | nil =>
      obtain ⟨rfl, -⟩ := List.cons.inj split
      refine ⟨p.size, ?_, ?_⟩
      · rw [String.toList_ofList]
        exact List.length_take_le p.size text
      · rw [String.toList_ofList]
        exact again.1 outer ended
    | cons u us => exact ih again.2 (List.cons.inj split).2

end Piece

theorem group_blanks {blanks : List Char} (some_char : blanks ≠ [])
    (blank : ∀ c ∈ blanks, isBlank c = true) :
    group blanks = [{ kind := .whitespace, size := blanks.length }] := by
  obtain ⟨c, cs, rfl⟩ := List.exists_cons_of_ne_nil some_char
  rw [group_blank (blank c List.mem_cons_self), List.takeWhile_eq_self_iff.mpr blank]

theorem group_word {word : List Char} (isName_word : isName word = true) :
    group word = [{ kind := .identifier, size := word.length }] := by
  have whole := name_of_isName isName_word
  have some_name : name word ≠ [] := by
    rw [whole]
    rintro rfl
    cases isName_word
  obtain ⟨c, cs, rfl, starts, named⟩ := name_eq_cons some_name
  rw [named] at whole
  rw [group_name starts, (List.cons.inj whole).2, List.length_cons, Nat.add_comm]

theorem group_line (cs : List Char) :
    group ('/' :: '/' :: cs) = Comment.line ('/' :: '/' :: cs) := rfl

theorem group_block (cs : List Char) :
    group ('/' :: '*' :: cs) = Comment.block ('/' :: '*' :: cs) := by
  have first : recognise ('/' :: '*' :: cs) = Comment.block ('/' :: '*' :: cs) := rfl
  rw [group, first, Comment.block]
  cases Comment.closing (('/' :: '*' :: cs).drop 2) <;> rfl

theorem group_number {c : Char} (digit : c.isDigit = true) (cs : List Char) :
    group (c :: cs) = [{ kind := .number, size := Number.size (c :: cs) }] := by
  have named : isNameChar c = true := by simp [isNameChar, Char.isAlphanum, digit]
  have starts := not_isNameStart_of_isDigit digit
  have other (d : Char) (none : d.isDigit = false) : c ≠ d := by
    rintro rfl
    rw [digit] at none
    cases none
  have slash := other '/' (by decide)
  have hash := other '#' (by decide)
  simp [group, recognise, not_isBlank_of_isNameChar named, slash.symm, hash, starts, digit,
    List.isPrefixOf]

theorem group_spelling (d : Directive) :
    group d.spelling.toList = [{ kind := .directive d, size := d.spelling.toList.length }] := by
  have all : ∀ d ∈ Directive.all,
      group d.spelling.toList = [{ kind := .directive d, size := d.spelling.toList.length }] := by
    decide +kernel
  exact all d (Directive.mem_all d)

theorem group_operator {kind : TokenKind} (member : kind ∈ operators) :
    group kind.text.toList = [{ kind, size := kind.text.length }] := by
  have all : ∀ kind ∈ operators,
      group kind.text.toList = [{ kind, size := kind.text.length }] := by
    decide +kernel
  exact all kind member

/-- A hash sign and a name that make no known directive begin none of those before raw text. -/
theorem not_beginsWith {word : List Char} (named : ∀ c ∈ word, isNameChar c = true)
    (unknown : Directive.ofText? (String.ofList ('#' :: word)) = none) (d : Directive) :
    beginsWith d ('#' :: word) = false := by
  cases begins : beginsWith d ('#' :: word) with
  | false => rfl
  | true =>
    obtain ⟨rest, whole⟩ := exists_of_beginsWith begins
    rw [whole, beginsWith_append, wordEnds] at begins
    cases rest with
    | nil =>
      -- Then the directive is all there is, and it is known.
      rw [List.append_nil] at whole
      rw [whole, String.ofList_toList, Directive.ofText?_spelling] at unknown
      cases unknown
    | cons c cs =>
      -- Then a name goes on behind the directive, which does not end there.
      have some_char : d.spelling.toList ≠ [] := by cases d <;> decide
      obtain ⟨e, es, spelled⟩ := List.exists_cons_of_ne_nil some_char
      rw [spelled, List.cons_append] at whole
      have member : c ∈ word := by
        rw [(List.cons.inj whole).2]
        simp
      have continues := isWordChar_of_isNameChar (named c member)
      simp [continues] at begins

theorem group_unknown {word : List Char} (isName_word : isName word = true)
    (unknown : Directive.ofText? (String.ofList ('#' :: word)) = none) :
    group ('#' :: word)
      = [.faulty (.unknownDirective (String.ofList ('#' :: word))) ('#' :: word).length] := by
  have named := isNameChar_of_isName isName_word
  have long : ¬('#' :: word).length ≤ 1 := by
    cases word with
    | nil => cases isName_word
    | cons c cs => simp
  refine group_of_recognise ?_
  have hashes : recognise ('#' :: word) = hash ('#' :: word) := rfl
  have base : ('#' :: word).take 1 ++ name (('#' :: word).drop 1) = '#' :: word := by
    rw [List.take_succ_cons, List.take_zero, List.drop_succ_cons, List.drop_zero,
      name_of_isName isName_word]
    rfl
  have unended : directiveEnding (('#' :: word).drop ('#' :: word).length) = [] := by
    rw [List.drop_length]
    rfl
  have unbegun (d : Directive) : ¬beginsWith d ('#' :: word) = true := by
    rw [not_beginsWith named unknown d]
    exact Bool.false_ne_true
  rw [hashes, hash, if_neg (unbegun .string), if_neg (unbegun .asm), directive, base, unended,
    List.append_nil, if_neg long, unknown]

section

open Piece

theorem Comment.line_again (cs : List Char) :
    Again ('/' :: '/' :: cs) (line ('/' :: '/' :: cs)) := by
  refine .head (List.takeWhile_prefix (· != '\n')) rfl ?_
  have begins : ('/' :: '/' :: cs).takeWhile (· != '\n')
      = '/' :: '/' :: cs.takeWhile (· != '\n') := rfl
  rw [begins, group_line, line, ← begins, List.takeWhile_idem]

theorem Comment.block_again (cs : List Char) :
    Again ('/' :: '*' :: cs) (block ('/' :: '*' :: cs)) := by
  have alone := group_block cs
  rw [block] at alone ⊢
  cases found : closing (('/' :: '*' :: cs).drop 2) with
  | none =>
    rw [found] at alone
    exact .head List.prefix_rfl rfl alone
  | some inner =>
    refine .single ?_
    have again := closing_take found
    have taken : ('/' :: '*' :: cs).take (inner + 4) = '/' :: '*' :: cs.take (inner + 2) := rfl
    dsimp only
    rw [taken, group_block, block, ← taken, blockKind_take (Nat.le_add_left 4 inner), taken,
      List.drop_succ_cons, List.drop_succ_cons, List.drop_zero]
    rw [List.drop_succ_cons, List.drop_succ_cons, List.drop_zero] at again
    rw [again]

theorem Quotation.string_again (cs : List Char) : Again ('"' :: cs) (string ('"' :: cs)) := by
  have alone := group_quote cs
  rw [string] at alone ⊢
  cases found : pieces 0 (('"' :: cs).drop 1) with
  | none =>
    rw [found] at alone
    exact .head List.prefix_rfl rfl alone
  | some ps =>
    obtain ⟨inner, kinds, sound⟩ := pieces_kinds found
    refine .inner (List.forall_mem_cons.mpr ⟨rfl, fun p member => ?_⟩)
    have among : p.kind ∈ Piece.kindsOf ps := List.mem_map_of_mem member
    rw [kinds] at among
    rcases List.mem_append.mp among with piece | quote
    · have isPiece := sound _ piece
      generalize p.kind = kind at isPiece
      cases kind
      all_goals first | rfl | cases isPiece
    · rw [List.mem_singleton.mp quote]
      rfl

theorem number_again {c : Char} (digit : c.isDigit = true) (cs : List Char) :
    Again (c :: cs) [{ kind := .number, size := Number.size (c :: cs) }] := by
  refine .single ?_
  dsimp only
  have pos := (Number.size_fits cs digit).1
  have again := Number.size_take (c :: cs)
  rw [List.take_cons pos] at again ⊢
  rw [group_number digit, again]

theorem operator_again (text : List Char) : Again text (operator text) := by
  rw [operator]
  split
  · next kind found =>
    have stands := List.find?_some found
    have begins := List.isPrefixOf_iff_prefix.mp stands
    exact .head begins String.length_toList.symm (group_operator (List.mem_of_find?_eq_some found))
  · trivial

theorem isPrefix_directiveEnding (text : List Char) : directiveEnding text <+: text := by
  unfold directiveEnding
  split
  · next cs =>
    split
    · exact List.nil_prefix
    · exact List.cons_prefix_cons.mpr ⟨rfl, isPrefix_name cs⟩
  · exact List.nil_prefix

theorem directive_again (cs : List Char) : Again ('#' :: cs) (directive ('#' :: cs)) := by
  have hashed : ('#' :: cs).take 1 ++ name (('#' :: cs).drop 1) = '#' :: name cs := rfl
  have begins : '#' :: name cs <+: '#' :: cs := List.cons_prefix_cons.mpr ⟨rfl, isPrefix_name cs⟩
  have ended : '#' :: name cs ++ directiveEnding (('#' :: cs).drop ('#' :: name cs).length)
      <+: '#' :: cs := by
    obtain ⟨rest, whole⟩ := begins
    rw [← whole, List.drop_left, List.prefix_append_right_inj]
    exact isPrefix_directiveEnding rest
  have known {d : Directive} {word : List Char} (inside : word <+: '#' :: cs)
      (found : Directive.ofText? (String.ofList word) = some d) :
      Again ('#' :: cs) [{ kind := .directive d, size := word.length }] := by
    refine .head inside rfl ?_
    rw [← spelling_of_ofText? found, group_spelling]
  rw [directive, hashed]
  split
  · trivial
  · next long =>
    split
    · next d found => exact known ended found
    · next d _ found => exact known begins found
    · next unknown =>
      have some_name : name cs ≠ [] := by
        intro none
        simp [none] at long
      exact .head begins rfl (group_unknown (isName_name some_name) unknown)

namespace Assembly

theorem body_again (cs : List Char) : Again ('\x7b' :: cs) (body ('\x7b' :: cs)) := by
  have parts := List.takeWhile_append_dropWhile (p := (· != '\x7d')) (l := cs)
  rw [body, List.drop_succ_cons, List.drop_zero]
  split
  · next closed =>
    cases behind : cs.dropWhile (· != '\x7d') with
    | nil =>
      rw [behind, List.append_nil] at parts
      rw [parts, List.length_cons] at closed
      exact absurd closed (Nat.lt_irrefl _)
    | cons d ds =>
      obtain rfl : d = '\x7d' := by simpa using not_of_dropWhile_eq_cons behind
      rw [behind] at parts
      generalize cs.takeWhile (· != '\x7d') = content at parts
      subst parts
      have closing : Again ('\x7d' :: ds) [{ kind := .closeCurly, size := 1 }] :=
        .cons ['\x7d'] (fun _ => group_closeCurly []) trivial
      have opening {text : List Char} {pieces : List Piece} (again : Again text pieces) :
          Again ('\x7b' :: text) ({ kind := .openCurly, size := 1 } :: pieces) :=
        .cons ['\x7b'] (fun _ => group_openCurly []) again
      cases content with
      | nil => exact opening closing
      | cons e es => exact opening (.past (e :: es) rfl closing)
  · exact ⟨fun _ ended => absurd rfl ended, trivial⟩

theorem features_again (skip : Nat) (text : List Char) :
    Again (text.drop skip) (features skip text) := by
  induction text generalizing skip with
  | nil => simp [features, Again]
  | cons c cs ih =>
    cases skip with
    | succ skip => exact ih skip
    | zero =>
      cases features_head c with
      | brace brace =>
        subst brace
        rw [features_brace]
        exact body_again cs
      | @feature kind p feature alone splits =>
        rw [splits]
        refine ⟨fun _ _ => ?_, ?_⟩
        · rw [List.drop_zero, Nat.add_comm 1, List.take_succ_cons, take_length_takeWhile, alone,
            List.takeWhile_idem, Nat.add_comm 1]
        · rw [List.drop_zero, Nat.add_comm 1, List.drop_succ_cons]
          exact ih _
      | other none =>
        rw [none]
        trivial

theorem pieces_again {text : List Char} (begins : beginsWith .asm text = true) :
    Again text (pieces Directive.asm.spelling.length text) := by
  obtain ⟨rest, rfl⟩ := exists_of_beginsWith begins
  rw [pieces, ← String.length_toList, List.drop_left]
  exact .cons _ (fun _ => group_spelling .asm) (features_again 0 rest)

end Assembly

namespace HereString

theorem spaced_again {gap delimiter content after : List Char} (some_gap : gap ≠ [])
    (indents : ∀ c ∈ gap, isIndent c = true) (isName_delimiter : isName delimiter = true) :
    Again (Directive.string.spelling.toList
        ++ (gap ++ (delimiter ++ (content ++ (delimiter ++ after)))))
      (spaced gap delimiter content) := by
  have blank := group_blanks some_gap fun c member => isBlank_of_isIndent (indents c member)
  have word := group_word isName_delimiter
  exact .cons _ (fun _ => group_spelling .string) (.cons gap (fun _ => blank)
    (.cons delimiter (fun _ => word) (.past content rfl (.cons delimiter (fun _ => word) trivial))))

theorem group_again {text : List Char} (begins : beginsWith .string text = true) :
    Again text (group text) := by
  rcases bare_or_named begins with bare | ⟨gap, delimiter, body, sets⟩
  · obtain ⟨rest, rfl⟩ := exists_of_beginsWith begins
    rw [← recognise_string begins, ← String.length_toList] at bare
    rw [group_of_recognise bare]
    exact .cons _ (fun _ => group_spelling .string) trivial
  obtain ⟨-, rfl, indents, some_name, named⟩ := id sets
  have some_head : name (delimiter ++ body) ≠ [] := by rwa [named]
  cases found : findWord delimiter none body with
  | none =>
    -- What is to blame ends before a blank, so no closing name comes about where the text is cut.
    rw [sets.group_unclosed found]
    have again := sets.take (unclosed delimiter body).2
    obtain ⟨same, blank⟩ := unclosed_take delimiter body
    have unfound := findWord_take some_name found fun c first =>
      not_isNameChar_of_isBlank (blank c first)
    refine .single ?_
    have alone := again.group_unclosed unfound
    rw [same] at alone
    exact alone
  | some offset =>
    have isName_delimiter := isName_name some_head
    have closes := @exists_content _ some_head offset
    rw [named] at isName_delimiter closes
    rw [List.drop_left] at closes
    obtain ⟨content, after, parts, rfl, -⟩ := closes found
    obtain rfl : body = content ++ (delimiter ++ after) := List.append_cancel_left parts
    rw [sets.group_closed found]
    exact spaced_again sets.gap_ne_nil indents isName_delimiter

end HereString

/-- Where a character begins no token, it begins none by itself. -/
theorem recognise_single {c : Char} {cs : List Char} (none : recognise (c :: cs) = []) :
    recognise [c] = [] := by
  have slashes (d : Char) : ['/', d].isPrefixOf [c] = false := by simp [List.isPrefixOf]
  rw [recognise] at none
  split at none
  · cases none
  next blank =>
  split at none
  · cases none
  split at none
  · rw [Comment.block] at none
    split at none
    all_goals cases none
  split at none
  · next hashed =>
    subst hashed
    rfl
  next hashed =>
  split at none
  · cases none
  next starts =>
  split at none
  · cases none
  next digit =>
  split at none
  · rw [Quotation.string] at none
    split at none
    all_goals cases none
  next quoted =>
  rw [recognise, if_neg blank, slashes, slashes, if_neg hashed, if_neg starts, if_neg digit,
    if_neg quoted, operator]
  rw [operator] at none
  split at none
  · cases none
  next unfound =>
  have absent : operators.find? (fun kind => kind.text.toList.isPrefixOf [c]) = .none := by
    rw [List.find?_eq_none] at unfound ⊢
    intro kind member begins
    have first : [c] <+: c :: cs := List.cons_prefix_cons.mpr ⟨rfl, List.nil_prefix⟩
    exact unfound kind member
      (List.isPrefixOf_iff_prefix.mpr ((List.isPrefixOf_iff_prefix.mp begins).trans first))
  simp [absent]

theorem recognise_again {text : List Char} (other : ¬beginsWith .string text = true) :
    Again text (recognise text) := by
  cases text with
  | nil => trivial
  | cons c cs =>
    rw [recognise]
    split
    · next blank =>
      have run := List.takeWhile_cons_of_pos (l := cs) blank
      exact .head (List.takeWhile_prefix isBlank) rfl
        (group_blanks (by simp [run]) (List.all_eq_true.mp List.all_takeWhile))
    split
    · next line =>
      obtain ⟨rest, whole⟩ := List.isPrefixOf_iff_prefix.mp line
      rw [← whole]
      exact Comment.line_again rest
    split
    · next block =>
      obtain ⟨rest, whole⟩ := List.isPrefixOf_iff_prefix.mp block
      rw [← whole]
      exact Comment.block_again rest
    split
    · next hashed =>
      subst hashed
      rw [hash, if_neg other]
      split
      · next asm => exact Assembly.pieces_again asm
      · exact directive_again cs
    split
    · next starts =>
      have some_name : name (c :: cs) ≠ [] := by simp [name, starts]
      exact .head (isPrefix_name (c :: cs)) rfl (group_word (isName_name some_name))
    split
    · next digit => exact number_again digit cs
    split
    · next quoted =>
      subst quoted
      exact Quotation.string_again cs
    · exact operator_again (c :: cs)

/-- Whatever a text begins with, the pieces cut from its head are cut off again one by one. -/
theorem group_again (text : List Char) : Again text (group text) := by
  -- How a here-string is cut depends on all that stands behind it, and not on its head alone.
  by_cases string : beginsWith .string text = true
  · exact HereString.group_again string
  · have again := recognise_again string
    rw [group]
    split
    · next none =>
      refine .single ?_
      cases text with
      | nil => rfl
      | cons c cs =>
        rw [Piece.faulty, List.take_succ_cons, List.take_zero, group, recognise_single none]
        rfl
    · exact again

end

/-- The characters of a token are cut into that token alone, with the same kind and the same thing
wrong with it, unless it stands only around or within something else or is an assembly block whose
raw text has no end. -/
theorem tokenize_alone {source : String} {t : Token} (member : t ∈ tokenize source)
    (outer : t.kind.isInner = false) (ended : t.error ≠ some .unterminatedAsm) :
    tokenize t.text = [{ t with start := 0 }, .eofAt t.text.utf8ByteSize] := by
  obtain ⟨before, after, split⟩ := List.append_of_mem member
  have other (position : Nat) : t ≠ .eofAt position := by
    rintro rfl
    cases outer
  obtain ⟨-, mine, position, rest, inner, -, -, some_rest, own, -⟩ := exists_group split other
  obtain ⟨size, long, alone⟩ := (group_again rest).token own outer ended
  have cut : t ∈ Piece.tokens position rest (group rest) := own ▸ List.mem_append_cons_self
  have some_char : t.text.toList ≠ [] := fun none =>
    (Piece.mem_tokens (group_fit some_rest).1 cut).2.1 (String.toList_eq_nil_iff.mp none)
  have width : Text.width t.text.toList = t.text.utf8ByteSize := by
    rw [← utf8ByteSize_ofList, String.ofList_toList]
  have whole := scan_group 0 some_char
  rw [alone, Piece.total_cons, Piece.total_nil, Nat.add_zero, Piece.tokens, Piece.tokens,
    List.take_of_length_le long, List.drop_eq_nil_of_le long, width, String.ofList_toList,
    Nat.zero_add, scan] at whole
  exact whole

/-- A here-string without an end, up to a wrong closing name with more lines behind it, is cut off
again with the same name to blame. -/
theorem tokenize_alone_unclosed :
    let wrong : Token :=
      { kind := .error, text := "#string A\n foo", start := 5,
        error := some (.mismatchedHereString "A" "foo") }
    wrong ∈ tokenize "x :: #string A\n foo\nbar baz;"
      ∧ tokenize wrong.text = [{ wrong with start := 0 }, .eofAt 14] := by
  intro wrong
  have member : wrong ∈ tokenize "x :: #string A\n foo\nbar baz;" := by decide +kernel
  exact ⟨member, tokenize_alone member rfl (by decide)⟩

end Lexer

end JaiTree
