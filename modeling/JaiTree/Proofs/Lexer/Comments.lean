import JaiTree.Proofs.Lexer.Inserted
import JaiTree.Proofs.Lexer.Places

/-!
Comments among blanks: wherever blanks stand in a text, a comment among them changes nothing of what
the grammar sees, but for the places that take blanks only. Main statement: `tokenize_comment`.
-/

namespace JaiTree

open Text

namespace Lexer

/-- Behind features no comment can stand just when raw text follows. -/
theorem onlyBlanks_iff {start : Nat} {head post : List Char} {pieces : List Piece} {w : Token}
    {before after : List Token} (some_char : head ++ post ≠ [])
    (split : scan 0 start (head ++ post) = before ++ w :: after)
    (ends : Piece.tokens start (head ++ post) pieces = before ++ [w])
    (total : Piece.total pieces = head.length)
    (whole : group (head ++ post) = pieces ++ Assembly.features 0 post)
    (sound : ∀ t ∈ before, ∀ expected found,
      t.error ≠ some (.mismatchedHereString expected found)) :
    OnlyBlanks w before after ↔ (Assembly.features 0 post).any Piece.isRaw = true := by
  have cuts : Cuts _ (group (head ++ post)) := .group some_char
  have behind : (head ++ post).drop (Piece.total pieces) = post := by rw [total, List.drop_left]
  rw [whole] at cuts
  by_cases plain : (Assembly.features 0 post).any Piece.isRaw = true
  · refine iff_of_true ?_ plain
    obtain ⟨features, raw, closing, found, kinds, held⟩ := Assembly.features_raw plain
    rw [cuts start, Piece.tokens_append, ends, List.append_assoc, List.append_assoc,
      List.append_cancel_left_eq, List.singleton_append, List.cons.injEq, behind, found,
      Piece.tokens_append, Piece.tokens, List.append_assoc] at split
    rw [← split.2]
    refine .assembly (fun t member => ?_) ?_
    · obtain ⟨p, among, kind, -⟩ := Piece.exists_of_mem_tokens member
      rw [kind]
      exact kinds p among
    · simpa [Piece.isRaw] using held
  · refine iff_of_false (fun only => ?_) plain
    have alone : Cuts ((head ++ post).drop (Piece.total pieces)) (Assembly.features 0 post) := by
      rw [behind]
      exact Assembly.features_alone (Bool.not_eq_true _ ▸ plain)
    have first := (Cuts.iff_left alone).mp cuts start
    rw [split, ends, List.append_assoc, List.append_cancel_left_eq, List.singleton_append,
      List.cons.injEq] at first
    rw [first.2] at only
    obtain ⟨earlier, bad, expected, found, rfl, wrong⟩ := wrongName_of_scan only
    exact sound bad (by simp) expected found wrong

section

variable {start : Nat} {text : List Char} {w : Token} {before inner after : List Token}
  (split : scan 0 start text = before ++ w :: after) (space : w.kind = .whitespace)
include split space

/-- Blanks that are cut off alone take a comment. -/
theorem seen_alone (first : before = []) (position : Nat)
    (behind : after = scan 0 position (charsOf after)) :
    seen (charsOf before ++ (w.text.toList ++ (Comment.empty ++ (w.text.toList ++ charsOf after))))
        = seen text
      ↔ ¬OnlyBlanks w before after := by
  obtain ⟨whole, some_blank, blank, stop⟩ := blanks_of_scan split space
  subst first
  refine iff_of_true ?_ fun only => ?_
  · have slash := Comment.not_isBlank_of_head (w.text.toList ++ charsOf after)
    rw [whole]
    exact (seen_blanks some_blank blank slash).trans (seen_comment _)
  · rw [behind] at only
    obtain ⟨earlier, bad, expected, found, none, -⟩ := wrongName_of_scan only
    cases List.append_ne_nil_of_right_ne_nil earlier (List.cons_ne_nil bad []) none.symm

/-- The blanks before the name of a here-string take no comment. -/
theorem seen_closed {gap delimiter content rest : List Char} {later : List Token}
    (sets : HereString.Named text gap delimiter (content ++ (delimiter ++ rest)))
    (some_gap : gap ≠ [])
    (pieces : group text = HereString.spaced gap delimiter content)
    (own : Piece.tokens start text (group text) = before ++ w :: inner)
    (behind : after = inner ++ later) :
    seen (charsOf before ++ (w.text.toList ++ (Comment.empty ++ (w.text.toList ++ charsOf after))))
        = seen text
      ↔ ¬OnlyBlanks w before after := by
  obtain ⟨whole, -⟩ := blanks_of_scan split space
  have shown := seen_gap sets some_gap pieces
  have parts := sets.whole
  rw [pieces, parts, HereString.spaced] at own
  simp only [← String.length_toList] at own
  rw [Piece.tokens_cons, Piece.tokens_cons, Piece.tokens_cons, Piece.tokens_cons,
    Piece.tokens_cons, Piece.tokens] at own
  cases before with
  | nil =>
    rw [List.nil_append, List.cons.injEq] at own
    obtain ⟨rfl, -⟩ := own
    cases space
  | cons d ds =>
    rw [List.cons_append, List.cons.injEq] at own
    obtain ⟨rfl, own⟩ := own
    cases ds with
    | nil =>
      rw [List.nil_append, List.cons.injEq] at own
      obtain ⟨rfl, rfl⟩ := own
      simp only [charsOf, List.flatMap_cons, List.flatMap_nil, List.append_nil,
        String.toList_ofList] at whole ⊢
      rw [parts, List.append_cancel_left_eq, List.append_cancel_left_eq] at whole
      rw [← whole]
      refine iff_of_false shown (not_not_intro ?_)
      rw [behind]
      exact .hereString rfl rfl
    | cons e es =>
      rw [List.cons_append, List.cons.injEq] at own
      have member : w ∈ es ++ w :: inner := by simp
      rw [← own.2] at member
      simp only [List.mem_cons, List.not_mem_nil, or_false] at member
      rcases member with rfl | rfl | rfl
      all_goals cases space

/-- Blanks that are cut off together with the directive of an assembly block stand behind features
and before what is cut as features. -/
theorem exists_asked (begins : beginsWith .asm text = true)
    (own : Piece.tokens start text (group text) = before ++ w :: inner) :
    ∃ a asked, charsOf before = Directive.asm.spelling.toList ++ a ∧ Piece.total asked = a.length
      ∧ Assembly.features 0 (a ++ (w.text.toList ++ charsOf after)) = asked
        ++ { kind := .whitespace, size := w.text.toList.length }
          :: Assembly.features 0 (charsOf after)
      ∧ Piece.tokens start text ({ kind := .directive .asm, size := Directive.asm.spelling.length }
        :: (asked ++ [{ kind := .whitespace, size := w.text.toList.length }])) = before ++ [w] := by
  obtain ⟨whole, some_blank, blank, stop⟩ := blanks_of_scan split space
  obtain ⟨t, rfl⟩ := exists_of_beginsWith begins
  have some_char : Directive.asm.spelling.toList ++ t ≠ [] :=
    List.append_ne_nil_of_left_ne_nil (by decide) t
  have fit := (group_fit some_char).1.total_le
  rw [group_asm begins, ← String.length_toList] at own fit
  obtain ⟨first, p, last, parts, taken, ends, kind⟩ := Piece.tokens_split own
  cases first with
  | nil =>
    rw [List.nil_append, List.cons.injEq] at parts
    rw [← parts.1, space] at kind
    cases kind
  | cons q asked =>
    rw [List.cons_append, List.cons.injEq] at parts
    obtain ⟨rfl, parts⟩ := parts
    have size : Piece.total asked ≤ t.length := by
      rw [parts] at fit
      simp only [Piece.total_cons, Piece.total_append, List.length_append] at fit
      omega
    have tiles := @Piece.tokens_tiles start (Directive.asm.spelling.toList ++ t)
      ({ kind := .directive .asm, size := Directive.asm.spelling.toList.length } :: asked)
      (by simp only [Piece.total_cons, List.length_append]; omega)
    rw [taken, Piece.total_cons, List.take_length_add_append] at tiles
    have chars : charsOf before = Directive.asm.spelling.toList ++ t.take (Piece.total asked) :=
      tiles.flatMap_text
    have length : Piece.total asked = (t.take (Piece.total asked)).length := by
      rw [List.length_take]
      omega
    generalize t.take (Piece.total asked) = a at chars length
    rw [chars, List.append_assoc, List.append_cancel_left_eq] at whole
    subst whole
    have blank_piece := kind.trans space
    have asks := Assembly.features_blanks some_blank blank parts blank_piece (by omega) stop
    have same := asks
    rw [parts, List.append_cancel_left_eq, List.cons.injEq] at same
    obtain ⟨rfl, -⟩ := same
    rw [← String.length_toList]
    exact ⟨a, asked, chars, length, asks, ends⟩

/-- Blanks among the features of an assembly block take a comment when no raw text follows. -/
theorem seen_assembly (begins : beginsWith .asm text = true)
    (own : Piece.tokens start text (group text) = before ++ w :: inner) :
    seen (charsOf before ++ (w.text.toList ++ (Comment.empty ++ (w.text.toList ++ charsOf after))))
        = seen text
      ↔ ¬OnlyBlanks w before after := by
  obtain ⟨whole, some_blank, blank, stop⟩ := blanks_of_scan split space
  obtain ⟨a, asked, chars, size, parts, ends⟩ := exists_asked split space begins own
  rw [chars, List.append_assoc] at whole ⊢
  subst whole
  rw [seen_asked some_blank blank stop begins parts rfl size]
  have pieces : group (Directive.asm.spelling.toList ++ (a ++ (w.text.toList ++ charsOf after)))
      = ({ kind := .directive .asm, size := Directive.asm.spelling.length }
        :: (asked ++ [{ kind := .whitespace, size := w.text.toList.length }]))
        ++ Assembly.features 0 (charsOf after) := by
    rw [group_asm begins, parts]
    simp
  have total := Assembly.total_asked w.text.toList size
  have sound : ∀ t ∈ before, ∀ expected found,
      t.error ≠ some (.mismatchedHereString expected found) := by
    intro t member expected found wrong
    have among : t ∈ before ++ w :: inner := List.mem_append_left _ member
    rw [← own] at among
    obtain ⟨p, among, -, error⟩ := Piece.exists_of_mem_tokens among
    obtain ⟨_, _, _, sets, -⟩ := exists_named among (error ▸ wrong)
    exact not_string_of_asm begins sets.begins
  simp only [← List.append_assoc _ w.text.toList] at pieces ends split
  simp only [← List.append_assoc Directive.asm.spelling.toList] at pieces ends split
  have some_char := List.append_ne_nil_of_left_ne_nil (List.append_ne_nil_of_left_ne_nil
    (by decide : Directive.asm.spelling.toList ≠ []) (a ++ w.text.toList)) (charsOf after)
  rw [onlyBlanks_iff some_char split ends total pieces sound, Bool.not_eq_true]

/-- Blanks that are cut off with a group take a comment unless the place is for blanks only. -/
theorem seen_own {position : Nat} {rest : List Char}
    (own : Piece.tokens start text (group text) = before ++ w :: inner)
    (behind : after = inner ++ scan 0 position rest) :
    seen (charsOf before ++ (w.text.toList ++ (Comment.empty ++ (w.text.toList ++ charsOf after))))
        = seen text
      ↔ ¬OnlyBlanks w before after := by
  have among : w ∈ Piece.tokens start text (group text) := by
    rw [own]
    simp
  obtain ⟨p, member, kind, -⟩ := Piece.exists_of_mem_tokens among
  have spacing := group_spacing text
  generalize pieces : group text = ps at spacing member
  cases spacing with
  | single plain =>
    rw [List.mem_singleton.mp member] at kind
    exact absurd (kind.symm.trans space) plain.kind
  | several plain => exact absurd (kind.symm.trans space) (plain p member).1.kind
  | blanks =>
    rw [pieces, Piece.tokens, Piece.tokens] at own
    rcases List.append_eq_cons_iff.mp own.symm with ⟨first, last⟩ | ⟨_, -, none⟩
    · rw [List.cons.injEq] at last
      rw [last.2, List.nil_append] at behind
      refine seen_alone split space first position ?_
      rw [behind, charsOf_scan]
    · cases List.append_ne_nil_of_right_ne_nil _ (List.cons_ne_nil w inner) none.symm
  | closed sets some_gap => exact seen_closed split space sets some_gap pieces own behind
  | unclosed =>
    rw [List.mem_singleton.mp member, space] at kind
    cases kind
  | assembly begins => exact seen_assembly split space begins own

theorem ne_nil_of_scan : text ≠ [] := by
  rintro rfl
  have member : w ∈ before ++ w :: after := by simp
  rw [← split] at member
  rw [List.mem_singleton.mp member] at space
  cases space

/-- Where no characters follow the end of the text does. -/
theorem eof_of_scan (ended : charsOf after = []) : ∃ position, after = [.eofAt position] := by
  obtain ⟨body, found, sound⟩ := scan_eq_append start text
  rw [found] at split
  rcases List.eq_nil_or_concat after with rfl | ⟨later, last, rfl⟩
  · obtain ⟨-, last⟩ := List.append_inj' split rfl
    obtain rfl := (List.cons.inj last).1
    cases space
  · rw [List.concat_eq_append, ← List.cons_append, ← List.append_assoc] at split
    obtain ⟨rfl, same⟩ := List.append_inj' split rfl
    obtain rfl := (List.cons.inj same).1
    cases later with
    | nil => exact ⟨_, rfl⟩
    | cons t ts =>
      have text := (sound t (by simp)).2.1
      rw [List.concat_eq_append, charsOf, List.cons_append, List.flatMap_cons,
        List.append_eq_nil_iff] at ended
      exact absurd (String.toList_eq_nil_iff.mp ended.1) text

/-- Only the first token of a text that ends with blanks holds no other character. -/
theorem exists_not_isBlank (ended : charsOf after = []) (some_before : before ≠ []) :
    ∃ c ∈ charsOf before, isBlank c = false := by
  obtain ⟨whole, some_blank, blank, -⟩ := blanks_of_scan split space
  by_contra none
  have all : ∀ c ∈ text, isBlank c = true := by
    intro c member
    rw [whole, ended, List.append_nil] at member
    rcases List.mem_append.mp member with member | member
    · cases seen : isBlank c with
      | false => exact absurd ⟨c, member, seen⟩ none
      | true => rfl
    · exact blank c member
  have run := @takeWhile_isBlank text [] all (by simp)
  rw [List.append_nil] at run
  have some_char := ne_nil_of_scan split space
  obtain ⟨c, cs, rfl⟩ := List.exists_cons_of_ne_nil some_char
  rw [scan_group start some_char, group_blank (all c List.mem_cons_self), run, Piece.tokens,
    Piece.tokens, Piece.total_cons, Piece.total_nil, Nat.add_zero, List.drop_length] at split
  cases before with
  | nil => exact some_before rfl
  | cons t ts =>
    rw [List.cons_append, List.cons_append, List.cons.injEq, List.nil_append] at split
    have member : w ∈ ts ++ w :: after := by simp
    rw [← split.2] at member
    rw [List.mem_singleton.mp member] at space
    cases space

/-- The blanks at the end of a text take no comment on the line of a wrong closing name. -/
theorem seen_mistake {p : Piece} {expected found : String}
    (own : Piece.tokens start text (group text) = before) (ended : charsOf after = [])
    (unbroken : '\n' ∉ w.text.toList) (member : p ∈ group text)
    (wrong : p.error = some (.mismatchedHereString expected found)) :
    seen (charsOf before ++ (w.text.toList ++ (Comment.empty ++ (w.text.toList ++ charsOf after))))
        = seen text
      ↔ ¬OnlyBlanks w before after := by
  obtain ⟨whole, some_blank, blank, -⟩ := blanks_of_scan split space
  obtain ⟨gap, delimiter, body, sets, unfound⟩ := exists_named member wrong
  have tiles := Piece.tokens_tiles start (group_fit sets.ne_nil).1.total_le
  have size : Piece.total (group text) = (charsOf before).length := by
    have fit := (group_fit sets.ne_nil).1.total_le
    rw [← own, charsOf, tiles.flatMap_text, List.length_take]
    omega
  rw [ended, List.append_nil] at whole ⊢
  refine iff_of_false (seen_wrongName sets unfound whole size some_blank blank unbroken)
    (not_not_intro ?_)
  obtain ⟨position, rfl⟩ := eof_of_scan split space ended
  have pieces := sets.group_unclosed unfound
  rw [pieces, List.mem_singleton] at member
  rw [pieces, Piece.tokens, Piece.tokens] at own
  rw [← own]
  subst member
  exact @OnlyBlanks.wrongName w [] _ _ _ _ wrong unbroken

end

/-- A comment among blanks behind the first group is seen just when it is seen without the group. -/
theorem seen_rest {text inner blanks post : List Char} (some_char : text ≠ [])
    (behind : text.drop (Piece.total (group text)) = inner ++ (blanks ++ post))
    (some_blank : blanks ≠ []) (stop : ∀ c ∈ post.head?, isBlank c = false)
    (blank : ∀ c ∈ blanks, isBlank c = true)
    (free : post = [] → '\n' ∉ blanks →
      (∃ p ∈ group text, ∃ delimiter found,
        p.error = some (.mismatchedHereString delimiter found)) →
      ∃ c ∈ inner, isBlank c = false) :
    seen (text.take (Piece.total (group text)) ++ inner
        ++ (blanks ++ (Comment.empty ++ (blanks ++ post)))) = seen text
      ↔ seen (inner ++ (blanks ++ (Comment.empty ++ (blanks ++ post))))
        = seen (text.drop (Piece.total (group text))) := by
  obtain ⟨fit, pos⟩ := group_fit some_char
  have below := fit.total_le
  have cuts : Cuts text (group text) := .group some_char
  generalize pieces : group text = ps at *
  generalize first : text.take (Piece.total ps) = head
  have size : Piece.total ps = head.length := by
    rw [← first, List.length_take]
    omega
  have whole : text = head ++ inner ++ (blanks ++ post) := by
    rw [← first, List.append_assoc, ← behind, List.take_append_drop]
  have within : Piece.total ps ≤ (head ++ inner).length := by
    rw [List.length_append]
    omega
  have rest : (head ++ inner).drop (Piece.total ps) = inner := by rw [size, List.drop_left]
  have some_head : head ++ inner ≠ [] := List.length_pos_iff.mp (by omega)
  have same := @group_comment blanks post (head ++ inner) some_blank stop blank some_head
  rw [← whole, pieces, rest] at same
  have cuts' : Cuts _ (group (head ++ inner ++ (blanks ++ (Comment.empty ++ (blanks ++ post))))) :=
    .group (List.append_ne_nil_of_left_ne_nil some_head _)
  rw [same within free] at cuts'
  rw [whole] at cuts
  have alike := seen_iff cuts cuts' within
  rwa [← whole, rest, ← behind] at alike

/-- Wherever blanks stand a comment among them changes nothing of what the grammar sees, just when
the place is not for blanks only. -/
theorem seen_commented {start : Nat} {text : List Char} {w : Token} {before after : List Token}
    (split : scan 0 start text = before ++ w :: after) (space : w.kind = .whitespace) :
    seen (charsOf before ++ (w.text.toList ++ (Comment.empty ++ (w.text.toList ++ charsOf after))))
        = seen text
      ↔ ¬OnlyBlanks w before after := by
  -- The text gets shorter with each group before the one that the blanks are cut off with.
  induction length : text.length using Nat.strongRecOn generalizing start text before with
  | _ n ih =>
    obtain ⟨whole, some_blank, blank, stop⟩ := blanks_of_scan split space
    have some_char := ne_nil_of_scan split space
    have parts := split
    rw [scan_group start some_char] at parts
    rcases split_at parts.symm with ⟨more, rfl, later⟩ | ⟨inner, own, behind⟩
    · obtain ⟨fit, pos⟩ := group_fit some_char
      by_cases special : more = [] ∧ charsOf after = [] ∧ '\n' ∉ w.text.toList
          ∧ ∃ p ∈ group text, ∃ expected found,
            p.error = some (.mismatchedHereString expected found)
      · obtain ⟨rfl, ended, unbroken, p, member, expected, found, wrong⟩ := special
        exact seen_mistake split space (by simp) ended unbroken member wrong
      · have first : charsOf (Piece.tokens start text (group text)) = _ :=
          (Piece.tokens_tiles start fit.total_le).flatMap_text
        obtain ⟨behind, -⟩ := blanks_of_scan later space
        have shorter : (text.drop (Piece.total (group text))).length < n := by
          have below := fit.total_le
          rw [List.length_drop]
          omega
        rw [charsOf_append, first, seen_rest some_char behind some_blank stop blank ?_,
          ih _ shorter later rfl]
        · refine not_congr ⟨fun only => only.append _, fun only => ?_⟩
          refine only.of_append.resolve_right ?_
          rintro ⟨bare, ended, unbroken, bad, member, expected, found, wrong⟩
          obtain ⟨p, among, -, error⟩ := Piece.exists_of_mem_tokens member
          exact special ⟨bare, ended, unbroken, p, among, expected, found, error ▸ wrong⟩
        · intro ended unbroken wrong
          refine exists_not_isBlank later space ended fun bare => ?_
          exact special ⟨bare, ended, unbroken, wrong⟩
    · exact seen_own split space own behind

end Lexer

/-- The text of the tokens, with a comment among the blanks of one of them. -/
def commented (before : List Token) (w : Token) (after : List Token) : String :=
  String.join (before.map fun t => t.text)
    ++ (w.text ++ ("/**/" ++ (w.text ++ String.join (after.map fun t => t.text))))

theorem toList_commented (before : List Token) (w : Token) (after : List Token) :
    (commented before w after).toList
      = Lexer.charsOf before ++ (w.text.toList ++ (Lexer.Comment.empty
        ++ (w.text.toList ++ Lexer.charsOf after))) := by
  have mark : "/**/".toList = Lexer.Comment.empty := by decide
  simp only [commented, String.toList_append, String.toList_join, List.flatMap_map, mark]
  rfl

/-- Whatever blanks of a text a comment is put among, the grammar sees what it saw before, but for
the places that take blanks only, and there it does not. -/
theorem tokenize_comment {text : String} {before after : List Token} {w : Token}
    (split : tokenize text = before ++ w :: after) (space : w.kind = .whitespace) :
    significant (tokenize (commented before w after)) = significant (tokenize text)
      ↔ ¬OnlyBlanks w before after := by
  have shown := Lexer.seen_commented split space
  rwa [← toList_commented] at shown

/-- Without raw text behind them, the features of an assembly block take comments. -/
theorem tokenize_comment_asm :
    significant (tokenize "#asm /**/ x;") = significant (tokenize "#asm x;") := by
  have split : tokenize "#asm x;" = [⟨⟨.directive .asm, "#asm"⟩, 0, none⟩]
      ++ ⟨⟨.whitespace, " "⟩, 4, none⟩
        :: [⟨⟨.identifier, "x"⟩, 5, none⟩, ⟨⟨.semicolon, ";"⟩, 6, none⟩, .eofAt 7] := by
    decide +kernel
  refine (tokenize_comment split rfl).mpr fun only => ?_
  generalize [_] = before at only
  generalize behind : [_, _, _] = after at only
  cases only with
  | hereString _ held =>
    cases behind
    cases held
  | @assembly _ features rest raw _ held =>
    have member : raw ∈ features ++ raw :: rest := by simp
    rw [← behind] at member
    simp at member
    rcases member with rfl | rfl | rfl
    all_goals simp [Token.eofAt] at held
  | wrongName => cases behind

/-- A comment before the name of a here-string, among the features of an assembly block with raw
text, or on the line of a wrong closing name changes what the grammar sees. -/
theorem commented_differ :
    (∃ before w after, tokenize "x :: #string A hello A;" = before ++ w :: after
      ∧ w.kind = .whitespace ∧ significant (tokenize (commented before w after))
        ≠ significant (tokenize "x :: #string A hello A;"))
    ∧ (∃ before w after, tokenize "#asm x \x7by\x7d" = before ++ w :: after
      ∧ w.kind = .whitespace ∧ significant (tokenize (commented before w after))
        ≠ significant (tokenize "#asm x \x7by\x7d"))
    ∧ ∃ before w after, tokenize "#string A 1\n foo " = before ++ w :: after
      ∧ w.kind = .whitespace ∧ significant (tokenize (commented before w after))
        ≠ significant (tokenize "#string A 1\n foo ") :=
  ⟨⟨(tokenize "x :: #string A hello A;").take 5, ⟨⟨.whitespace, " "⟩, 12, none⟩,
      (tokenize "x :: #string A hello A;").drop 6, by decide +kernel⟩,
    ⟨(tokenize "#asm x \x7by\x7d").take 1, ⟨⟨.whitespace, " "⟩, 4, none⟩,
      (tokenize "#asm x \x7by\x7d").drop 2, by decide +kernel⟩,
    ⟨(tokenize "#string A 1\n foo ").take 1, ⟨⟨.whitespace, " "⟩, 16, none⟩,
      (tokenize "#string A 1\n foo ").drop 2, by decide +kernel⟩⟩

end JaiTree
