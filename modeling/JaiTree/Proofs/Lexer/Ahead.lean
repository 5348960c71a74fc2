import JaiTree.Proofs.Lexer.Fit
import JaiTree.Proofs.Text.Ahead
import Mathlib.Data.List.Find

/-!
What lies ahead of a group: pieces that end before a blank are cut off in the same way whatever
stands behind it.
-/

namespace JaiTree

/-- Whether what comes before the raw text of an assembly block may be of the kind. -/
def TokenKind.isFeature : TokenKind → Bool
  | .identifier | .comma | .whitespace | .openCurly => true
  | _ => false

namespace Lexer

open Text

theorem group_comma (cs : List Char) : group (',' :: cs) = [{ kind := .comma, size := 1 }] := rfl

theorem group_name {c : Char} {cs : List Char} (starts : isNameStart c = true) :
    group (c :: cs) = [{ kind := .identifier, size := 1 + (cs.takeWhile isNameChar).length }] := by
  have other (d : Char) (none : isNameStart d = false) : c ≠ d := by
    rintro rfl
    rw [starts] at none
    cases none
  have seen := not_isBlank_of_isNameChar (isNameChar_of_isNameStart starts)
  have slash := other '/' (by decide)
  have hash := other '#' (by decide)
  simp [group, recognise, seen, slash.symm, hash, starts, name, List.isPrefixOf, Nat.add_comm]

namespace Assembly

/-- What a character begins among the features: raw text, a feature, or what is none of them. -/
inductive Head (c : Char) : Prop
  | brace : c = '\x7b' → Head c
  | feature {kind : TokenKind} {p : Char → Bool} : kind.isFeature = true →
      (∀ cs, group (c :: cs) = [{ kind, size := 1 + (cs.takeWhile p).length }]) →
      (∀ cs, features 0 (c :: cs)
        = { kind, size := 1 + (cs.takeWhile p).length } :: features (cs.takeWhile p).length cs) →
      Head c
  | other : (∀ cs, features 0 (c :: cs) = []) → Head c

theorem features_brace (cs : List Char) : features 0 ('\x7b' :: cs) = body ('\x7b' :: cs) := by
  rw [features, if_pos rfl]

theorem features_head (c : Char) : Head c := by
  by_cases brace : c = '\x7b'
  · exact .brace brace
  by_cases comma : c = ','
  · subst comma
    have none (cs : List Char) : cs.takeWhile (fun _ => false) = [] := by cases cs <;> rfl
    refine @Head.feature _ .comma (fun _ => false) rfl (fun cs => ?_) fun cs => ?_
    · rw [group_comma, none]
      rfl
    · rw [features, if_neg brace, if_pos rfl, none]
      rfl
  by_cases blank : isBlank c = true
  · refine @Head.feature _ .whitespace isBlank rfl (fun cs => ?_) fun cs => ?_
    · rw [group, recognise, if_pos blank, List.takeWhile_cons_of_pos blank, List.length_cons,
        Nat.add_comm]
    · rw [features, if_neg brace, if_neg comma, if_pos blank]
  by_cases starts : isNameStart c = true
  · refine @Head.feature _ .identifier isNameChar rfl (fun cs => group_name starts) fun cs => ?_
    rw [features, if_neg brace, if_neg comma, if_neg blank, if_pos starts]
  · exact .other fun cs => by
      rw [features, if_neg brace, if_neg comma, if_neg blank, if_neg starts]

end Assembly

section

variable {c : Char} (blank : isBlank c = true)

namespace Number

theorem fractionSize_point {cs : List Char} (single : cs.head? ≠ some '.') :
    fractionSize ('.' :: cs)
      = 1 + (cs.takeWhile Char.isDigit).length
        + exponentSize (cs.drop (cs.takeWhile Char.isDigit).length) := by
  unfold fractionSize
  split
  · next same =>
    cases same
    exact absurd rfl single
  · next same =>
    cases same
    rfl
  · next other => exact absurd rfl (other cs)

theorem fractionSize_other {cs : List Char} (other : cs.head? ≠ some '.') :
    fractionSize cs = exponentSize cs := by
  unfold fractionSize
  split
  · exact absurd rfl other
  · exact absurd rfl other
  · rfl

theorem size_decimal {text : List Char}
    (other : ∀ e cs, text = '0' :: e :: cs → e ≠ 'b' ∧ e ≠ 'x') : size text = decimalSize text := by
  unfold size
  split
  · next cs => exact absurd rfl (other 'b' cs rfl).1
  · next cs => exact absurd rfl (other 'x' cs rfl).2
  · rfl

include blank

theorem exponentSize_ahead (a x y : List Char) :
    exponentSize (a ++ c :: y) = exponentSize (a ++ c :: x) := by
  have ne (d : Char) (seen : isBlank d = false) : c ≠ d := ne_of_isBlank blank seen
  cases a with
  | nil => simp [exponentSize, ne 'e' (by decide), ne 'E' (by decide)]
  | cons d ds =>
    rw [List.cons_append, exponentSize, List.cons_append, exponentSize]
    have head := head?_drop_ahead (c := c) (Nat.zero_le ds.length) x y
    rw [List.drop_zero, List.drop_zero] at head
    rw [head]
    generalize signed : (if (ds ++ c :: x).head? = some '+' || (ds ++ c :: x).head? = some '-'
      then 1 else 0) = sign
    have within : sign ≤ ds.length := by
      cases ds with
      | nil =>
        rw [← signed]
        simp [ne '+' (by decide), ne '-' (by decide)]
      | cons e es =>
        rw [← signed, List.length_cons]
        split
        all_goals omega
    have stop := length_takeWhile_ahead (not_isDigit_of_isBlank blank) (ds.drop sign) x
    dsimp only
    rw [List.drop_append_of_le_length within, List.drop_append_of_le_length within,
      takeWhile_ahead y stop]

theorem fractionSize_ahead (a x y : List Char) :
    fractionSize (a ++ c :: y) = fractionSize (a ++ c :: x) := by
  have other (x : List Char) : (c :: x).head? ≠ some '.' := by
    simpa using ne_of_isBlank blank (by decide)
  have head := head?_drop_ahead (c := c) (Nat.zero_le a.length) x y
  rw [List.drop_zero, List.drop_zero] at head
  by_cases point : (a ++ c :: x).head? = some '.'
  · cases a with
    | nil => exact absurd point (other x)
    | cons d ds =>
      obtain rfl : d = '.' := by simpa using point
      have next := head?_drop_ahead (c := c) (Nat.zero_le ds.length) x y
      rw [List.drop_zero, List.drop_zero] at next
      rw [List.cons_append, List.cons_append]
      by_cases range : (ds ++ c :: x).head? = some '.'
      · cases ds with
        | nil => exact absurd range (other x)
        | cons e es =>
          obtain rfl : e = '.' := by simpa using range
          rfl
      · have stop := length_takeWhile_ahead (not_isDigit_of_isBlank blank) ds x
        rw [fractionSize_point range, fractionSize_point (next ▸ range), takeWhile_ahead y stop,
          List.drop_append_of_le_length stop, List.drop_append_of_le_length stop,
          exponentSize_ahead blank _ x y]
  · rw [fractionSize_other point, fractionSize_other (head ▸ point), exponentSize_ahead blank _ x y]

theorem decimalSize_ahead (a x y : List Char) :
    decimalSize (a ++ c :: y) = decimalSize (a ++ c :: x) := by
  have digit := not_isDigit_of_isBlank blank
  have other : c ≠ '_' := ne_of_isBlank blank (by decide)
  have stop := length_takeWhile_ahead (p := fun c => c.isDigit || c = '_') (c := c)
    (by simp [digit, other]) a x
  rw [decimalSize, decimalSize, takeWhile_ahead y stop, List.drop_append_of_le_length stop,
    List.drop_append_of_le_length stop, fractionSize_ahead blank _ x y]

theorem not_isHexadecimal_of_isBlank : isHexadecimal c = false := by
  cases digit : isHexadecimal c with
  | false => rfl
  | true =>
    have seen := not_isDigit_of_isBlank blank
    have other : c ≠ '_' := ne_of_isBlank blank (by decide)
    simp only [isBlank, Bool.or_eq_true, Bool.and_eq_true, decide_eq_true_eq] at blank
    simp only [isHexadecimal, seen, other, Bool.or_eq_true, Bool.and_eq_true, decide_eq_true_eq,
      Bool.false_or, Bool.or_false, decide_false, Char.le_def, UInt32.le_iff_toNat_le] at digit
    simp at digit
    omega

theorem basedSize_ahead {isDigit : Char → Bool} (stop : isDigit c = false) (d e : Char)
    (a x y : List Char) :
    basedSize isDigit (d :: e :: (a ++ c :: y)) = basedSize isDigit (d :: e :: (a ++ c :: x)) := by
  have decimal := decimalSize_ahead blank (d :: e :: a) x y
  simp only [List.cons_append] at decimal
  rw [basedSize, basedSize, decimal, List.drop_succ_cons, List.drop_succ_cons, List.drop_zero,
    List.drop_succ_cons, List.drop_succ_cons, List.drop_zero,
    takeWhile_ahead y (length_takeWhile_ahead stop a x)]

theorem size_ahead (a x y : List Char) : size (a ++ c :: y) = size (a ++ c :: x) := by
  have decimal := decimalSize_ahead blank a x y
  have ne (d : Char) (seen : isBlank d = false) : c ≠ d := ne_of_isBlank blank seen
  have bare (x : List Char) : ∀ e cs, c :: x = '0' :: e :: cs → e ≠ 'b' ∧ e ≠ 'x' :=
    fun e cs same => absurd (List.cons.inj same).1 (ne '0' (by decide))
  have lone (d : Char) (x : List Char) :
      ∀ e cs, d :: c :: x = '0' :: e :: cs → e ≠ 'b' ∧ e ≠ 'x' := by
    intro e cs same
    obtain ⟨-, rfl, -⟩ : d = '0' ∧ c = e ∧ x = cs := by simpa using same
    exact ⟨ne 'b' (by decide), ne 'x' (by decide)⟩
  match a with
  | [] => rwa [List.nil_append, List.nil_append, size_decimal (bare x), size_decimal (bare y)]
  | [d] =>
    rwa [List.singleton_append, List.singleton_append, size_decimal (lone d x),
      size_decimal (lone d y)]
  | d :: e :: ds =>
    by_cases binary : d = '0' ∧ e = 'b'
    · obtain ⟨rfl, rfl⟩ := binary
      have stop : isBinary c = false := by
        simp [isBinary, ne '0' (by decide), ne '1' (by decide), ne '_' (by decide)]
      exact basedSize_ahead blank stop '0' 'b' ds x y
    by_cases hexadecimal : d = '0' ∧ e = 'x'
    · obtain ⟨rfl, rfl⟩ := hexadecimal
      exact basedSize_ahead blank (not_isHexadecimal_of_isBlank blank) '0' 'x' ds x y
    · have other (x : List Char) :
          ∀ e' cs, d :: e :: (ds ++ c :: x) = '0' :: e' :: cs → e' ≠ 'b' ∧ e' ≠ 'x' := by
        intro e' cs same
        obtain ⟨rfl, rfl, -⟩ : d = '0' ∧ e = e' ∧ ds ++ c :: x = cs := by simpa using same
        exact ⟨fun is => binary ⟨rfl, is⟩, fun is => hexadecimal ⟨rfl, is⟩⟩
      rwa [List.cons_append, List.cons_append, List.cons_append, List.cons_append,
        size_decimal (other x), size_decimal (other y)]

end Number

namespace Comment

include blank

theorem closing_ahead {a x : List Char} {inner : Nat} (found : closing (a ++ c :: x) = some inner)
    (within : inner + 2 ≤ a.length) (y : List Char) : closing (a ++ c :: y) = some inner := by
  have out : c ∉ ['*', '/'] := by
    simp [ne_of_isBlank blank (d := '*') (by decide), ne_of_isBlank blank (d := '/') (by decide)]
  induction a generalizing inner with
  | nil => simp at within
  | cons d ds ih =>
    have marks := isPrefixOf_ahead out (d :: ds) x y
    rw [List.cons_append] at found marks
    rw [List.cons_append] at marks ⊢
    rw [closing] at found ⊢
    rw [marks]
    split at found
    · next closes => rwa [if_pos closes]
    · next goes =>
      obtain ⟨rest, later, rfl⟩ := Option.map_eq_some_iff.mp found
      rw [List.length_cons] at within
      rw [if_neg goes, ih later (by omega)]
      rfl

theorem block_ahead {a x : List Char} (opens : ['/', '*'].isPrefixOf (a ++ c :: x) = true)
    (within : Piece.total (block (a ++ c :: x)) ≤ a.length) (y : List Char) :
    block (a ++ c :: y) = block (a ++ c :: x) := by
  have slash : c ≠ '/' := ne_of_isBlank blank (by decide)
  have star : c ≠ '*' := ne_of_isBlank blank (by decide)
  have marked : 2 ≤ a.length := length_le_of_isPrefixOf (by simp [slash, star]) opens
  have kinds : blockKind (a ++ c :: y) = blockKind (a ++ c :: x) := by
    rw [blockKind, blockKind, isPrefixOf_ahead (by simp [slash, star]) a x y,
      isPrefixOf_ahead (by simp [slash, star]) a x y]
  rw [block, List.drop_append_of_le_length marked] at within ⊢
  rw [block, List.drop_append_of_le_length marked]
  cases found : closing (a.drop 2 ++ c :: x) with
  | none =>
    rw [found] at within
    simp only [Piece.faulty, Piece.total_cons, Piece.total_nil, List.length_append,
      List.length_cons] at within
    omega
  | some inner =>
    rw [found] at within
    simp only [Piece.total_cons, Piece.total_nil] at within
    rw [closing_ahead blank found (by rw [List.length_drop]; omega) y, kinds]

end Comment

namespace Quotation

theorem pieces_pos {skip : Nat} {text : List Char} {ps : List Piece}
    (found : pieces skip text = some ps) : 0 < Piece.total ps := by
  induction text generalizing skip ps with
  | nil => cases skip <;> cases found
  | cons c cs ih =>
    cases skip with
    | succ skip => exact ih found
    | zero =>
      rw [pieces] at found
      split at found
      · cases found
        decide
      split at found
      · obtain ⟨rest, -, rfl⟩ := Option.map_eq_some_iff.mp found
        simp only [Piece.total_cons]
        omega
      split at found
      all_goals
        obtain ⟨rest, -, rfl⟩ := Option.map_eq_some_iff.mp found
        simp only [Piece.total_cons]
        omega

theorem pieces_ahead {a x : List Char} {skip : Nat} {ps : List Piece}
    (found : pieces skip (a ++ c :: x) = some ps) (within : skip + Piece.total ps ≤ a.length)
    (y : List Char) : pieces skip (a ++ c :: y) = some ps := by
  induction a generalizing skip ps with
  | nil =>
    have pos := pieces_pos found
    simp only [List.length_nil] at within
    omega
  | cons d ds ih =>
    rw [List.length_cons] at within
    cases skip with
    | succ skip => exact ih found (by omega)
    | zero =>
      rw [List.cons_append, pieces] at found ⊢
      split at found
      · next quote => rwa [if_pos quote]
      next other =>
      rw [if_neg other]
      split at found
      · next escape =>
        obtain ⟨rest, later, rfl⟩ := Option.map_eq_some_iff.mp found
        simp only [Piece.total_cons] at within
        rw [if_pos escape, ih later (by omega)]
        rfl
      next other =>
      rw [if_neg other]
      split at found
      · next placeholder =>
        obtain ⟨rest, later, rfl⟩ := Option.map_eq_some_iff.mp found
        simp only [Piece.total_cons] at within
        have digits := takeWhile_ahead (p := Char.isDigit) (a := ds) (c := c) (x := x) y (by omega)
        dsimp only
        rw [if_pos placeholder, digits, ih later (by omega)]
        rfl
      · next plain =>
        obtain ⟨rest, later, rfl⟩ := Option.map_eq_some_iff.mp found
        simp only [Piece.total_cons] at within
        have run := takeWhile_ahead (p := isPlain) (a := ds) (c := c) (x := x) y (by omega)
        dsimp only
        rw [if_neg plain, run, ih later (by omega)]
        rfl

theorem string_ahead {a x : List Char} (some_char : a ≠ [])
    (within : Piece.total (string (a ++ c :: x)) ≤ a.length) (y : List Char) :
    string (a ++ c :: y) = string (a ++ c :: x) := by
  have opened : 1 ≤ a.length := List.length_pos_iff.mpr some_char
  rw [string, List.drop_append_of_le_length opened] at within ⊢
  rw [string, List.drop_append_of_le_length opened]
  cases found : pieces 0 (a.drop 1 ++ c :: x) with
  | none =>
    rw [found] at within
    simp only [Piece.faulty, Piece.total_cons, Piece.total_nil, List.length_append,
      List.length_cons] at within
    omega
  | some ps =>
    rw [found] at within
    simp only [Piece.total_cons] at within
    rw [pieces_ahead found (by rw [List.length_drop]; omega) y]

end Quotation

namespace Assembly

theorem body_ahead {a x : List Char} (some_char : a ≠ [])
    (within : Piece.total (body (a ++ c :: x)) ≤ a.length) (y : List Char) :
    body (a ++ c :: y) = body (a ++ c :: x) := by
  have opened : 1 ≤ a.length := List.length_pos_iff.mpr some_char
  rw [body, List.drop_append_of_le_length opened] at within ⊢
  rw [body, List.drop_append_of_le_length opened]
  generalize inner : (a.drop 1 ++ c :: x).takeWhile (· != '\x7d') = content at within ⊢
  split at within
  · next closed =>
    rw [Piece.total_filter] at within
    simp only [Piece.total_cons, Piece.total_nil] at within
    have same := takeWhile_ahead (p := (· != '\x7d')) (a := a.drop 1) (c := c) (x := x) y (by
      rw [inner, List.length_drop]
      omega)
    rw [same, inner, if_pos closed, if_pos (by rw [List.length_append]; omega)]
  · simp only [Piece.faulty, Piece.total_cons, Piece.total_nil, List.length_append,
      List.length_cons] at within
    omega

include blank

theorem features_ahead {a x : List Char} {skip : Nat}
    (within : skip + Piece.total (features skip (a ++ c :: x)) ≤ a.length) (y : List Char) :
    features skip (a ++ c :: y) = features skip (a ++ c :: x) := by
  induction a generalizing skip with
  | nil =>
    rw [List.length_nil] at within
    obtain rfl : skip = 0 := by omega
    rw [List.nil_append, features, if_neg (ne_of_isBlank blank (by decide)),
      if_neg (ne_of_isBlank blank (by decide)), if_pos blank] at within
    simp only [Piece.total_cons] at within
    omega
  | cons d ds ih =>
    rw [List.length_cons] at within
    cases skip with
    | succ skip =>
      exact ih (by rw [List.cons_append, features] at within; omega)
    | zero =>
      rw [List.cons_append] at within ⊢
      cases features_head d with
      | brace brace =>
        subst brace
        rw [features_brace] at within ⊢
        rw [List.cons_append, features_brace]
        exact body_ahead (List.cons_ne_nil _ ds) (by simpa using within) y
      | @feature kind p feature alone splits =>
        rw [splits, Piece.total_cons] at within
        dsimp only at within
        have run := takeWhile_ahead (p := p) (a := ds) (c := c) (x := x) y (by omega)
        rw [List.cons_append, splits, splits, run, ih (by omega)]
      | other none => rw [List.cons_append, none, none]

end Assembly

include blank

theorem directiveEnding_ahead (a x y : List Char) :
    directiveEnding (a ++ c :: y) = directiveEnding (a ++ c :: x) := by
  have named := name_ahead (not_isNameChar_of_isBlank blank)
  have other (x : List Char) : directiveEnding (c :: x) = [] := by
    unfold directiveEnding
    split
    · next same => exact absurd (List.cons.inj same).1 (ne_of_isBlank blank (by decide))
    · rfl
  cases a with
  | nil => rw [List.nil_append, List.nil_append, other, other]
  | cons d ds =>
    by_cases comma : d = ','
    · subst comma
      rw [List.cons_append, List.cons_append, directiveEnding, directiveEnding, named ds x y]
    · rw [List.cons_append, List.cons_append]
      unfold directiveEnding
      split
      · next same => exact absurd (List.cons.inj same).1 comma
      split
      · next same => exact absurd (List.cons.inj same).1 comma
      · rfl

theorem directive_ahead {a : List Char} (some_char : a ≠ []) (x y : List Char) :
    directive (a ++ c :: y) = directive (a ++ c :: x) := by
  have stop := not_isNameChar_of_isBlank blank
  have opened : 1 ≤ a.length := List.length_pos_iff.mpr some_char
  have short : (a.take 1 ++ name (a.drop 1 ++ c :: x)).length ≤ a.length := by
    have below := length_name_ahead stop (a.drop 1) x
    rw [List.length_drop] at below
    rw [List.length_append, List.length_take]
    omega
  have head (x : List Char) : (a ++ c :: x).take 1 = a.take 1 :=
    List.take_append_of_le_length opened
  rw [directive, directive, head, head, List.drop_append_of_le_length opened,
    List.drop_append_of_le_length opened, name_ahead stop _ x y,
    List.drop_append_of_le_length short, List.drop_append_of_le_length short,
    directiveEnding_ahead blank _ x y]

omit blank in
theorem not_isBlank_of_mem_spelling {d : Directive} (member : c ∈ d.spelling.toList) :
    isBlank c = false := by
  have all : (d.spelling.toList.all fun e => !isBlank e) = true := by cases d <;> decide
  simpa using List.all_eq_true.mp all c member

theorem not_mem_spelling (d : Directive) : c ∉ d.spelling.toList :=
  fun member => ne_of_isBlank blank (not_isBlank_of_mem_spelling member) rfl

theorem beginsWith_ahead (d : Directive) (a x y : List Char) :
    beginsWith d (a ++ c :: y) = beginsWith d (a ++ c :: x) := by
  have out := not_mem_spelling blank d
  rw [beginsWith, beginsWith, isPrefixOf_ahead out a x y]
  cases begins : d.spelling.toList.isPrefixOf (a ++ c :: x) with
  | false => rfl
  | true =>
    have short := length_le_of_isPrefixOf out begins
    rw [String.length_toList] at short
    rw [wordEnds, wordEnds, head?_drop_ahead short x y]

theorem operator_ahead (a x y : List Char) : operator (a ++ c :: y) = operator (a ++ c :: x) := by
  have spelled : (operators.all fun kind => kind.text.toList.all fun d => !isBlank d) = true := by
    decide
  have out {kind : TokenKind} (among : kind ∈ operators) : c ∉ kind.text.toList := by
    have seen := List.all_eq_true.mp (List.all_eq_true.mp spelled kind among) c
    simpa [blank] using seen
  have same : operators.find? (fun kind => kind.text.toList.isPrefixOf (a ++ c :: y))
      = operators.find? (fun kind => kind.text.toList.isPrefixOf (a ++ c :: x)) := by
    refine List.find?_congr fun kind among => ?_
    exact isPrefixOf_ahead (out among) a x y
  rw [operator, operator, same]

end

end Lexer

end JaiTree
