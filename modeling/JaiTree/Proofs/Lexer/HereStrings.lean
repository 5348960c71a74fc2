import JaiTree.Proofs.Lexer.Trails
import JaiTree.Proofs.Text.Words

/-!
Here-strings in a text: what stands behind each of their directives. Main statement:
`Lexer.scan_hereString`.
-/

namespace JaiTree

open Text

/-- Whether only here-strings hold tokens of the kind. -/
def TokenKind.isHereString : TokenKind → Bool
  | .directive .string | .hereStringContent => true
  | _ => false

namespace Lexer

/-- A here-string, or a directive that no name follows on its line, or pieces of other kinds. -/
inductive Quotes (text : List Char) : List Piece → Prop
  | other {pieces : List Piece} : (∀ p ∈ pieces, p.kind.isHereString = false) → Quotes text pieces
  | bare {mark rest : List Char} : text = mark ++ rest → name (rest.dropWhile isIndent) = [] →
      Quotes text [{ kind := .directive .string, size := mark.length }]
  | closed {mark gap delimiter content rest : List Char} {blank : List Piece} :
      text = mark ++ (gap ++ (delimiter ++ (content ++ (delimiter ++ rest)))) →
      (∀ c ∈ gap, isIndent c = true) →
      blank = (if gap = [] then [] else [{ kind := .whitespace, size := gap.length }]) →
      Quotes text ({ kind := .directive .string, size := mark.length } :: (blank ++
        [{ kind := .identifier, size := delimiter.length },
         { kind := .hereStringContent, size := content.length },
         { kind := .identifier, size := delimiter.length }]))

theorem Quotes.single {text : List Char} {p : Piece} (h : p.kind.isHereString = false) :
    Quotes text [p] := by
  refine .other fun q member => ?_
  rw [List.mem_singleton.mp member]
  exact h

namespace HereString

/-- A name that is found again stands before and behind some content. -/
theorem exists_content {text : List Char} (some_name : name text ≠ []) {offset : Nat}
    (found : findWord (name text) none (text.drop (name text).length) = some offset) :
    ∃ content rest, text = name text ++ (content ++ (name text ++ rest))
      ∧ content.length = offset ∧ offset ≠ 0 := by
  obtain ⟨body, whole⟩ := isPrefix_name text
  have behind : text.drop (name text).length = body := by
    nth_rewrite 2 [← whole]
    rw [List.drop_left]
  rw [behind] at found
  obtain ⟨rest, again⟩ := findWord_prefix found
  have below := findWord_le found
  refine ⟨body.take offset, rest, ?_, ?_, ?_⟩
  · rw [again, List.take_append_drop, whole]
  · rw [List.length_take]
    omega
  · rintro rfl
    -- Right behind a name no other begins.
    obtain ⟨c, cs, -, starts, spelled⟩ := name_eq_cons some_name
    rw [spelled, List.drop_zero, ← behind] at again
    have ends := name_ends some_name again.symm
    rw [isNameChar_of_isNameStart starts] at ends
    cases ends

theorem pieces_quotes {mark : Nat} (pos : 0 < mark) {text : List Char} (h : mark ≤ text.length) :
    Quotes text (pieces mark text) := by
  obtain ⟨word, rest, rfl, rfl⟩ : ∃ word rest, text = word ++ rest ∧ word.length = mark :=
    ⟨text.take mark, text.drop mark, (List.take_append_drop mark text).symm, by simpa using h⟩
  obtain ⟨gap, behind, rfl, indents, drops, takes⟩ : ∃ gap behind, rest = gap ++ behind
      ∧ (∀ c ∈ gap, isIndent c = true) ∧ rest.dropWhile isIndent = behind
      ∧ rest.takeWhile isIndent = gap :=
    ⟨_, _, List.takeWhile_append_dropWhile.symm, List.all_eq_true.mp List.all_takeWhile,
      rfl, rfl⟩
  have some_mark : word.length ≠ 0 := Nat.pos_iff_ne_zero.mp pos
  rw [pieces, List.drop_left, takes]
  simp only [← List.drop_drop, List.drop_left]
  split
  · next none =>
    refine .bare rfl ?_
    rw [drops]
    exact List.isEmpty_iff.mp none
  · next some_name =>
    rw [List.isEmpty_iff] at some_name
    have size : (name behind).length ≠ 0 := fun none => some_name (List.length_eq_zero_iff.mp none)
    split
    · next offset found =>
      obtain ⟨content, after, whole, rfl, some_content⟩ := exists_content some_name found
      have closed : Quotes (word ++ (gap ++ behind)) _ := .closed (by rw [← whole]) indents rfl
      by_cases none : gap = []
      all_goals simpa [none, some_mark, size, some_content] using closed
    · exact .single rfl

end HereString

theorem Comment.blockKind_isHereString (text : List Char) :
    (blockKind text).isHereString = false := by
  rw [blockKind]
  split <;> rfl

theorem Quotation.string_quotes (text : List Char) : Quotes text (string text) := by
  rw [string]
  split
  · next ps found =>
    obtain ⟨inner, kinds, sound⟩ := pieces_kinds found
    refine .other fun p member => ?_
    have among : p.kind ∈ Piece.kindsOf ({ kind := .doubleQuote, size := 1 } :: ps) :=
      List.mem_map_of_mem member
    rw [Piece.kindsOf, List.map_cons, ← Piece.kindsOf, kinds] at among
    simp only [List.mem_cons, List.mem_append, List.not_mem_nil, or_false] at among
    rcases among with quote | piece | quote
    · rw [quote]
      rfl
    · have isPiece := sound _ piece
      cases kind : p.kind with
      | directive d =>
        rw [kind] at isPiece
        cases isPiece
      | hereStringContent =>
        rw [kind] at isPiece
        cases isPiece
      | _ => rfl
    · rw [quote]
      rfl
  · exact .single rfl

theorem Assembly.pieces_quotes (mark : Nat) (text : List Char) :
    Quotes text (pieces mark text) := by
  have within_body (text : List Char) : ∀ p ∈ body text, p.kind.isHereString = false := by
    intro p member
    rw [body] at member
    split at member
    · have among := List.mem_of_mem_filter member
      simp only [List.mem_cons, List.not_mem_nil, or_false] at among
      rcases among with rfl | rfl | rfl
      all_goals rfl
    · rw [List.mem_singleton.mp member]
      rfl
  have within_features (skip : Nat) (text : List Char) :
      ∀ p ∈ features skip text, p.kind.isHereString = false := by
    induction text generalizing skip with
    | nil => simp [features]
    | cons c cs ih =>
      cases skip with
      | succ skip => exact ih skip
      | zero =>
        rw [features]
        split
        · exact within_body _
        split
        · exact List.forall_mem_cons.mpr ⟨rfl, ih 0⟩
        split
        · exact List.forall_mem_cons.mpr ⟨rfl, ih _⟩
        split
        · exact List.forall_mem_cons.mpr ⟨rfl, ih _⟩
        · simp
  exact .other (List.forall_mem_cons.mpr ⟨rfl, within_features 0 _⟩)

theorem operator_quotes (text : List Char) : Quotes text (operator text) := by
  rw [operator]
  split
  · next kind found =>
    have spelled : ∀ kind ∈ operators, kind.isHereString = false := by decide
    exact .single (spelled kind (List.mem_of_find?_eq_some found))
  · exact .other (List.forall_mem_nil _)

theorem spelling_of_ofText? {text : List Char} {d : Directive}
    (found : Directive.ofText? (String.ofList text) = some d) : d.spelling.toList = text := by
  have spelled := List.find?_some found
  rw [of_decide_eq_true spelled, String.toList_ofList]

/-- A directive that goes on in a script of its own is no here-string, and no name follows it. -/
theorem bare_quotes {text : List Char} (other : beginsWith .string text = false)
    (word : text.take 1 ++ name (text.drop 1) = Directive.string.spelling.toList) :
    Quotes text [{ kind := .directive .string, size := Directive.string.spelling.length }] := by
  obtain ⟨rest, whole⟩ := isPrefix_name (text.drop 1)
  have split : text = Directive.string.spelling.toList ++ rest := by
    rw [← word, List.append_assoc, whole, List.take_append_drop]
  rw [split, beginsWith_append, wordEnds, Bool.not_eq_false'] at other
  refine .bare split ?_
  cases rest with
  | nil => cases other
  | cons c cs =>
    have continues : isWordChar c = true := other
    have indent : isIndent c = false := by
      cases indent : isIndent c with
      | false => rfl
      | true =>
        simp only [isIndent, Bool.or_eq_true, decide_eq_true_eq] at indent
        rcases indent with rfl | rfl
        all_goals exact absurd continues (by decide +kernel)
    have ends : isNameStart c = false := by
      cases starts : isNameStart c with
      | false => rfl
      | true =>
        have some_name : name (text.drop 1) ≠ [] := by
          intro none
          rw [none, List.append_nil] at word
          have length := congrArg List.length word
          have short := List.length_take_le 1 text
          simp [Directive.spelling] at length
          omega
        have behind : (text.drop 1).drop (name (text.drop 1)).length = c :: cs := by
          nth_rewrite 2 [← whole]
          rw [List.drop_left]
        have stop := name_ends some_name behind
        rw [isNameChar_of_isNameStart starts] at stop
        cases stop
    simp [indent, name, ends]

theorem directiveEnding_eq_nil {text : List Char} (h : ',' ∉ directiveEnding text) :
    directiveEnding text = [] := by
  unfold directiveEnding at h ⊢
  split
  · next cs =>
    by_cases none : (name cs).isEmpty = true
    · rw [if_pos none]
    · simp [none] at h
  · rfl

theorem directive_quotes {text : List Char} (other : beginsWith .string text = false) :
    Quotes text (directive text) := by
  have single {d : Directive} {size : Nat} (h : d ≠ .string) :
      Quotes text [{ kind := .directive d, size }] := by
    refine .single ?_
    cases d
    all_goals first | rfl | exact absurd rfl h
  rw [directive]
  split
  · exact .other (List.forall_mem_nil _)
  · split
    · next d found =>
      by_cases string : d = .string
      · subst string
        have whole := spelling_of_ofText? found
        have unended : directiveEnding _ = [] := directiveEnding_eq_nil fun comma => by
          have among := List.mem_append_right (text.take 1 ++ name (text.drop 1)) comma
          rw [← whole] at among
          exact absurd among (by decide)
        rw [unended, List.append_nil] at whole ⊢
        rw [← whole, String.length_toList]
        exact bare_quotes other whole.symm
      · exact single string
    · next d _ found =>
      by_cases string : d = .string
      · subst string
        have base := spelling_of_ofText? found
        rw [← base, String.length_toList]
        exact bare_quotes other base.symm
      · exact single string
    · exact .single rfl

theorem hash_quotes (text : List Char) : Quotes text (hash text) := by
  rw [hash]
  split
  · next string =>
    exact HereString.pieces_quotes (by decide) (length_spelling_le string)
  · next other =>
    split
    · exact Assembly.pieces_quotes _ text
    · exact directive_quotes (Bool.eq_false_iff.mpr other)

theorem recognise_quotes (text : List Char) : Quotes text (recognise text) := by
  cases text with
  | nil => exact .other (List.forall_mem_nil _)
  | cons c cs =>
    rw [recognise]
    split
    · exact .single rfl
    split
    · exact .single rfl
    split
    · rw [Comment.block]
      split
      · exact .single (Comment.blockKind_isHereString _)
      · exact .single rfl
    split
    · exact hash_quotes _
    split
    · exact .single rfl
    split
    · exact .single rfl
    split
    · exact Quotation.string_quotes _
    · exact operator_quotes _

theorem group_quotes (text : List Char) : Quotes text (group text) := by
  have quotes := recognise_quotes text
  rw [group]
  split
  · exact .single rfl
  · exact quotes

theorem Piece.tokens_cons (start : Nat) (a b : List Char) (kind : TokenKind) (ps : List Piece) :
    tokens start (a ++ b) ({ kind, size := a.length } :: ps)
      = { kind, text := String.ofList a, start } :: tokens (start + Text.width a) b ps := by
  rw [tokens, List.take_left, List.drop_left, Token.stop, Text.utf8ByteSize_ofList]

/-- What stands behind the directive of a here-string: the name that it sets, on its line, content
and the same name; or else a text that no name begins, whatever blanks of the line come first. -/
inductive Behind : List Token → Prop
  | closed {gap later : List Token} {first content last : Token} :
      (∀ t ∈ gap, t.isTrivia = true ∧ ∀ c ∈ t.text.toList, isIndent c = true) →
      first.kind = .identifier → content.kind = .hereStringContent → last.kind = .identifier →
      last.text = first.text → Behind (gap ++ first :: content :: last :: later)
  | bare {start : Nat} {text : List Char} : name (text.dropWhile isIndent) = [] →
      Behind (scan 0 start text)

theorem Quotes.behind {start : Nat} {text : List Char} {pieces : List Piece}
    {before inner after : List Token} {d : Token} (quotes : Quotes text pieces)
    (split : Piece.tokens start text pieces = before ++ d :: inner)
    (kind : d.kind = .directive .string)
    (later : ∃ start, after = scan 0 start (text.drop (Piece.total pieces))) :
    Behind (inner ++ after) := by
  have kinds := congrArg (List.map fun t => t.kind) split
  rw [Piece.map_kind_tokens, List.map_append, List.map_cons, kind] at kinds
  cases quotes with
  | other others =>
    have among : TokenKind.directive .string ∈ Piece.kindsOf pieces := by simp [kinds]
    obtain ⟨p, member, same⟩ := List.mem_map.mp among
    have other := others p member
    rw [same] at other
    cases other
  | @bare mark rest whole none =>
    obtain ⟨start, rfl⟩ := later
    subst whole
    rw [Piece.tokens_cons] at split
    rcases List.append_eq_cons_iff.mp split.symm with ⟨-, same⟩ | ⟨_, -, more⟩
    · cases same
      simp only [Piece.total_cons, Piece.total_nil, Nat.add_zero, List.drop_left]
      exact .bare none
    · cases List.append_ne_nil_of_right_ne_nil _ (List.cons_ne_nil d inner) more.symm
  | @closed mark gap delimiter content rest blank whole indents blanks =>
    subst whole
    -- No other token of a here-string is a directive.
    have first : before = [] := by
      cases before with
      | nil => rfl
      | cons t ts =>
        have among := congrArg List.tail kinds
        have member : TokenKind.directive .string ∈ List.map (fun t => t.kind) ts
            ++ .directive .string :: List.map (fun t => t.kind) inner := by simp
        rw [List.map_cons, List.cons_append, List.tail_cons] at among
        rw [← among, blanks] at member
        by_cases none : gap = []
        all_goals simp [none, Piece.kindsOf] at member
    subst first
    rw [Piece.tokens_cons, List.nil_append] at split
    cases split
    by_cases none : gap = []
    · subst none blanks
      rw [if_pos rfl, List.nil_append, List.nil_append, Piece.tokens_cons, Piece.tokens_cons,
        Piece.tokens_cons]
      exact @Behind.closed [] _ _ _ _ (List.forall_mem_nil _) rfl rfl rfl rfl
    · subst blanks
      rw [if_neg none, List.singleton_append, Piece.tokens_cons, Piece.tokens_cons,
        Piece.tokens_cons, Piece.tokens_cons]
      refine @Behind.closed [_] _ _ _ _ (fun t member => ?_) rfl rfl rfl rfl
      rw [List.mem_singleton.mp member]
      exact ⟨rfl, by simpa using indents⟩

/-- Behind each directive of a here-string, on its line, a name with content between its two
occurrences stands, or no name. -/
theorem scan_hereString {start : Nat} {text : List Char} {before rest : List Token} {d : Token}
    (split : scan 0 start text = before ++ d :: rest) (kind : d.kind = .directive .string) :
    Behind rest := by
  obtain ⟨-, mine, position, cs, inner, -, -, -, own, later, rfl⟩ :=
    exists_group split (by rintro position rfl; cases kind)
  exact (group_quotes cs).behind own kind ⟨later, rfl⟩

/-- Content stands behind the directive of a here-string. -/
theorem directive_before {start : Nat} {text : List Char} {before after : List Token}
    {content : Token} (split : scan 0 start text = before ++ content :: after)
    (kind : content.kind = .hereStringContent) : ∃ d ∈ before, d.kind = .directive .string := by
  obtain ⟨earlier, mine, position, rest, inner, rfl, -, -, own, -⟩ :=
    exists_group split (by rintro position rfl; cases kind)
  have kinds := congrArg (List.map fun t => t.kind) own
  rw [Piece.map_kind_tokens, List.map_append, List.map_cons, kind] at kinds
  have among : TokenKind.hereStringContent ∈ Piece.kindsOf (group rest) := by simp [kinds]
  have quotes := group_quotes rest
  generalize group rest = pieces at quotes kinds among
  cases quotes with
  | other others =>
    obtain ⟨p, member, same⟩ := List.mem_map.mp among
    have other := others p member
    rw [same] at other
    cases other
  | bare => cases List.mem_singleton.mp among
  | closed =>
    cases mine with
    | nil => cases (List.cons.inj kinds).1
    | cons d ds =>
      exact ⟨d, List.mem_append_right _ List.mem_cons_self, (List.cons.inj kinds).1.symm⟩

theorem hash_head (text : List Char) : (Piece.kindsOf (hash text)).head? ≠ some .identifier := by
  rw [hash]
  split
  · rw [HereString.pieces]
    dsimp only
    split
    · decide
    · split
      all_goals simp [Piece.kindsOf, Piece.faulty, Directive.spelling]
  split
  · simp [Assembly.pieces, Piece.kindsOf]
  · rw [directive]
    split
    · decide
    · split
      all_goals simp [Piece.kindsOf, Piece.faulty]

/-- A name is cut off first only where one begins. -/
theorem isNameStart_of_group {c : Char} {cs : List Char}
    (kind : (Piece.kindsOf (group (c :: cs))).head? = some .identifier) :
    isNameStart c = true := by
  rw [group] at kind
  split at kind
  · cases kind
  · rw [recognise] at kind
    split at kind
    · cases kind
    split at kind
    · cases kind
    split at kind
    · rw [Comment.block] at kind
      split at kind
      · rw [Comment.blockKind] at kind
        split at kind
        all_goals cases kind
      · cases kind
    split at kind
    · exact absurd kind (hash_head _)
    split at kind
    · assumption
    split at kind
    · cases kind
    split at kind
    · rw [Quotation.string] at kind
      split at kind
      all_goals cases kind
    · rw [operator] at kind
      split at kind
      · next found =>
        have among := List.mem_of_find?_eq_some found
        cases kind
        exact absurd among (by decide)
      · cases kind

theorem group_blank {c : Char} {cs : List Char} (blank : isBlank c = true) :
    group (c :: cs)
      = [{ kind := .whitespace, size := ((c :: cs).takeWhile isBlank).length }] := by
  rw [group, recognise, if_pos blank]

/-- No name is cut off first, whatever blanks of the line come before it, where none begins. -/
theorem not_identifier {start : Nat} {text : List Char} {gap later : List Token} {t : Token}
    (none : name (text.dropWhile isIndent) = [])
    (split : scan 0 start text = gap ++ t :: later)
    (indents : ∀ u ∈ gap, ∀ c ∈ u.text.toList, isIndent c = true) : t.kind ≠ .identifier := by
  induction start, text using scan_induction generalizing gap with
  | nil start =>
    have member : t ∈ [Token.eofAt start] := split ▸ by simp
    rw [List.mem_singleton.mp member]
    simp [Token.eofAt]
  | group start text some_char ih =>
    obtain ⟨c, cs, rfl⟩ := List.exists_cons_of_ne_nil some_char
    cases indent : isIndent c with
    | true =>
      rw [group_blank (isBlank_of_isIndent indent)] at split ih
      simp only [Piece.tokens, Piece.total_cons, Piece.total_nil, Nat.add_zero,
        List.singleton_append] at split ih
      cases gap with
      | nil =>
        obtain ⟨rfl, -⟩ := List.cons.inj split
        simp
      | cons u us =>
        obtain ⟨rfl, found⟩ := List.cons.inj split
        have all := indents _ List.mem_cons_self
        refine ih ?_ found fun u member => indents u (List.mem_cons_of_mem _ member)
        rw [String.toList_ofList] at all
        rw [← List.take_append_drop ((c :: cs).takeWhile isBlank).length (c :: cs),
          List.dropWhile_append_of_pos all] at none
        exact none
    | false =>
      rw [List.dropWhile_cons_of_neg (by simp [indent])] at none
      have fit := (group_fit some_char).1
      have named := @isNameStart_of_group c cs
      cases pieces : group (c :: cs) with
      | nil =>
        have pos := (group_fit some_char).2
        simp [pieces] at pos
      | cons p ps =>
        rw [pieces] at split fit named
        have pos := (fit.sound p List.mem_cons_self).pos
        cases gap with
        | nil =>
          obtain ⟨rfl, -⟩ := List.cons.inj split
          intro identifier
          have starts := named (congrArg some identifier)
          simp [name, starts] at none
        | cons u us =>
          obtain ⟨rfl, -⟩ := List.cons.inj split
          have first := indents _ List.mem_cons_self c (by
            rw [String.toList_ofList, List.take_cons pos]
            exact List.mem_cons_self)
          rw [indent] at first
          cases first

end Lexer

/-- The first token behind trivia is where the trivia ends. -/
theorem eq_of_trivia {gap gap' later later' : List Token} {t t' : Token}
    (same : gap ++ t :: later = gap' ++ t' :: later') (trivial : ∀ u ∈ gap, u.isTrivia = true)
    (trivial' : ∀ u ∈ gap', u.isTrivia = true) (seen : t.isTrivia = false)
    (seen' : t'.isTrivia = false) : gap = gap' ∧ t = t' ∧ later = later' := by
  induction gap generalizing gap' with
  | nil =>
    cases gap' with
    | nil => exact ⟨rfl, List.cons.inj same⟩
    | cons u us =>
      obtain ⟨rfl, -⟩ := List.cons.inj same
      rw [trivial' t List.mem_cons_self] at seen
      cases seen
  | cons u us ih =>
    cases gap' with
    | nil =>
      obtain ⟨rfl, -⟩ := List.cons.inj same
      rw [trivial u List.mem_cons_self] at seen'
      cases seen'
    | cons u' us' =>
      obtain ⟨rfl, same'⟩ := List.cons.inj same
      obtain ⟨rfl, rest⟩ := ih same' (fun v member => trivial v (List.mem_cons_of_mem u member))
        fun v member => trivial' v (List.mem_cons_of_mem u member)
      exact ⟨rfl, rest⟩

section

variable {text : String} {before gap behind : List Token} {d first : Token}
  (split : tokenize text = before ++ d :: (gap ++ first :: behind))
  (directive : d.kind = .directive .string) (trivial : ∀ u ∈ gap, u.isTrivia = true)
  (named : first.kind = .identifier)
include split directive trivial named

/-- A name behind the directive of a here-string is the one that it sets, on its line, or what
follows the directive is cut as if a text began there. -/
theorem name_behind :
    ((∀ u ∈ gap, ∀ c ∈ u.text.toList, isIndent c = true)
      ∧ ∃ content last later, behind = content :: last :: later
        ∧ content.kind = .hereStringContent ∧ last.kind = .identifier ∧ last.text = first.text)
      ∨ ∃ start cs, name (cs.dropWhile isIndent) = []
        ∧ Lexer.scan 0 start cs = gap ++ first :: behind := by
  have stands := Lexer.scan_hereString split directive
  generalize whole : gap ++ first :: behind = rest at stands
  cases stands with
  | @closed blank _ name content last blanks named' held again same =>
    have trivial' (u : Token) (member : u ∈ blank) := (blanks u member).1
    have seen : first.isTrivia = false := by rw [Token.isTrivia, named]; rfl
    have seen' : name.isTrivia = false := by rw [Token.isTrivia, named']; rfl
    obtain ⟨rfl, rfl, rfl⟩ := eq_of_trivia whole trivial trivial' seen seen'
    exact .inl ⟨fun u member => (blanks u member).2, content, last, _, rfl, held, again, same⟩
  | @bare start cs none => exact .inr ⟨start, cs, none, rfl⟩

/-- Content and the same name again follow a name on the line of its directive. -/
theorem content_of_indents (indents : ∀ u ∈ gap, ∀ c ∈ u.text.toList, isIndent c = true) :
    ∃ content last later, behind = content :: last :: later ∧ content.kind = .hereStringContent
      ∧ last.kind = .identifier ∧ last.text = first.text := by
  rcases name_behind split directive trivial named with ⟨-, closed⟩ | ⟨start, cs, none, whole⟩
  · exact closed
  · exact absurd named (Lexer.not_identifier none whole indents)

/-- Content follows only a name on the line of its directive. -/
theorem indents_of_content {gap' later : List Token} {content : Token}
    (follows : behind = gap' ++ content :: later) (trivial' : ∀ u ∈ gap', u.isTrivia = true)
    (held : content.kind = .hereStringContent) :
    ∀ u ∈ gap, ∀ c ∈ u.text.toList, isIndent c = true := by
  rcases name_behind split directive trivial named with ⟨indents, -⟩ | ⟨start, cs, -, whole⟩
  · exact indents
  · have split : Lexer.scan 0 start cs = (gap ++ first :: gap') ++ content :: later := by
      simp [whole, follows]
    obtain ⟨u, member, string⟩ := Lexer.directive_before split held
    have blank : u.isTrivia = true ∨ u = first := by
      rcases List.mem_append.mp member with member | member
      · exact .inl (trivial u member)
      · rcases List.mem_cons.mp member with same | member
        · exact .inr same
        · exact .inl (trivial' u member)
    rcases blank with blank | rfl
    · rw [Token.isTrivia, string] at blank
      cases blank
    · cases string.symm.trans named

end

end JaiTree
