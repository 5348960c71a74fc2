import JaiTree.Proofs.Lexer.Ahead
import JaiTree.Proofs.Lexer.Spacing

/-!
The features of an assembly block: without raw text behind them they are cut in the same way by
themselves. Main statements: `Assembly.features_alone`, `Assembly.features_blanks`.
-/

namespace JaiTree

namespace Lexer

open Text

theorem Piece.exists_of_mem_tokens {start : Nat} {text : List Char} {pieces : List Piece}
    {t : Token} (member : t ∈ tokens start text pieces) :
    ∃ p ∈ pieces, t.kind = p.kind ∧ t.error = p.error := by
  induction pieces generalizing start text with
  | nil => cases member
  | cons p ps ih =>
    rcases List.mem_cons.mp member with rfl | later
    · exact ⟨p, List.mem_cons_self, rfl, rfl⟩
    · obtain ⟨q, among, same⟩ := ih later
      exact ⟨q, List.mem_cons_of_mem p among, same⟩

theorem Piece.exists_mem_tokens {start : Nat} {text : List Char} {pieces : List Piece} {p : Piece}
    (member : p ∈ pieces) :
    ∃ t ∈ tokens start text pieces, t.kind = p.kind ∧ t.error = p.error := by
  induction pieces generalizing start text with
  | nil => cases member
  | cons q qs ih =>
    rcases List.mem_cons.mp member with rfl | later
    · exact ⟨_, List.mem_cons_self, rfl, rfl⟩
    · obtain ⟨t, among, same⟩ := @ih _ _ later
      exact ⟨t, List.mem_cons_of_mem _ among, same⟩

/-- Where tokens are parted their pieces are. -/
theorem Piece.tokens_split {start : Nat} {text : List Char} {pieces : List Piece}
    {before inner : List Token} {t : Token}
    (split : tokens start text pieces = before ++ t :: inner) :
    ∃ first p later, pieces = first ++ p :: later ∧ tokens start text first = before
      ∧ tokens start text (first ++ [p]) = before ++ [t] ∧ p.kind = t.kind := by
  induction pieces generalizing start text before with
  | nil => simp [tokens] at split
  | cons q qs ih =>
    rw [tokens] at split
    cases before with
    | nil =>
      obtain ⟨rfl, -⟩ := List.cons.inj split
      exact ⟨[], q, qs, rfl, rfl, rfl, rfl⟩
    | cons u us =>
      obtain ⟨rfl, behind⟩ := List.cons.inj split
      obtain ⟨first, p, later, rfl, rfl, ends, kind⟩ := ih behind
      refine ⟨q :: first, p, later, rfl, rfl, ?_, kind⟩
      rw [List.cons_append, tokens, ends]
      rfl

theorem group_openCurly (cs : List Char) :
    group ('\x7b' :: cs) = [{ kind := .openCurly, size := 1 }] := rfl

theorem group_closeCurly (cs : List Char) :
    group ('\x7d' :: cs) = [{ kind := .closeCurly, size := 1 }] := rfl

namespace Assembly

theorem isRaw_of_isFeature {kind : TokenKind} {size : Nat} (feature : kind.isFeature = true) :
    Piece.isRaw { kind, size } = false := by
  have other : kind ≠ .asmContent := by
    rintro rfl
    cases feature
  simp [Piece.isRaw, other]

/-- Between braces stands nothing, or raw text, which may have no end. -/
theorem body_cases (cs : List Char) :
    (∃ rest, cs = '\x7d' :: rest ∧ body ('\x7b' :: cs)
        = [{ kind := .openCurly, size := 1 }, { kind := .closeCurly, size := 1 }])
      ∨ ∃ opening raw closing, body ('\x7b' :: cs) = opening ++ raw :: closing
        ∧ (∀ p ∈ opening, p.kind.isFeature = true) ∧ raw.isRaw = true := by
  rw [body, List.drop_succ_cons, List.drop_zero]
  split
  · next closed =>
    cases cs with
    | nil => simp at closed
    | cons d ds =>
      by_cases empty : d = '\x7d'
      · subst empty
        exact .inl ⟨ds, rfl, by simp⟩
      · refine .inr ⟨[{ kind := .openCurly, size := 1 }], _, [{ kind := .closeCurly, size := 1 }],
          by simp [empty]; rfl, by simp [TokenKind.isFeature], by simp [Piece.isRaw]⟩
  · exact .inr ⟨[], _, [], rfl, by simp, by simp [Piece.isRaw, Piece.faulty]⟩

/-- Raw text stands behind features. -/
theorem features_raw {skip : Nat} {text : List Char}
    (holds : (features skip text).any Piece.isRaw = true) :
    ∃ asked raw closing, features skip text = asked ++ raw :: closing
      ∧ (∀ p ∈ asked, p.kind.isFeature = true) ∧ raw.isRaw = true := by
  induction text generalizing skip with
  | nil => simp [features] at holds
  | cons c cs ih =>
    cases skip with
    | succ skip => exact ih holds
    | zero =>
      cases features_head c with
      | brace brace =>
        subst brace
        rw [features_brace] at holds ⊢
        rcases body_cases cs with ⟨rest, -, empty⟩ | found
        · rw [empty] at holds
          simp [Piece.isRaw] at holds
        · exact found
      | @feature kind p feature alone splits =>
        rw [splits] at holds ⊢
        rw [List.any_cons, isRaw_of_isFeature feature, Bool.false_or] at holds
        obtain ⟨asked, raw, closing, parts, features, found⟩ := ih holds
        exact ⟨_ :: asked, raw, closing, by rw [parts, List.cons_append],
          List.forall_mem_cons.mpr ⟨feature, features⟩, found⟩
      | other none =>
        rw [none] at holds
        cases holds

/-- Without raw text behind them the features are cut in the same way by themselves. -/
theorem features_alone {skip : Nat} {text : List Char}
    (plain : (features skip text).any Piece.isRaw = false) :
    Cuts (text.drop skip) (features skip text) := by
  induction text generalizing skip with
  | nil =>
    rw [features]
    exact .nothing _
  | cons c cs ih =>
    cases skip with
    | succ skip => exact ih plain
    | zero =>
      rw [List.drop_zero]
      cases features_head c with
      | brace brace =>
        subst brace
        rw [features_brace] at plain ⊢
        rcases body_cases cs with ⟨rest, rfl, empty⟩ | ⟨opening, raw, closing, parts, -, found⟩
        · rw [empty, ← List.singleton_append]
          have opens : Cuts ('\x7b' :: '\x7d' :: rest) (group ('\x7b' :: '\x7d' :: rest)) :=
            .group (List.cons_ne_nil _ _)
          have closes : Cuts ('\x7d' :: rest) (group ('\x7d' :: rest)) :=
            .group (List.cons_ne_nil _ _)
          rw [group_openCurly] at opens
          rw [group_closeCurly] at closes
          refine (Cuts.iff_left ?_).mpr opens
          exact closes
        · rw [parts] at plain
          simp [found] at plain
      | @feature kind p feature alone splits =>
        rw [splits] at plain ⊢
        rw [List.any_cons, Bool.or_eq_false_iff] at plain
        have first : Cuts (c :: cs) [{ kind, size := 1 + (cs.takeWhile p).length }] :=
          alone cs ▸ Cuts.group (List.cons_ne_nil c cs)
        rw [← List.singleton_append]
        refine (Cuts.iff_left ?_).mpr first
        rw [Piece.total_cons, Piece.total_nil, Nat.add_zero, Nat.add_comm, List.drop_succ_cons]
        exact ih plain.2
      | other none =>
        rw [none]
        exact .nothing _

section

variable {blanks : List Char} (some_blank : blanks ≠ [])
  (blank : ∀ c ∈ blanks, isBlank c = true)
include some_blank blank

theorem features_cons {y : List Char} (stop : ∀ c ∈ y.head?, isBlank c = false) :
    features 0 (blanks ++ y) = { kind := .whitespace, size := blanks.length } :: features 0 y := by
  obtain ⟨c, cs, rfl⟩ := List.exists_cons_of_ne_nil some_blank
  have space := blank c List.mem_cons_self
  have run := takeWhile_isBlank (fun d member => blank d (List.mem_cons_of_mem c member)) stop
  rw [List.cons_append, features, if_neg (ne_of_isBlank space (by decide)),
    if_neg (ne_of_isBlank space (by decide)), if_pos space]
  dsimp only
  rw [run, features_skip, List.drop_left, List.length_cons, Nat.add_comm]

/-- What comes before blanks among the features does not depend on what follows the blanks. -/
theorem features_blanks {skip : Nat} {a post : List Char} {asked later : List Piece} {p : Piece}
    (parts : features skip (a ++ (blanks ++ post)) = asked ++ p :: later)
    (kind : p.kind = .whitespace) (size : skip + Piece.total asked = a.length) {y : List Char}
    (stop : ∀ c ∈ y.head?, isBlank c = false) :
    features skip (a ++ (blanks ++ y))
      = asked ++ { kind := .whitespace, size := blanks.length } :: features 0 y := by
  obtain ⟨c, cs, rfl⟩ := List.exists_cons_of_ne_nil some_blank
  induction a generalizing skip asked with
  | nil =>
    obtain ⟨rfl, none⟩ : skip = 0 ∧ Piece.total asked = 0 := by
      rw [List.length_nil] at size
      omega
    have bare : asked = [] := by
      cases asked with
      | nil => rfl
      | cons q qs =>
        have sound := (features_fit 0 ([] ++ (c :: cs ++ post))).sound q (by rw [parts]; simp)
        have pos := sound.pos
        rw [Piece.total_cons] at none
        omega
    rw [bare]
    exact features_cons some_blank blank stop
  | cons d ds ih =>
    rw [List.length_cons] at size
    cases skip with
    | succ skip => exact ih (by omega) parts
    | zero =>
      rw [List.cons_append, List.cons_append]
      rw [List.cons_append] at parts
      cases features_head d with
      | brace brace =>
        subst brace
        rw [features_brace] at parts
        have member : p ∈ body ('\x7b' :: (ds ++ (c :: cs ++ post))) := by rw [parts]; simp
        exact absurd kind (not_whitespace_of_mem_body member)
      | @feature kind q feature alone splits =>
        rw [splits] at parts ⊢
        cases asked with
        | nil =>
          rw [Piece.total_nil] at size
          omega
        | cons r rs =>
          obtain ⟨rfl, behind⟩ := List.cons.inj parts
          rw [Piece.total_cons] at size
          dsimp only at size
          have run := takeWhile_ahead (p := q) (a := ds) (c := c) (x := cs ++ post) (cs ++ y)
            (by rw [← List.cons_append]; omega)
          have later := ih (by omega) behind
          rw [run]
          exact congrArg _ later
      | other none =>
        rw [none] at parts
        cases List.append_ne_nil_of_right_ne_nil asked (List.cons_ne_nil p later) parts.symm

end

/-- Only raw text without an end is wrong behind the directive, from its brace on. -/
theorem features_error {start skip : Nat} {text : List Char} {t : Token}
    (member : t ∈ Piece.tokens start (text.drop skip) (features skip text))
    (wrong : t.error ≠ none) :
    t.error = some .unterminatedAsm ∧ t.kind = .error ∧ t.text.toList.head? = some '\x7b' := by
  induction text generalizing start skip with
  | nil => simp [features, Piece.tokens] at member
  | cons c cs ih =>
    cases skip with
    | succ skip => exact ih member
    | zero =>
      rw [List.drop_zero] at member
      cases features_head c with
      | brace brace =>
        subst brace
        rw [features_brace, body] at member
        split at member
        · obtain ⟨p, among, same⟩ := Piece.exists_of_mem_tokens member
          have among := List.mem_of_mem_filter among
          simp only [List.mem_cons, List.not_mem_nil, or_false] at among
          rcases among with rfl | rfl | rfl
          all_goals exact absurd same.2 wrong
        · rw [Piece.tokens, Piece.tokens, List.mem_singleton] at member
          rw [member]
          exact ⟨rfl, rfl, by simp [Piece.faulty]⟩
      | feature feature alone splits =>
        rw [splits, Piece.tokens, Nat.add_comm, List.drop_succ_cons] at member
        rcases List.mem_cons.mp member with rfl | later
        · exact absurd rfl wrong
        · exact ih later
      | other none =>
        rw [none] at member
        cases member

end Assembly

theorem exists_eq_cons_of_take {text : List Char} {n : Nat} {c : Char}
    (first : (text.take n).head? = some c) : ∃ cs, text = c :: cs := by
  cases text with
  | nil => simp at first
  | cons d ds =>
    cases n with
    | zero => cases first
    | succ n =>
      cases first
      exact ⟨ds, rfl⟩

/-- Raw text stands behind the directive of an assembly block. -/
theorem asm_before {start : Nat} {text : List Char} {before after : List Token} {t : Token}
    (split : scan 0 start text = before ++ t :: after)
    (raw : t.kind = .asmContent ∨ t.kind = .error ∧ t.text.toList.head? = some '\x7b') :
    ∃ d ∈ before, d.kind = .directive .asm := by
  obtain ⟨earlier, mine, position, cs, inner, rfl, -, some_char, own, -⟩ :=
    exists_group split (by rintro position rfl; simp [Token.eofAt] at raw)
  have fit := (group_fit some_char).1
  have member : t ∈ Piece.tokens position cs (group cs) := by rw [own]; simp
  obtain ⟨p, among, kind, error⟩ := Piece.exists_of_mem_tokens member
  have wrong := (fit.sound p among).error_iff
  have spacing := group_spacing cs
  generalize pieces : group cs = ps at spacing own among
  cases spacing with
  | @single q plain =>
    obtain rfl := List.mem_singleton.mp among
    rcases raw with raw | ⟨bad, brace⟩
    · have raw' := plain.raw
      simp [Piece.isRaw, ← kind, raw] at raw'
    · rw [pieces, Piece.tokens, Piece.tokens, List.mem_singleton] at member
      rw [member, String.toList_ofList] at brace
      obtain ⟨ds, rfl⟩ := exists_eq_cons_of_take brace
      rw [group_openCurly] at pieces
      cases pieces
      cases kind.symm.trans bad
  | several plain =>
    obtain ⟨plain, none⟩ := plain p among
    rcases raw with raw | ⟨bad, -⟩
    · have raw' := plain.raw
      simp [Piece.isRaw, ← kind, raw] at raw'
    · rw [none, ← kind] at wrong
      simpa using wrong.mpr bad
  | blanks =>
    rw [kind, List.mem_singleton.mp among] at raw
    simp at raw
  | closed =>
    rw [kind] at raw
    simp only [HereString.spaced, List.mem_cons, List.not_mem_nil, or_false] at among
    rcases among with rfl | rfl | rfl | rfl | rfl
    all_goals simp at raw
  | unclosed sets =>
    rcases raw with raw | ⟨-, brace⟩
    · rw [kind, List.mem_singleton.mp among] at raw
      cases raw
    · rw [pieces, Piece.tokens, Piece.tokens, List.mem_singleton] at member
      rw [member, String.toList_ofList] at brace
      obtain ⟨ds, rfl⟩ := exists_eq_cons_of_take brace
      have other := congrArg List.head? sets.whole
      cases other
  | assembly =>
    cases mine with
    | nil =>
      obtain ⟨rfl, -⟩ := List.cons.inj own
      rcases raw with raw | ⟨raw, -⟩
      all_goals cases raw
    | cons d ds =>
      obtain ⟨rfl, -⟩ := List.cons.inj own
      exact ⟨_, List.mem_append_right _ List.mem_cons_self, rfl⟩

theorem HereString.unclosed_cause_ne (delimiter body : List Char) :
    (unclosed delimiter body).1 ≠ .unterminatedAsm := by
  rw [unclosed]
  dsimp only
  split
  · simp
  · split
    all_goals simp

/-- Raw text without an end is wrong from its brace on. -/
theorem brace_of_error {start : Nat} {text : List Char} {t : Token}
    (member : t ∈ scan 0 start text) (wrong : t.error = some .unterminatedAsm) :
    t.kind = .error ∧ t.text.toList.head? = some '\x7b' := by
  obtain ⟨before, after, split⟩ := List.append_of_mem member
  obtain ⟨-, mine, position, cs, inner, -, -, -, own, -⟩ := 
    exists_group split (by rintro position rfl; cases wrong)
  have own : t ∈ Piece.tokens position cs (group cs) := by rw [own]; simp
  obtain ⟨p, among, kind, error⟩ := Piece.exists_of_mem_tokens own
  have spacing := group_spacing cs
  rw [error] at wrong
  generalize group cs = pieces at spacing own among
  cases spacing with
  | single plain =>
    have raw := plain.raw
    obtain rfl := List.mem_singleton.mp among
    simp [Piece.isRaw, wrong] at raw
  | several plain =>
    rw [(plain p among).2] at wrong
    cases wrong
  | blanks =>
    rw [List.mem_singleton.mp among] at wrong
    cases wrong
  | closed =>
    simp only [HereString.spaced, List.mem_cons, List.not_mem_nil, or_false] at among
    rcases among with rfl | rfl | rfl | rfl | rfl
    all_goals cases wrong
  | unclosed =>
    rw [List.mem_singleton.mp among] at wrong
    exact absurd (Option.some.inj wrong) (HereString.unclosed_cause_ne _ _)
  | assembly =>
    rcases List.mem_cons.mp own with rfl | behind
    · rw [← error] at wrong
      cases wrong
    · have sound := @Assembly.features_error _ 0 (cs.drop Directive.asm.spelling.length) t
        behind (by simp [error, wrong])
      exact sound.2

/-- Only a here-string without an end has a wrong closing name. -/
theorem exists_named {text : List Char} {p : Piece} (member : p ∈ group text)
    {expected found : String} (wrong : p.error = some (.mismatchedHereString expected found)) :
    ∃ gap delimiter body, HereString.Named text gap delimiter body
      ∧ findWord delimiter none body = none := by
  have spacing := group_spacing text
  generalize group text = pieces at spacing member
  cases spacing with
  | single plain =>
    rw [List.mem_singleton.mp member] at wrong
    exact absurd wrong (plain.error expected found)
  | several plain =>
    rw [(plain p member).2] at wrong
    cases wrong
  | blanks =>
    rw [List.mem_singleton.mp member] at wrong
    cases wrong
  | closed =>
    simp only [HereString.spaced, List.mem_cons, List.not_mem_nil, or_false] at member
    rcases member with rfl | rfl | rfl | rfl | rfl
    all_goals cases wrong
  | unclosed sets unfound => exact ⟨_, _, _, sets, unfound⟩
  | assembly =>
    rcases List.mem_cons.mp member with rfl | behind
    · cases wrong
    · obtain ⟨t, among, -, error⟩ := @Piece.exists_mem_tokens 0
        ((text.drop Directive.asm.spelling.length).drop 0) _ p behind
      have only := (Assembly.features_error among (by simp [error, wrong])).1
      rw [error, wrong] at only
      cases only

end Lexer

end JaiTree
