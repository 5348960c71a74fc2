import JaiTree.Proofs.Lexer.Ahead
import JaiTree.Proofs.Lexer.Seen

/-!
Places that take blanks and no comment: there a comment changes what the grammar sees. Main
statements: `Lexer.seen_gap`, `Lexer.seen_asked`, `Lexer.seen_wrongName`.
-/

namespace JaiTree

open Text

namespace Lexer

/-- What is seen behind names, commas, blanks and braces is no raw text. -/
theorem seen_features {text : List Char} {first later : List Lexeme} {l : Lexeme}
    (h : seen text = first ++ l :: later) (features : ∀ k ∈ first, k.kind.isFeature = true) :
    l.kind ≠ .hereStringContent
      ∧ ¬(l.kind = .asmContent ∨ l.kind = .error ∧ l.text.toList.head? = some '\x7b') := by
  obtain ⟨before, t, after, split, same, rfl⟩ := exists_of_significant h
  have other (d : Directive) : ∀ t ∈ before, t.kind ≠ .directive d := by
    intro t member directive
    have among := mem_significant member (by rw [Token.isTrivia, directive]; rfl)
    have feature := features t.toLexeme (same ▸ among)
    rw [directive] at feature
    cases feature
  constructor
  · intro content
    obtain ⟨d, member, directive⟩ := directive_before split content
    exact other .string d member directive
  · intro raw
    obtain ⟨d, member, directive⟩ := asm_before split raw
    exact other .asm d member directive

end Lexer

/-- Places that take blanks and no comment: before the name of a here-string, among the features of
an assembly block with raw text, and at the end of a text, on the line of what is taken for a wrong
closing name of a here-string. -/
inductive OnlyBlanks (w : Token) : List Token → List Token → Prop
  | hereString {before after : List Token} {name content : Token} :
      name.kind = .identifier → content.kind = .hereStringContent →
      OnlyBlanks w before (name :: content :: after)
  | assembly {before features after : List Token} {raw : Token} :
      (∀ t ∈ features, t.kind.isFeature = true) →
      (raw.kind = .asmContent ∨ raw.error = some .unterminatedAsm) →
      OnlyBlanks w before (features ++ raw :: after)
  | wrongName {before : List Token} {bad : Token} {expected found : String} {position : Nat} :
      bad.error = some (.mismatchedHereString expected found) → '\n' ∉ w.text.toList →
      OnlyBlanks w (before ++ [bad]) [.eofAt position]

namespace OnlyBlanks

variable {w : Token}

theorem append {before after : List Token} (h : OnlyBlanks w before after)
    (first : List Token) : OnlyBlanks w (first ++ before) after := by
  cases h with
  | hereString identifier held => exact .hereString identifier held
  | assembly features held => exact .assembly features held
  | wrongName wrong unbroken =>
    rw [← List.append_assoc]
    exact .wrongName wrong unbroken

theorem of_append {first before after : List Token}
    (h : OnlyBlanks w (first ++ before) after) :
    OnlyBlanks w before after ∨ before = [] ∧ Lexer.charsOf after = [] ∧ '\n' ∉ w.text.toList
      ∧ ∃ bad ∈ first, ∃ expected found,
        bad.error = some (.mismatchedHereString expected found) := by
  generalize whole : first ++ before = tokens at h
  cases h with
  | hereString identifier held => exact .inl (.hereString identifier held)
  | assembly features held => exact .inl (.assembly features held)
  | @wrongName _ bad _ _ _ wrong unbroken =>
    rcases List.eq_nil_or_concat before with rfl | ⟨later, last, rfl⟩
    · refine .inr ⟨rfl, rfl, unbroken, bad, ?_, _, _, wrong⟩
      rw [List.append_nil] at whole
      simp [whole]
    · rw [List.concat_eq_append, ← List.append_assoc] at whole
      obtain ⟨-, same⟩ := List.append_inj' whole rfl
      obtain rfl := (List.cons.inj same).1
      rw [List.concat_eq_append]
      exact .inl (.wrongName wrong unbroken)

end OnlyBlanks

namespace Lexer

variable {w : Token} {before after : List Token}

/-- What follows by itself does so at no place that takes blanks only, but for a wrong name. -/
theorem wrongName_of_scan {start : Nat} {text : List Char}
    (h : OnlyBlanks w before (scan 0 start text)) :
    ∃ earlier bad expected found, before = earlier ++ [bad]
      ∧ bad.error = some (.mismatchedHereString expected found) := by
  generalize behind : scan 0 start text = after at h
  cases h with
  | @hereString _ rest name content identifier held =>
    obtain ⟨d, member, directive⟩ := directive_before
      (show scan 0 start text = [name] ++ content :: rest from behind) held
    rw [List.mem_singleton.mp member, identifier] at directive
    cases directive
  | @assembly _ features rest raw among held =>
    have brace : raw.kind = .asmContent
        ∨ raw.kind = .error ∧ raw.text.toList.head? = some '\x7b' :=
      held.imp_right (brace_of_error (by rw [behind]; simp))
    obtain ⟨d, member, directive⟩ := asm_before behind brace
    have feature := among d member
    rw [directive] at feature
    cases feature
  | wrongName wrong _ => exact ⟨_, _, _, _, rfl, wrong⟩

section

variable {text gap delimiter content rest : List Char}

/-- A comment before the name of a here-string is seen. -/
theorem seen_gap (sets : HereString.Named text gap delimiter (content ++ (delimiter ++ rest)))
    (some_gap : gap ≠ [])
    (pieces : group text = HereString.spaced gap delimiter content) :
    seen (Directive.string.spelling.toList ++ (gap ++ (Comment.empty ++ (gap
      ++ (delimiter ++ (content ++ (delimiter ++ rest))))))) ≠ seen text := by
  obtain ⟨begins, rfl, indents, some_name, named⟩ := sets
  generalize behind : delimiter ++ (content ++ (delimiter ++ rest)) = post at *
  have blank : ∀ c ∈ gap, isBlank c = true := fun c member => isBlank_of_isIndent (indents c member)
  have begins' : beginsWith .string (Directive.string.spelling.toList
      ++ (gap ++ (Comment.empty ++ (gap ++ post)))) = true := by
    obtain ⟨c, cs, rfl⟩ := List.exists_cons_of_ne_nil some_gap
    rw [List.cons_append, beginsWith_ahead (blank c List.mem_cons_self) .string _ (cs ++ post)]
    exact begins
  have alone : group (Directive.string.spelling.toList
      ++ (gap ++ (Comment.empty ++ (gap ++ post))))
        = [{ kind := .directive .string, size := Directive.string.spelling.length }] := by
    have bare : name ((gap ++ (Comment.empty ++ (gap ++ post))).dropWhile isIndent) = [] := by
      rw [List.dropWhile_append_of_pos indents]
      rfl
    refine group_of_recognise ?_
    rw [recognise_string begins', ← String.length_toList, HereString.pieces_bare bare]
  have cuts : Cuts _ (group (Directive.string.spelling.toList
      ++ (gap ++ (Comment.empty ++ (gap ++ post))))) := .group (List.cons_ne_nil _ _)
  have whole : Cuts _ (group (Directive.string.spelling.toList ++ (gap ++ post))) :=
    .group (List.cons_ne_nil _ _)
  rw [alone] at cuts
  rw [pieces, HereString.spaced] at whole
  have stop : ∀ c ∈ post.head?, isBlank c = false :=
    not_isBlank_of_name (by rw [named]; exact some_name)
  have plain : seen (gap ++ (Comment.empty ++ (gap ++ post))) = seen post := by
    rw [seen_blanks some_gap blank (Comment.not_isBlank_of_head _), seen_comment,
      seen_blanks some_gap blank stop]
  rw [cuts.seen, whole.seen]
  simp only [← String.length_toList]
  rw [Piece.tokens_cons, Piece.tokens_cons, Piece.total_cons, Piece.total_nil, Nat.add_zero,
    List.drop_left, plain, ← behind, Piece.tokens_cons, Piece.tokens_cons, Piece.tokens_cons,
    Piece.tokens_cons, behind]
  rw [significant_cons _ rfl, significant_cons _ rfl, significant_trivia _ rfl,
    significant_cons _ rfl, significant_cons _ rfl]
  intro same
  have shown : seen post = [_] ++ _ :: _ := (List.cons.inj same).2
  exact (seen_features shown (List.forall_mem_singleton.mpr rfl)).1 rfl

end

/-- Features that are cut together with what comes before them are seen as they are by themselves,
unless raw text follows them. -/
theorem seen_behind {head post other : List Char} {pieces : List Piece}
    (total : Piece.total pieces = head.length)
    (whole : Cuts (head ++ post) (pieces ++ Assembly.features 0 post))
    (first : Cuts (head ++ other) pieces) (same : seen other = seen post) :
    seen (head ++ other) = seen (head ++ post)
      ↔ (Assembly.features 0 post).any Piece.isRaw = false := by
  have within := Nat.le_of_eq total
  have behind (x : List Char) : (head ++ x).drop (Piece.total pieces) = x := by
    rw [total, List.drop_left]
  by_cases plain : (Assembly.features 0 post).any Piece.isRaw = false
  · have alone : Cuts ((head ++ post).drop (Piece.total pieces)) (Assembly.features 0 post) := by
      rw [behind]
      exact Assembly.features_alone plain
    have cuts := (Cuts.iff_left alone).mp whole
    rw [seen_iff cuts first within, total, List.drop_length]
    exact iff_of_true same plain
  · rw [Bool.not_eq_false] at plain
    obtain ⟨asked, raw, closing, parts, features, held⟩ := Assembly.features_raw plain
    refine iff_of_false (fun shown => ?_) (by simp [plain])
    have tokens := @Piece.tokens_append 0 (head ++ post) pieces (Assembly.features 0 post)
    rw [first.seen, whole.seen, tokens, significant_append, Piece.tokens_ahead within post,
      List.append_assoc, List.append_cancel_left_eq, behind, behind, same] at shown
    generalize 0 + width ((head ++ post).take (Piece.total pieces)) = start at shown
    have among : ∀ t ∈ Piece.tokens start (post.drop 0) (Assembly.features 0 post), t.error ≠ none →
        t.error = some .unterminatedAsm ∧ t.kind = .error
          ∧ t.text.toList.head? = some '{' := fun t => Assembly.features_error
    rw [List.drop_zero, parts, Piece.tokens_append, Piece.tokens] at among
    rw [parts, Piece.tokens_append, Piece.tokens] at shown
    generalize token : ({ kind := raw.kind, text := _, start := _, error := raw.error } : Token) = t
      at shown among
    have brace : t.kind = .asmContent ∨ t.kind = .error ∧ t.text.toList.head? = some '{' := by
      simp only [Piece.isRaw, Bool.or_eq_true, decide_eq_true_eq] at held
      subst token
      refine held.imp_right fun wrong => ?_
      exact (among _ (by simp) (by simp [wrong])).2
    have seen : t.isTrivia = false := by
      rcases brace with kind | ⟨kind, -⟩
      all_goals
        rw [Token.isTrivia, kind]
        rfl
    rw [significant_append, significant_cons _ seen, List.append_assoc] at shown
    refine (seen_features shown fun k member => ?_).2 brace
    obtain ⟨u, within, rfl⟩ := List.mem_map.mp member
    obtain ⟨q, asked, kind, -⟩ := Piece.exists_of_mem_tokens (List.mem_of_mem_filter within)
    exact kind ▸ features q asked

theorem Assembly.total_asked {a : List Char} {asked : List Piece} (blanks : List Char)
    (size : Piece.total asked = a.length) :
    Piece.total ({ kind := .directive .asm, size := Directive.asm.spelling.length }
        :: (asked ++ [{ kind := .whitespace, size := blanks.length }]))
      = (Directive.asm.spelling.toList ++ (a ++ blanks)).length := by
  simp only [Piece.total_cons, Piece.total_append, Piece.total_nil, List.length_append,
    String.length_toList]
  omega

section

variable {a blanks post : List Char} {asked later : List Piece} {p : Piece}
  (some_blank : blanks ≠ []) (blank : ∀ c ∈ blanks, isBlank c = true)
  (stop : ∀ c ∈ post.head?, isBlank c = false)
include some_blank blank stop

/-- A comment among the features of an assembly block is not seen when no raw text follows them. -/
theorem seen_asked
    (begins : beginsWith .asm (Directive.asm.spelling.toList ++ (a ++ (blanks ++ post))) = true)
    (parts : Assembly.features 0 (a ++ (blanks ++ post)) = asked ++ p :: later)
    (kind : p.kind = .whitespace) (size : Piece.total asked = a.length) :
    seen (Directive.asm.spelling.toList ++ (a ++ (blanks ++ (Comment.empty ++ (blanks ++ post)))))
        = seen (Directive.asm.spelling.toList ++ (a ++ (blanks ++ post)))
      ↔ (Assembly.features 0 post).any Piece.isRaw = false := by
  have begins' : beginsWith .asm (Directive.asm.spelling.toList
      ++ (a ++ (blanks ++ (Comment.empty ++ (blanks ++ post))))) = true := by
    obtain ⟨c, cs, rfl⟩ := List.exists_cons_of_ne_nil some_blank
    rw [← begins, List.cons_append, ← List.append_assoc, ← List.append_assoc]
    exact beginsWith_ahead (blank c List.mem_cons_self) .asm _ (cs ++ post) _
  have slash := Comment.not_isBlank_of_head (blanks ++ post)
  have asks := Assembly.features_blanks some_blank blank parts kind (by omega) stop
  have asks' := Assembly.features_blanks some_blank blank parts kind (by omega) slash
  have last : Assembly.features 0 (Comment.empty ++ (blanks ++ post)) = [] := rfl
  generalize ws : ({ kind := .whitespace, size := blanks.length } : Piece) = space at asks asks'
  have group_old : group (Directive.asm.spelling.toList ++ (a ++ (blanks ++ post)))
      = { kind := .directive .asm, size := Directive.asm.spelling.length } :: (asked ++ [space])
        ++ Assembly.features 0 post := by
    rw [group_asm begins, asks]
    simp
  have group_new : group (Directive.asm.spelling.toList
      ++ (a ++ (blanks ++ (Comment.empty ++ (blanks ++ post)))))
      = { kind := .directive .asm, size := Directive.asm.spelling.length }
        :: (asked ++ [space]) := by
    rw [group_asm begins', asks', last]
  have cuts_old : Cuts _ (group (Directive.asm.spelling.toList ++ (a ++ (blanks ++ post)))) :=
    .group (List.cons_ne_nil _ _)
  have cuts_new : Cuts _ (group (Directive.asm.spelling.toList
      ++ (a ++ (blanks ++ (Comment.empty ++ (blanks ++ post)))))) := .group (List.cons_ne_nil _ _)
  rw [group_old] at cuts_old
  rw [group_new] at cuts_new
  have total := Assembly.total_asked blanks size
  rw [ws] at total
  have same : seen (Comment.empty ++ (blanks ++ post)) = seen post := by
    rw [seen_comment, seen_blanks some_blank blank stop]
  simp only [← List.append_assoc _ blanks] at cuts_old cuts_new ⊢
  simp only [← List.append_assoc Directive.asm.spelling.toList] at cuts_old cuts_new ⊢
  exact seen_behind total cuts_old cuts_new same

end

/-- Texts that begin with a mistake are seen alike only when the mistakes are the same. -/
theorem take_of_seen {text text' : List Char} {cause cause' : Cause} {n n' : Nat}
    (first : group text = [.faulty cause n]) (second : group text' = [.faulty cause' n'])
    (some_char : text ≠ []) (some_char' : text' ≠ []) (same : seen text = seen text') :
    text.take n = text'.take n' := by
  have cuts : Cuts text (group text) := .group some_char
  have cuts' : Cuts text' (group text') := .group some_char'
  rw [first] at cuts
  rw [second] at cuts'
  rw [cuts.seen, cuts'.seen, Piece.tokens, Piece.tokens, Piece.tokens, Piece.tokens,
    significant_cons _ rfl, significant_cons _ rfl] at same
  have lexemes := congrArg Lexeme.text (List.cons.inj same).1
  exact String.ofList_injective lexemes

/-- A comment at the end of a text, on the line of a name taken for a wrong closer, is seen. -/
theorem seen_wrongName {text gap delimiter body a blanks : List Char}
    (sets : HereString.Named text gap delimiter body)
    (unfound : findWord delimiter none body = none)
    (whole : text = a ++ blanks) (size : Piece.total (group text) = a.length)
    (some_blank : blanks ≠ []) (blank : ∀ c ∈ blanks, isBlank c = true) (unbroken : '\n' ∉ blanks) :
    seen (a ++ (blanks ++ (Comment.empty ++ blanks))) ≠ seen text := by
  have pieces := sets.group_unclosed unfound
  have some_char := sets.ne_nil
  obtain ⟨begins, parts, indents, some_name, named⟩ := sets
  rw [pieces, Piece.faulty, Piece.total_cons, Piece.total_nil, Nat.add_zero] at size
  dsimp only at size
  obtain ⟨e, rfl, rfl⟩ : ∃ e, a = Directive.string.spelling.toList ++ (gap ++ (delimiter ++ e))
      ∧ body = e ++ blanks := by
    have same : a ++ blanks = Directive.string.spelling.toList ++ (gap ++ delimiter) ++ body := by
      rw [← whole, parts]
      simp only [List.append_assoc]
    obtain ⟨e, rfl, rfl⟩ := HereString.exists_behind same (by
      simp only [List.length_append, String.length_toList]
      omega)
    exact ⟨e, by simp only [List.append_assoc], rfl⟩
  have comment := HereString.unclosed_size_ne some_blank unbroken delimiter e
  have unfound' := @HereString.findWord_comment blanks [] some_blank blank delimiter e none
    some_name (fun d member => isNameChar_of_mem_name (named ▸ member)) (by rwa [List.append_nil])
  rw [List.append_nil] at unfound'
  obtain ⟨c, cs, rfl⟩ := List.exists_cons_of_ne_nil some_blank
  have space := blank c List.mem_cons_self
  generalize Comment.empty ++ c :: cs = rest at unfound' comment ⊢
  have sets' : HereString.Named
      (Directive.string.spelling.toList ++ (gap ++ (delimiter ++ (e ++ (c :: cs ++ rest))))) gap
      delimiter (e ++ (c :: cs ++ rest)) := by
    refine ⟨?_, rfl, indents, some_name, ?_⟩
    · have same := beginsWith_ahead space .string
        (Directive.string.spelling.toList ++ (gap ++ (delimiter ++ e))) cs (cs ++ rest)
      simp only [List.append_assoc] at same
      rw [List.cons_append, same, ← parts]
      exact begins
    · have same := name_ahead (not_isNameChar_of_isBlank space) (delimiter ++ e) cs (cs ++ rest)
      simp only [List.append_assoc] at same
      rw [List.cons_append, same]
      exact named
  have pieces' := sets'.group_unclosed unfound'
  have fit := (group_fit sets'.ne_nil).1.total_le
  rw [pieces'] at fit
  simp only [List.append_assoc]
  intro same
  have taken := congrArg List.length (take_of_seen pieces' pieces sets'.ne_nil some_char same)
  have long := congrArg List.length parts
  simp only [Piece.faulty, Piece.total_cons, Piece.total_nil, List.length_take, List.length_append,
    String.length_toList] at size fit taken long
  omega

end Lexer

end JaiTree
