import JaiTree.Proofs.Grammar.Groups
import JaiTree.Proofs.Lexer.Trails
import JaiTree.Proofs.Token.Attach
import JaiTree.Proofs.Tree.Built

/-!
Places between the tokens that are cut off together: whatever is built or passed over from such a
place ends at another. Fresh places are some of them, from which on the tokens of a text are those
of the rest of it by itself. Main statements: `Strides.behind_region`, `Strides.behind_built`.
-/

namespace JaiTree

section Kinds

variable {kind : TokenKind} {more trail rest : List TokenKind}

/-- What stands only last is followed by nothing. -/
private theorem eq_nil_of_last {inner before : List TokenKind}
    (whole : inner ++ [kind] = before ++ rest) (member : kind ∈ before) (only : kind ∉ inner) :
    rest = [] := by
  rcases List.eq_nil_or_concat rest with rfl | ⟨init, last, rfl⟩
  · rfl
  · rw [List.concat_eq_append, ← List.append_assoc] at whole
    obtain ⟨rfl, -⟩ := List.append_inj' whole rfl
    exact absurd (List.mem_append_left init member) only

theorem Grouped.singles (h : Grouped (kind :: more)) (no_quote : kind ≠ .doubleQuote) :
    ∀ k ∈ more, k.beginsGroup = false := by
  cases h with
  | quotedString => exact absurd rfl no_quote
  | hereString held => rcases held with rfl | rfl <;> decide
  | @asmBlock features content sound held =>
    refine List.forall_mem_append.mpr ⟨fun k member => ?_, ?_⟩
    · rcases sound k member with rfl | rfl <;> rfl
    · rcases held with rfl | rfl <;> decide

/-- A trail goes no further than the group that is read from its first tokens. -/
theorem Grouped.trail_le (h : Grouped (kind :: more)) (trails : Trails kind (more ++ rest)) :
    rest = [] := by
  generalize whole : more ++ rest = trail at trails
  cases h with
  | @quotedString pieces sound =>
    cases trails with
    | nothing ne => exact absurd rfl ne
    | quotedString sound' =>
      exact eq_nil_of_last whole.symm (by simp) fun member => nomatch sound' _ member
  | @hereString content held =>
    cases trails with
    | nothing => cases whole
    | hereString held' =>
      refine eq_nil_of_last (List.cons_injective whole.symm) (by simp) fun member => ?_
      rcases held' with rfl | rfl
      all_goals simp at member
  | @asmBlock features content sound held =>
    have closed : .closeCurly ∈ trail := by simp [← whole]
    have no_feature {features : List TokenKind}
        (sound : ∀ kind ∈ features, kind = .identifier ∨ kind = .comma) :
        .closeCurly ∉ features := fun member => by
      rcases sound _ member with same | same <;> cases same
    cases trails with
    | nothing => cases closed
    | asm sound' => exact absurd closed (no_feature sound')
    | openAsm sound' =>
      rcases List.mem_append.mp closed with closed | closed
      · exact absurd closed (no_feature sound')
      · simp at closed
    | @asmBlock features' content' sound' held' =>
      have parts : (features' ++ .openCurly :: content') ++ [.closeCurly] = _ :=
        (List.append_assoc ..).trans whole.symm
      refine eq_nil_of_last parts (by simp) fun member => ?_
      rcases List.mem_append.mp member with member | member
      · exact no_feature sound' member
      · rcases held' with rfl | rfl
        all_goals simp at member

/-- Behind a trail that stops short of the group nothing more is cut off together. -/
theorem Grouped.singles_behind (h : Grouped (kind :: (trail ++ rest)))
    (trails : Trails kind trail) : ∀ k ∈ rest, k.beginsGroup = false := by
  by_cases quote : kind = .doubleQuote
  · subst quote
    generalize whole : trail ++ rest = more at h
    cases h with
    | quotedString sound =>
      cases trails with
      | nothing ne => exact absurd rfl ne
      | quotedString =>
        rw [eq_nil_of_last whole.symm (by simp) fun member => nomatch sound _ member]
        exact nofun
  · exact fun k member => h.singles quote k (List.mem_append_right trail member)

end Kinds

namespace Padded

theorem kindsOf_attach (leading tokens : List Token) :
    kindsOf (attach leading tokens) = seenOf (tokens.map fun t => t.kind) := by
  induction tokens generalizing leading with
  | nil => rfl
  | cons t ts ih =>
    rw [attach, List.map_cons, seenOf, List.filter_cons, Token.isTrivia]
    cases t.kind.isTrivia with
    | true => exact ih _
    | false => exact congrArg (t.kind :: ·) (ih _)

/-- No trivia is folded over a place behind other tokens. -/
theorem attach_behind {leading first : List Token} (ends : EndsSeen (first.map fun t => t.kind))
    (seen : leading = [] ∨ first ≠ []) (more : List Token) :
    attach leading (first ++ more) = attach leading first ++ attach [] more := by
  induction first generalizing leading with
  | nil => rw [seen.resolve_right fun ne => ne rfl, List.nil_append, attach, List.nil_append]
  | cons t ts ih =>
    rw [List.cons_append, attach, attach]
    split
    · next trivial =>
      have later : ts ≠ [] := by
        rintro rfl
        rw [Token.isTrivia, ends t.kind rfl] at trivial
        cases trivial
      exact ih ends.tail (.inr later)
    · rw [ih ends.tail (.inl rfl), List.cons_append]

end Padded

namespace Recovery

variable {depth : Nat} {isEmpty : Bool} {t : Padded} {trail after : List Padded}

/-- Whether a region goes on behind a token of the kind as it did before it. -/
def passes : TokenKind → Bool
  | .openCurly | .closeCurly | .semicolon => false
  | _ => true

theorem region_pass (pass : passes t.token.kind = true) (rest : List Padded) :
    (region depth isEmpty (t :: rest)).2 = (region depth false rest).2 := by
  rw [region]
  split
  iterate 3 next kind => rw [kind] at pass; cases pass
  rfl

theorem region_passes (pass : ∀ kind ∈ kindsOf trail, passes kind = true) (rest : List Padded) :
    (region depth false (trail ++ rest)).2 = (region depth false rest).2 := by
  induction trail with
  | nil => rfl
  | cons t ts ih =>
    rw [kindsOf_cons, List.forall_mem_cons] at pass
    rw [List.cons_append, region_pass pass.1, ih pass.2]

/-- A region ends behind the trail of a token or passes all of it. -/
theorem region_trail (trails : Trails t.token.kind (kindsOf trail)) (some_token : trail ≠ []) :
    (region depth isEmpty (t :: (trail ++ after))).2 = after
      ∨ (region depth isEmpty (t :: (trail ++ after))).2 = (region depth false after).2 := by
  have features {kinds : List TokenKind}
      (sound : ∀ kind ∈ kinds, kind = .identifier ∨ kind = .comma) :
      ∀ kind ∈ kinds, passes kind = true := fun kind member => by
    rcases sound kind member with rfl | rfl <;> rfl
  generalize first : t.token.kind = kind at trails
  generalize kinds : kindsOf trail = others at trails
  have past (pass : passes kind = true) (passAll : ∀ kind ∈ others, passes kind = true) :
      (region depth isEmpty (t :: (trail ++ after))).2 = (region depth false after).2 :=
    (region_pass (first ▸ pass) _).trans (region_passes (kinds ▸ passAll) after)
  cases trails with
  | nothing => exact absurd (List.map_eq_nil_iff.mp kinds) some_token
  | quotedString sound =>
    refine .inr (past rfl (List.forall_mem_append.mpr ⟨fun kind member => ?_, by decide⟩))
    have isPiece := sound kind member
    cases kind
    all_goals first | rfl | cases isPiece
  | hereString held => exact .inr (past rfl (by rcases held with rfl | rfl <;> decide))
  | asm sound => exact .inr (past rfl (features sound))
  | openAsm sound =>
    exact .inr (past rfl (List.forall_mem_append.mpr ⟨features sound, by decide⟩))
  | asmBlock sound held =>
    -- The braces around the raw text open and close one level.
    obtain ⟨asked, block, rfl, rfl, blockKinds⟩ := List.map_eq_append_iff.mp kinds
    obtain ⟨opening, inner, rfl, opened, innerKinds⟩ := List.map_eq_cons_iff.mp blockKinds
    obtain ⟨content, last, rfl, rfl, lastKinds⟩ := List.map_eq_append_iff.mp innerKinds
    obtain ⟨closing, none, rfl, closed, nothing⟩ := List.map_eq_cons_iff.mp lastKinds
    rw [List.map_eq_nil_iff.mp nothing, region_pass (by rw [first]; rfl), List.append_assoc,
      region_passes (features sound), List.cons_append, region, opened, List.append_assoc]
    dsimp only
    rw [region_passes (by rcases held with held | held <;> simp [kindsOf, held, passes]),
      List.cons_append, region, closed]
    dsimp only
    rw [if_neg (by simp)]
    split
    · exact .inl rfl
    · exact .inr rfl

end Recovery

/-- Behind the first token from such a place on, and its trail, is another such place. -/
def Strides (P : List Padded → Prop) : Prop :=
  ∀ t rest, P (t :: rest) → ∃ trail after, rest = trail ++ after
    ∧ Trails t.token.kind (kindsOf trail) ∧ P after

namespace Strides

variable {P : List Padded → Prop} (strides : Strides P) {eof t : Padded}
  {rest taken after : List Padded}
include strides

theorem behind_single (h : P (t :: after)) (single : t.token.kind.beginsGroup = false) :
    P after := by
  obtain ⟨trail, later, rfl, trails, place⟩ := strides _ _ h
  generalize t.token.kind = kind at trails single
  generalize kinds : kindsOf trail = trail' at trails
  cases trails with
  | nothing =>
    rw [List.map_eq_nil_iff.mp kinds]
    exact place
  | quotedString | hereString | asm | openAsm | asmBlock => cases single

theorem behind_singles (h : P (taken ++ after))
    (singles : ∀ kind ∈ kindsOf taken, kind.beginsGroup = false) : P after := by
  induction taken with
  | nil => exact h
  | cons t ts ih =>
    rw [kindsOf_cons, List.forall_mem_cons] at singles
    exact ih (strides.behind_single h singles.1) singles.2

/-- Tokens of kinds that are cut off together hold all of the trail behind the first of them. -/
theorem behind_group (h : P (taken ++ after)) (grouped : Grouped (kindsOf taken)) :
    P after := by
  cases taken with
  | nil => exact h
  | cons t more =>
    obtain ⟨trail, later, split, trails, place⟩ := strides _ _ h
    rw [kindsOf_cons] at grouped
    rcases List.append_eq_append_iff.mp split with ⟨m, rfl, rfl⟩ | ⟨m, rfl, rfl⟩
    · rw [kindsOf_append] at trails
      rwa [List.map_eq_nil_iff.mp (grouped.trail_le trails)]
    · rw [kindsOf_append] at grouped
      exact strides.behind_singles place (grouped.singles_behind trails)

theorem behind_region (h : P rest) (depth : Nat) (isEmpty : Bool) :
    P (Recovery.region depth isEmpty rest).2 := by
  induction length : rest.length using Nat.strongRecOn generalizing depth isEmpty rest with
  | _ n ih =>
    cases rest with
    | nil => exact h
    | cons t ts =>
      obtain ⟨trail, after, rfl, trails, place⟩ := strides _ _ h
      have shorter : after.length < n := by
        rw [List.length_cons, List.length_append] at length
        omega
      by_cases single : trail = []
      · subst single
        rw [List.nil_append, Recovery.region]
        split
        · exact ih _ shorter place _ _ rfl
        · split
          · exact h
          · split
            · exact place
            · exact ih _ shorter place _ _ rfl
        · split
          · exact place
          · exact ih _ shorter place _ _ rfl
        · exact ih _ shorter place _ _ rfl
      · rcases @Recovery.region_trail depth isEmpty t trail after trails single with left | left
        · rwa [left]
        · rw [left]
          exact ih _ shorter place _ _ rfl

/-- Behind what was built from such a place is another. -/
theorem behind_built {children : List Child} {a b : List Delimiter} {g : Bool}
    (built : Built eof taken after children a b g) (outside : g = false)
    (h : P (taken ++ after)) : P after := by
  induction built with
  | empty => exact h
  | append _ _ ih ih' =>
    rw [List.append_assoc] at h
    exact ih' outside (ih outside h)
  | token takes =>
    refine strides.behind_single h (Bool.eq_false_iff.mpr fun begins => ?_)
    rw [takes.whole begins] at outside
    cases outside
  | faulty error => exact strides.behind_single h (by rw [error]; rfl)
  | under _ _ _ ih | relabel _ ih | inside _ ih => exact ih outside h
  | anywhere _ ih => exact ih rfl h
  | region _ region _ =>
    have left := strides.behind_region h 0 true
    rwa [region] at left
  | group bundle _ _ => exact strides.behind_group h bundle.grouped

end Strides

/-- From here on the tokens and the end are those of the rest of the text by itself. -/
def Fresh (eof : Padded) (rest : List Padded) : Prop :=
  ∃ start text, Padded.attach [] (Lexer.scan 0 start text) = rest ++ [eof]

namespace Fresh

variable {eof t : Padded} {rest : List Padded}

/-- Behind a token and its trail, whatever trivia came before it. -/
theorem behind_trail {leading : List Token} {start : Nat} {text : List Char}
    (whole : Padded.attach leading (Lexer.scan 0 start text) = t :: (rest ++ [eof])) :
    ∃ trail after, rest = trail ++ after ∧ Trails t.token.kind (kindsOf trail)
      ∧ Fresh eof after := by
  induction length : text.length using Nat.strongRecOn generalizing leading start text with
  | _ n ih =>
    by_cases none : text = []
    · rw [none, Lexer.scan, Padded.attach_seen rfl, Padded.attach] at whole
      simp at whole
    obtain ⟨pieces, cuts, together, pos⟩ := Lexer.exists_cuts none
    have shorter : (text.drop (Lexer.Piece.total pieces)).length < n := by
      have some_char := List.length_pos_iff.mpr none
      rw [List.length_drop]
      omega
    rw [cuts start] at whole
    rw [← Lexer.Piece.map_kind_tokens start text] at together
    generalize Lexer.Piece.tokens start text pieces = tokens at whole together
    generalize start + _ = start at whole
    generalize text.drop _ = text at whole shorter
    cases tokens with
    | nil => cases together
    | cons u us =>
      rw [List.cons_append] at whole
      generalize kinds : us.map _ = trail at together
      rw [List.map_cons, kinds] at together
      cases together with
      | trivia trivial =>
        rw [Padded.attach_trivia trivial, List.map_eq_nil_iff.mp kinds] at whole
        exact ih _ shorter whole rfl
      | seen seen trails ends =>
        subst kinds
        rw [Padded.attach_seen seen, Padded.attach_behind ends (.inl rfl),
          List.cons.injEq] at whole
        obtain ⟨rfl, whole⟩ := whole
        obtain ⟨body, found, -⟩ := Lexer.scan_eq_append start text
        obtain ⟨after, trivia, attached, -⟩ :=
          Padded.attach_append [] body (.eofAt (start + Text.width text)) rfl
        rw [← found] at attached
        rw [attached, ← List.append_assoc] at whole
        obtain ⟨rfl, last⟩ := List.append_inj' whole rfl
        refine ⟨_, after, rfl, ?_, start, text, by rw [attached, last]⟩
        rwa [Padded.kindsOf_attach]

theorem strides : Strides (Fresh eof) := fun _ _ ⟨_, _, whole⟩ => behind_trail whole

/-- Only trivia comes with a token. -/
theorem leading (h : Fresh eof (t :: rest)) : ∀ u ∈ t.leading, u.isTrivia = true := by
  obtain ⟨start, text, whole⟩ := h
  have member : t ∈ Padded.attach [] (Lexer.scan 0 start text) := whole ▸ List.mem_cons_self
  exact Padded.isTrivia_of_mem_attach (by simp) member

end Fresh

end JaiTree
