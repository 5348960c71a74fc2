import JaiTree.Proofs.Grammar.Guarded

/-!
The rules that others are put together from are guarded: names, strings, arguments, the elements of
literals, notes, ranges and what an operand grows by.
-/

namespace JaiTree

theorem Lexeme.kind_of_keyword? {lexeme : Lexeme} {keyword : Keyword}
    (h : lexeme.keyword? = some keyword) : lexeme.kind = .identifier := by
  rw [Lexeme.keyword?] at h
  split at h
  · assumption
  · cases h

theorem Lexeme.kind_of_directive? {lexeme : Lexeme} {d : Directive}
    (h : lexeme.directive? = some d) : lexeme.kind = .directive d := by
  unfold directive? TokenKind.directive? at h
  split at h
  · next kind => rw [kind, Option.some.inj h]
  · cases h

namespace Sight

variable {s : Sight}

theorem kind_of_isWord {keyword : Keyword} (h : s.isWord keyword = true) : s.kind = .identifier :=
  Lexeme.kind_of_keyword? (of_decide_eq_true h)

theorem kind_of_isInlining (h : s.isInlining = true) : s.kind = .identifier := by
  rw [isInlining, Option.any_eq_true] at h
  obtain ⟨keyword, found, -⟩ := h
  exact Lexeme.kind_of_keyword? found

end Sight

namespace Grammar

open Form

variable {eof : Padded} {moved m : Bool} {known left : Known} {spot : Spot} {g : Bool}

/-- A name takes one token, and what is known of those after it stays known. -/
theorem identifier_guarded : Guarded eof moved known identifier true known.past [] [] spot g :=
  .node rfl (.expect rfl)

theorem identifier_safe : Safe eof true identifier spot g := identifier_guarded.forget

theorem level_safe (floor : Power) : Safe eof true (.enter (.expression floor)) spot :=
  .enter _ nofun

theorem expression_safe : Safe eof true expression spot := level_safe _

theorem unary_safe : Safe eof true unary spot := level_safe _

theorem type_safe : Safe eof true type spot := .enter _ nofun

theorem statement_safe : Safe eof true statement .plain := .enter _ id

theorem missing_safe {cause : String → Cause}
    (syntactic : ∀ found, (cause found).isSyntactic = true) :
    Safe eof true (missing cause) spot :=
  .refuse fun s => syntactic s.described

theorem expressionOnLine_safe : Safe eof false expressionOnLine spot :=
  .opt expression_safe.guarded

/-- Braces around statements set the statements free of what is around the braces. -/
theorem block_safe : Safe eof true block spot :=
  Guarded.framed .block (Safe.enclosed .curly (.enter _ nofun))

theorem blockOr_safe {other : Form} (h : Safe eof m other spot) :
    Safe eof m (blockOr other) spot := by
  refine .onSight fun s => ?_
  split
  · exact block_safe.guarded.weak
  · exact h.guarded

theorem assignsAt_run {rest : List Padded} {offset : Nat}
    (h : (assignsAt offset).run eof rest = true) :
    (ahead eof rest offset).token.kind = .identifier
      ∧ (ahead eof rest (offset + 1)).token.kind = .assignment := by
  simpa [assignsAt] using h

theorem assignsMember_run {rest : List Padded} (h : assignsMember.run eof rest = true) :
    (ahead eof rest 0).token.kind = .dot ∧ (ahead eof rest 2).token.kind = .assignment := by
  simp only [assignsMember, Glance.run_bind, Glance.run_kindAt, Glance.run_ite] at h
  split at h
  · next point => exact ⟨point, (assignsAt_run h).2⟩
  · cases h

theorem memberBody_safe : Safe eof true memberBody spot :=
  (Safe.expect rfl).seq identifier_safe.label

section

variable (isEnd : eof.token.kind = .eof)
include isEnd

theorem stringPiece_guarded :
    Guarded eof false (fun rest => atStringPiece.run eof rest = true) stringPiece true
      (fun _ => True) [] [] spot g := by
  refine .choose fun s => ?_
  have ready : Known.Ready fun rest => atStringPiece.run eof rest = true
      ∧ ∃ setting : Setting, (Glance.tokenAt 0).run eof rest = s := by
    refine ready_of_kind isEnd fun rest ⟨piece, _⟩ => ?_
    apply TokenKind.isProper_of_ne
    all_goals
      intro kind
      simp [atStringPiece, kind] at piece
  split
  · exact .node rfl (.forget (.take ready))
  · exact .node rfl (.forget (.take ready))
  · exact .forget (.take ready)

/-- The quotes and what is between them are cut off together. -/
theorem quotedString_safe : Safe eof true quotedString spot := by
  have quote : Safe eof true (token .doubleQuote) spot true :=
    Guarded.forget (.expects (.begins rfl))
  exact .group .quotedString
    (.framed .quotedString ((quote.seq (.many (stringPiece_guarded isEnd))).seq quote))

/-- The word, the name and what is between its two occurrences are cut off together. -/
theorem hereString_safe : Safe eof true hereString spot := by
  have word : Safe eof true (token (.directive .string)) spot true :=
    Guarded.forget (.expects (.begins rfl))
  have content : Safe eof false
      (opt (fun s => s.kind = .hereStringContent) (.take (some .content))) spot true :=
    .opt (take_of_kind isEnd .hereStringContent rfl fun _ seen => of_decide_eq_true seen).forget
  exact .group .hereString (.framed .hereString
    (((word.seq identifier_safe.label).seq content).seq identifier_safe.label))

theorem faulty_guarded (h : ∀ rest, known rest → (ahead eof rest 0).token.kind = .error) :
    Guarded eof moved known .faulty true (fun _ => True) [] [] spot := by
  refine .faulty fun rest holds => ?_
  cases rest with
  | nil =>
    have none : eof.token.kind = .error := h [] holds
    rw [isEnd] at none
    cases none
  | cons t ts => exact ⟨t, ts, rfl, h _ holds⟩

theorem faulty_of_seen {s : Sight} (h : s.kind = .error) :
    Guarded eof moved (.seen eof s) .faulty true (fun _ => True) [] [] spot := by
  refine faulty_guarded isEnd fun rest seen => ?_
  rw [← Padded.sight_kind, seen, h]

theorem string_safe : Safe eof true string spot := by
  refine .onSight fun s => ?_
  split
  · exact (quotedString_safe isEnd).guarded
  · exact (hereString_safe isEnd).guarded
  · next kind => exact faulty_of_seen isEnd kind
  · exact (missing_safe fun _ => rfl).guarded

theorem stringOnLine_safe : Safe eof false stringOnLine spot := .opt (string_safe isEnd).guarded

/-- A name that an equals sign follows, the sign, and a value. -/
theorem assigned_guarded (known : Known)
    (h : ∀ rest, known rest → (ahead eof rest 1).token.kind = .assignment) :
    Guarded eof moved known (.label .name identifier ++ any ++ .label .value expression) true
      (fun _ => True) [] [] spot := by
  have sign : Guarded eof true known.past any true known.past.past [] [] spot :=
    take_of_kind isEnd .assignment rfl fun rest ⟨t, seen⟩ => h (t :: rest) seen
  exact ((Guarded.label identifier_guarded).andThen sign).andThen expression_safe.label.guarded

theorem argument_safe : Safe eof true argument spot := by
  refine .node rfl (.ifelse ?_ expression_safe.guarded)
  exact assigned_guarded isEnd _ fun rest seen => (assignsAt_run seen).2

theorem argumentList_safe : Safe eof true argumentList spot :=
  .node rfl (.enclosed .paren (.within (items_safe isEnd (argument_safe isEnd)) rfl))

theorem compositeElement_safe : Safe eof true compositeElement spot := by
  refine .node rfl (.ifelse ?_ (Safe.ifelse ?_ expression_safe.guarded).guarded)
  · exact assigned_guarded isEnd _ fun rest seen => (assignsAt_run seen).2
  · have point :
        Guarded eof false (fun rest => assignsMember.run eof rest = true) any true _ [] [] spot :=
      take_of_kind isEnd .dot rfl fun rest seen => (assignsMember_run seen).1
    have sign : Guarded eof true
        (Known.past (Known.past fun rest => assignsMember.run eof rest = true))
        any true _ [] [] spot :=
      take_of_kind isEnd .assignment rfl fun rest ⟨t, u, seen⟩ => (assignsMember_run seen).2
    exact ((point.andThen (.label identifier_guarded)).andThen sign).andThen
      expression_safe.label.guarded

theorem compositeBody_safe : Safe eof true compositeBody spot :=
  Guarded.enclosed .curly (Guarded.expect rfl)
    (Safe.within (items_safe isEnd (compositeElement_safe isEnd)) rfl).guarded

theorem arrayBody_safe : Safe eof true arrayBody spot :=
  Guarded.enclosed .bracket (Guarded.expect rfl)
    (Safe.within (items_safe isEnd expression_safe) rfl).guarded

theorem note_safe : Safe eof true note spot := by
  refine .node rfl (((Safe.expect rfl).seq identifier_safe.label).seq
    (Safe.onSight (m := false) fun s => ?_))
  split
  · exact Safe.empty.guarded
  split
  · exact (string_safe isEnd).guarded.weak
  split
  · next kind =>
    have opened : Guarded eof false (.seen eof s) any true _ [] [.paren] spot :=
      open_of_seen isEnd .paren kind
    exact ((opened.andThen (.inside (items_safe isEnd expression_safe.label).guarded)).andThen
      (.closes .paren)).weak.forget
  · exact Safe.empty.guarded

theorem range_safe : Safe eof true range spot := by
  refine .growing expression_safe (.grow fun _ => rfl) fun _ => Guarded.weak ?_
  refine Guarded.andThen (take_of_kind isEnd .dotDot rfl ?_) expression_safe.label.guarded
  rintro rest ⟨_, seen⟩
  simpa using seen

theorem growthBody_guarded {growth : Growth}
    (ready : ∀ power, growth = .binary power → known.Ready) :
    Guarded eof moved known (growthBody growth) true (fun _ => True) [] [] spot := by
  cases growth with
  | binary power => exact (Guarded.take (ready power rfl)).andThen (level_safe _).label.guarded
  | member => exact memberBody_safe.guarded
  | composite => exact (compositeBody_safe isEnd).guarded
  | array => exact (arrayBody_safe isEnd).guarded
  | index =>
    exact (Safe.enclosed .bracket (.within (range_safe isEnd).label rfl)).guarded
  | call => exact (argumentList_safe isEnd).label.guarded

theorem growing_safe {again : Bool} {first : Form} {look : Setting → Glance (Option Growth)}
    (h : Safe eof true first spot) (fits : Fits eof (fun _ => True) (growing again first look))
    (binary : ∀ setting rest power, (look setting).run eof rest = some (.binary power) →
      (ahead eof rest 0).token.kind.isProper = true) :
    Safe eof true (growing again first look) spot := by
  refine .growing h fits fun growth => ?_
  refine (growthBody_guarded isEnd fun power which => ready_of_kind isEnd ?_).weak
  rintro rest ⟨setting, seen⟩
  rw [which] at seen
  exact binary setting rest power seen

end

end Grammar

end JaiTree
