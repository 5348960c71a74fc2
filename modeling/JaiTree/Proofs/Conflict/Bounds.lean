import JaiTree.Cursor
import JaiTree.Proofs.Lookahead.Reach

/-!
Bounds: no decision looks past the bound of its conflict, and each names one of the alternatives,
whatever lies ahead. So the table settles every conflict, by the tokens within the bound alone.
-/

namespace JaiTree

namespace Glance

variable {α β : Type} {eof : Padded} {rest : List Padded} {bound offset : Nat}

/-- The decision looks no farther than a bound, and its answer is one of some. -/
structure Within (eof : Padded) (rest : List Padded) (bound : Nat) (answers : α → Prop)
    (g : Glance α) : Prop where
  reach_le : g.reach eof rest ≤ bound
  answer : answers (g.run eof rest)

namespace Within

variable {answers : α → Prop} {last : β → Prop} {g : Glance α} {f : α → Glance β}

theorem pure {answer : α} (h : answers answer) :
    Within eof rest bound answers (Pure.pure answer) := ⟨Nat.zero_le _, h⟩

theorem bind (h : Within eof rest bound answers g)
    (h' : ∀ answer, answers answer → Within eof rest bound last (f answer)) :
    Within eof rest bound last (g >>= f) := by
  have next := h' _ h.answer
  constructor
  · rw [reach_bind]
    exact Nat.max_le.mpr ⟨h.reach_le, next.reach_le⟩
  · rw [run_bind]
    exact next.answer

theorem map {p : α → β} (h : Within eof rest bound answers g)
    (h' : ∀ answer, answers answer → last (p answer)) : Within eof rest bound last (p <$> g) :=
  h.bind fun answer holds => .pure (h' answer holds)

theorem tokenAt (near : offset ≤ bound) :
    Within eof rest bound (fun _ => True) (Glance.tokenAt offset) :=
  ⟨by simpa [Glance.tokenAt, reach] using near, trivial⟩

theorem kindAt (near : offset ≤ bound) :
    Within eof rest bound (fun _ => True) (Glance.kindAt offset) :=
  ⟨by simpa [Glance.kindAt, reach] using near, trivial⟩

theorem keywordAt (near : offset ≤ bound) :
    Within eof rest bound (fun _ => True) (Glance.keywordAt offset) :=
  ⟨by simpa [Glance.keywordAt, reach] using near, trivial⟩

/-- The names at the head are followed by at most one comma that is looked at. -/
theorem nameList (near : nameRun rest + 1 ≤ bound) :
    Within eof rest bound (fun _ => True) (Glance.nameList 0) := by
  have names := nameReach_le eof rest 0
  rw [List.drop_zero] at names
  refine ⟨?_, trivial⟩
  rw [Glance.nameList, reach, List.drop_zero]
  apply Nat.max_le.mpr
  constructor
  · omega
  split
  · exact Nat.zero_le _
  · have after : Within eof rest bound (fun _ => True) (Glance.kindAt (0 + nameRun rest)) :=
      kindAt (by omega)
    refine (@bind _ _ eof rest bound _ (fun _ => True) _ _ after fun kind _ => ?_).reach_le
    split
    all_goals exact .pure trivial

theorem procedure (near : offset + 3 ≤ bound) :
    Within eof rest bound (fun _ => True) (Glance.procedure offset) := by
  have named : Within eof rest bound (fun _ => True) (Glance.procedure.named offset) := by
    refine (kindAt (by omega)).bind fun second _ => ?_
    split
    · exact .pure trivial
    · exact .pure trivial
    · refine (kindAt near).bind fun third _ => ?_
      split
      all_goals exact .pure trivial
    · exact .pure trivial
  refine (kindAt (by omega)).bind fun opening _ => ?_
  split
  · exact .pure trivial
  · refine (tokenAt (by omega)).bind fun first _ => ?_
    split
    · exact .pure trivial
    · exact .pure trivial
    · split
      · refine (kindAt (by omega)).bind fun second _ => ?_
        split
        · exact .pure trivial
        · exact .pure trivial
        · exact named
      · exact named
    · exact .pure trivial

theorem signature (near : offset + 4 ≤ bound) :
    Within eof rest bound (fun _ => True) (Glance.signature offset) := by
  refine (tokenAt (by omega)).bind fun first _ => ?_
  split
  · exact procedure (by omega)
  · exact procedure (by omega)

end Within

end Glance

open Glance (Within)

namespace Winner

variable {winners : List Winner} {yes no : Winner}

theorem either_mem (left : yes ∈ winners) (right : no ∈ winners) (condition : Bool) :
    either yes no condition ∈ winners := by
  rw [either]
  split
  · exact left
  · exact right

/-- One look settles between two alternatives. -/
theorem either_within {α : Type} {eof : Padded} {rest : List Padded} {bound : Nat}
    {answers : α → Prop} {g : Glance α} {condition : α → Bool}
    (h : Within eof rest bound answers g) (left : yes ∈ winners) (right : no ∈ winners) :
    Within eof rest bound (· ∈ winners)
      (g >>= fun answer => pure (either yes no (condition answer))) :=
  h.bind fun _ _ => .pure (either_mem left right _)

theorem onKind_within {eof : Padded} {rest : List Padded} {bound : Nat} {kind : TokenKind}
    (left : yes ∈ winners) (right : no ∈ winners) :
    Within eof rest bound (· ∈ winners) (onKind kind yes no) :=
  (Within.kindAt (Nat.zero_le _)).map fun _ _ => either_mem left right _

end Winner

namespace Conflict

open Winner (either_mem either_within onKind_within)

variable (eof : Padded) (rest : List Padded)

/-- Every decision keeps to the bound of its conflict and names one of its alternatives. -/
theorem decide_within (conflict : Conflict) (inside : Bool) :
    Within eof rest (conflict.bound.offset rest) (· ∈ conflict.winners)
      (conflict.decide inside) := by
  have near {offset : Nat} : 0 ≤ offset := Nat.zero_le _
  cases conflict with
  | structEnum =>
    refine (Within.keywordAt near).bind fun word _ => ?_
    split
    all_goals exact .pure (by decide)
  | callMember =>
    exact either_within (Within.tokenAt near) (by decide) (by decide)
  | declarationAssignment =>
    exact either_within (Within.nameList (Nat.le_refl _)) (by decide) (by decide)
  | declarationExpression =>
    exact either_within (Within.nameList (Nat.le_refl _)) (by decide) (by decide)
  | typeIdentifier =>
    refine (Within.tokenAt near).bind fun s _ => ?_
    split
    iterate 4 exact .pure (by decide)
    exact .pure (either_mem (by decide) (by decide) _)
  | expressionCompositeLiteral =>
    refine (Within.kindAt (Nat.le_refl 1)).bind fun kind _ => ?_
    split
    all_goals exact .pure (by decide)
  | parameterDeclaration =>
    refine (Within.keywordAt near).bind fun word _ => ?_
    split
    · refine (Within.kindAt (Nat.le_refl 1)).bind fun kind _ => ?_
      split
      all_goals exact .pure (by decide)
    · exact .pure (by decide)
  | directiveType | directiveProcedureType | procedureType | directiveFunctionDeclaration =>
    exact either_within (Within.tokenAt near) (by decide) (by decide)
  | typeExpression =>
    refine (Within.kindAt near).bind fun kind _ => ?_
    split
    · exact .pure (by decide)
    · exact .pure (by decide)
    · exact either_within (Within.procedure (Nat.le_refl 3)) (by decide) (by decide)
    · exact .pure (by decide)
  | functionDeclarationExpression =>
    exact either_within (Within.procedure (Nat.le_refl 3)) (by decide) (by decide)
  | directiveStatementExpression | directiveRange | parameterExpression | castRange | pointerType
  | statementIf | statementWhile | statementFor | statementDefer | forArrayAccessUnary | forBinary
  | functionDeclaration | procedureTypeFunctionDeclaration =>
    exact onKind_within (by decide) (by decide)
  | forMemberAccessUnary =>
    refine (Within.kindAt near).bind fun first _ => ?_
    split
    · exact .pure (by decide)
    · refine (Within.kindAt (by decide : 1 ≤ 3)).bind fun second _ => ?_
      split
      · exact .pure (by decide)
      · refine (Within.kindAt (by decide : 2 ≤ 3)).bind fun third _ => ?_
        split
        · exact either_within (Within.kindAt (Nat.le_refl 3)) (by decide) (by decide)
        · exact .pure (by decide)
      · exact .pure (by decide)
  | typeParameterExpression =>
    refine (Within.tokenAt near).bind fun s _ => ?_
    split
    · exact .pure (by decide)
    · split
      · exact .pure (by decide)
      · refine (Within.kindAt (Nat.le_refl 1)).bind fun kind _ => ?_
        split
        all_goals exact .pure (by decide)
    · exact .pure (by decide)
  | typeFunctionDeclaration =>
    exact either_within (Within.signature (Nat.le_refl 5)) (by decide) (by decide)
  | typeStructDeclaration | typeEnumDeclaration =>
    refine (Within.kindAt (Nat.le_refl 1)).bind fun kind _ => ?_
    split
    all_goals exact .pure (by decide)
  | directiveProcedureTypeFunctionDeclaration =>
    exact either_within (Within.procedure (Nat.le_refl 4)) (by decide) (by decide)
  | typeReturnType =>
    refine (Within.kindAt near).bind fun kind _ => ?_
    split
    · exact either_within (Within.kindAt (Nat.le_refl 1)) (by decide) (by decide)
    · exact .pure (by decide)
  | returnTypeList => exact .pure (either_mem (by decide) (by decide) inside)

/-- The table settles a conflict as its decision does. -/
theorem resolve_eq (conflict : Conflict) (inside : Bool) :
    (Entry.ofConflict conflict).resolve inside eof rest
      = .ok ((conflict.decide inside).run eof rest) := by
  have within := conflict.decide_within eof rest inside
  have listed : conflict.winners.contains ((conflict.decide inside).run eof rest) = true :=
    List.contains_iff_mem.mpr within.answer
  have kept : ((conflict.decide inside).reach eof rest ≤ conflict.bound.offset rest
      && conflict.winners.contains ((conflict.decide inside).run eof rest)) = true := by
    simpa only [listed, Bool.and_true, decide_eq_true_eq] using within.reach_le
  exact if_pos kept

/-- The table has one line for each conflict, and finds it. -/
theorem find_table (conflict : Conflict) :
    Entry.table.find? (fun entry => entry.conflict = conflict) = some (.ofConflict conflict) := by
  cases conflict <;> rfl

end Conflict

namespace Cursor

variable {cursor other : Cursor} {conflict : Conflict} {offset : Nat}

theorem resolve_ofConflict (cursor : Cursor) (conflict : Conflict) (offset : Nat) :
    cursor.resolve (.ofConflict conflict) offset
      = .ok ((conflict.decide cursor.setting.inParameters).run cursor.eof
        (cursor.rest.drop offset)) :=
  conflict.resolve_eq cursor.eof (cursor.rest.drop offset) cursor.setting.inParameters

theorem inParameters_congr
    (same : cursor.parameterDepth = 0 ↔ other.parameterDepth = 0) :
    cursor.setting.inParameters = other.setting.inParameters := by
  rw [setting, setting, Bool.eq_iff_iff, bne_iff_ne, bne_iff_ne]
  exact not_congr same

end Cursor

/-- Two places settle a conflict alike when the tokens from an offset up to its bound are alike
there, and when parameters are being declared at both or at neither: what comes before the offset
or after the bound has no say. -/
theorem resolve_congr (conflict : Conflict) (offset : Nat) (cursor other : Cursor)
    (isEnd : cursor.eof.token.kind = .eof) (isEnd' : other.eof.token.kind = .eof)
    (same : cursor.parameterDepth = 0 ↔ other.parameterDepth = 0)
    (agree : ∀ i ≤ conflict.bound.offset (cursor.rest.drop offset),
      (cursor.peek (offset + i)).sight = (other.peek (offset + i)).sight) :
    ∃ winner, cursor.resolve (.ofConflict conflict) offset = .ok winner
      ∧ other.resolve (.ofConflict conflict) offset = .ok winner := by
  have within := conflict.decide_within cursor.eof (cursor.rest.drop offset)
    cursor.setting.inParameters
  have answer : (conflict.decide cursor.setting.inParameters).run cursor.eof
      (cursor.rest.drop offset)
      = (conflict.decide cursor.setting.inParameters).run other.eof
        (other.rest.drop offset) := by
    apply Glance.run_congr isEnd isEnd'
    intro i near
    rw [ahead_drop, ahead_drop]
    exact agree i (Nat.le_trans near within.reach_le)
  refine ⟨_, cursor.resolve_ofConflict conflict offset, ?_⟩
  rw [other.resolve_ofConflict, answer, Cursor.inParameters_congr same]

/-- The names that a declaration begins with are read alike after a name and after a parenthesis,
before a semicolon and before a value. -/
theorem resolve_congr_declaration :
    ∃ winner,
      (Cursor.ofText "x a, b: int;").resolve (.ofConflict .declarationAssignment) 1 = .ok winner
      ∧ (Cursor.ofText "(a, b: int = 3").resolve (.ofConflict .declarationAssignment) 1
        = .ok winner :=
  resolve_congr .declarationAssignment 1 (.ofText "x a, b: int;") (.ofText "(a, b: int = 3")
    (by decide +kernel) (by decide +kernel) (by decide +kernel) (by decide +kernel)

end JaiTree
