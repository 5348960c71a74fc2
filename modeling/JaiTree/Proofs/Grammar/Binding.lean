import JaiTree.Proofs.Grammar.Expressions

/-!
Binding: which operand the next token goes with. What goes on with an operand under one floor does
under another, as long as it binds tighter than that.
-/

namespace JaiTree

/-- Whether nothing ahead goes on with an operand that was read up to the floor. -/
def Closed (eof : Padded) (floor : Power) (setting : Setting) (rest : List Padded) : Prop :=
  (Growth.next floor setting).run eof rest = none

/-- All kinds but a point and what opens brackets or parentheses bind less tightly than an operator
before its operand. -/
theorem TokenKind.rank_lt_unary {kind : TokenKind} {power : Power}
    (binds : kind.power? = some power) (ne_dot : kind ≠ .dot) (ne_bracket : kind ≠ .openBracket)
    (ne_paren : kind ≠ .openParen) : power.rank < Power.unary.rank := by
  unfold power? at binds
  split at binds
  all_goals cases binds
  all_goals first
    | decide
    | contradiction

namespace Growth

variable {eof : Padded} {floor lower power : Power} {setting : Setting} {rest : List Padded}
  {growth : Growth}

/-- Where an operand goes on, it is with an operator between operands exactly if what goes on binds
less tightly than an operator before one. -/
theorem power_of_next (found : (next floor setting).run eof rest = some growth) :
    ∃ power, (ahead eof rest 0).token.kind.power? = some power ∧ floor.rank < power.rank
      ∧ ((growth = .binary power ∧ power.rank < Power.unary.rank)
        ∨ ((∀ p, growth ≠ .binary p) ∧ Power.unary.rank < power.rank)) := by
  rw [next, Glance.run_bind, Glance.run_kindAt] at found
  generalize (ahead eof rest 0).token.kind = kind at found ⊢
  cases binds : kind.power? with
  | none =>
    rw [binds] at found
    cases found
  | some power =>
    rw [binds] at found
    dsimp only at found
    split at found
    · cases found
    next tighter =>
    refine ⟨power, rfl, Nat.lt_of_not_le tighter, ?_⟩
    split at found
    · rw [Glance.run_map, Option.some.injEq] at found
      cases binds
      refine .inr ⟨fun p binary => ?_, by decide⟩
      rw [binary] at found
      exact Grammar.ofPoint_ne_binary found
    iterate 2
      · cases found
        cases binds
        exact .inr ⟨fun _ => Growth.noConfusion, by decide⟩
    · cases binds
      simp only [Glance.run_ite, Glance.run_bind, Glance.run_pure] at found
      split at found
      · split at found
        · cases found
        · cases found
          exact .inl ⟨rfl, by decide⟩
      · cases found
        exact .inl ⟨rfl, by decide⟩
    · next ne_dot ne_bracket ne_paren _ =>
      cases found
      exact .inl ⟨rfl, TokenKind.rank_lt_unary binds ne_dot ne_bracket ne_paren⟩

/-- What goes on with an operand goes on with it under any floor that it binds tighter than. -/
theorem next_of_lt (found : (next floor setting).run eof rest = some growth)
    (binds : (ahead eof rest 0).token.kind.power? = some power)
    (tighter : lower.rank < power.rank) : (next lower setting).run eof rest = some growth := by
  rw [next, Glance.run_bind, Glance.run_kindAt, binds] at found ⊢
  dsimp only at found ⊢
  rw [if_neg (Nat.not_le_of_gt tighter)]
  split at found
  · cases found
  · exact found

end Growth

/-- Where nothing goes on with an operand under one floor, what does under another binds no tighter
than the first. -/
theorem Closed.rank_le {eof : Padded} {floor lower power : Power} {setting : Setting}
    {rest : List Padded} {growth : Growth} (closed : Closed eof lower setting rest)
    (found : (Growth.next floor setting).run eof rest = some growth)
    (binds : (ahead eof rest 0).token.kind.power? = some power) : power.rank ≤ lower.rank := by
  refine Nat.le_of_not_lt fun tighter => ?_
  have goes_on := Growth.next_of_lt found binds tighter
  rw [Closed, goes_on] at closed
  cases closed

end JaiTree
