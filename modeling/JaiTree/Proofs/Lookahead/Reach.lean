import JaiTree.Proofs.Lookahead.Run

/-!
Reach: how far a decision looks, and that nothing past its reach tells in the answer. Main
statement: `Glance.run_congr`.
-/

namespace JaiTree

section Names

variable {eof eof' : Padded} {rest rest' : List Padded}

/-- The names at the head of the tokens, read off what lies ahead: the end is no name. -/
theorem nameRun_eq (isEnd : eof.token.kind = .eof) (rest : List Padded) :
    nameRun rest =
      if (ahead eof rest 0).token.kind = .identifier then
        if (ahead eof rest 1).token.kind = .comma
            ∧ (ahead eof rest 2).token.kind = .identifier then
          2 + nameRun (rest.drop 2)
        else 1
      else 0 := by
  have none : eof.token.kind ≠ .identifier := by simp [isEnd]
  match rest with
  | [] => simp [nameRun, ahead, none]
  | [first] => simp [nameRun, ahead, isEnd]
  | [first, comma] => simp [nameRun, ahead, none]
  | first :: comma :: second :: more => simp [nameRun, ahead]

private theorem kind_of_sight {a b : Padded} (same : a.sight = b.sight) :
    a.token.kind = b.token.kind := by
  have kinds := congrArg (fun s : Sight => s.kind) same
  simpa using kinds

theorem nameReach_eq (eof : Padded) (rest : List Padded) (offset : Nat) :
    Glance.nameReach eof rest offset = offset + Glance.nameReach eof (rest.drop offset) 0 := by
  simp only [Glance.nameReach, List.drop_zero, ahead_drop, Nat.zero_add]
  split
  all_goals omega

theorem nameRun_le_nameReach (eof : Padded) (rest : List Padded) :
    nameRun rest ≤ Glance.nameReach eof rest 0 := by
  simp only [Glance.nameReach, List.drop_zero]
  split
  all_goals omega

theorem nameReach_le (eof : Padded) (rest : List Padded) (offset : Nat) :
    Glance.nameReach eof rest offset ≤ offset + nameRun (rest.drop offset) + 1 := by
  rw [Glance.nameReach]
  split
  all_goals omega

/-- Past a name and a comma the look over the names goes on from the next name. -/
theorem nameReach_drop (eof : Padded) (run : nameRun rest = 2 + nameRun (rest.drop 2)) :
    2 + Glance.nameReach eof (rest.drop 2) 0 ≤ Glance.nameReach eof rest 0 := by
  rw [← nameReach_eq]
  simp only [Glance.nameReach, List.drop_zero, Nat.zero_add, run]
  split
  · next both =>
    have named : 2 + nameRun (rest.drop 2) ≠ 0 := by omega
    apply Nat.le_of_eq
    rw [if_pos ⟨named, both.2⟩]
  · split
    all_goals omega

/-- Where a run of names ends is told by the tokens up to its reach. -/
theorem nameRun_congr (isEnd : eof.token.kind = .eof) (isEnd' : eof'.token.kind = .eof)
    (agree : ∀ i ≤ Glance.nameReach eof rest 0,
      (ahead eof rest i).sight = (ahead eof' rest' i).sight) :
    nameRun rest = nameRun rest' := by
  -- Only one of the two lists is known to get shorter: the names of the other are told by its.
  induction length : rest.length using Nat.strongRecOn generalizing rest rest' with
  | _ n ih =>
    have kinds : ∀ i ≤ Glance.nameReach eof rest 0,
        (ahead eof rest i).token.kind = (ahead eof' rest' i).token.kind :=
      fun i near => kind_of_sight (agree i near)
    have run := nameRun_eq isEnd rest
    have run' := nameRun_eq isEnd' rest'
    rw [← kinds 0 (Nat.zero_le _)] at run'
    by_cases named : (ahead eof rest 0).token.kind = .identifier
    · have below := nameRun_le_nameReach eof rest
      rw [if_pos named] at run run'
      by_cases more : (ahead eof rest 1).token.kind = .comma
          ∧ (ahead eof rest 2).token.kind = .identifier
      · rw [if_pos more] at run
        rw [← kinds 1 (by omega), ← kinds 2 (by omega), if_pos more] at run'
        have shorter : (rest.drop 2).length < n := by
          have some_token : 0 < rest.length := by
            apply List.length_pos_iff.mpr
            intro empty
            simp [empty, ahead, isEnd] at named
          rw [List.length_drop]
          omega
        have reach := nameReach_drop eof run
        have later : nameRun (rest.drop 2) = nameRun (rest'.drop 2) := by
          apply ih _ shorter _ rfl
          intro i near
          rw [ahead_drop, ahead_drop]
          exact agree (2 + i) (by omega)
        rw [run, run', later]
      · rw [if_neg more] at run
        rw [run, run', ← kinds 1 (by omega)]
        by_cases comma : (ahead eof rest 1).token.kind = .comma
        · have past : Glance.nameReach eof rest 0 = 2 := by
            simp [Glance.nameReach, run, comma]
          rw [← kinds 2 (by omega), if_neg more]
        · simp [comma]
    · rw [run, run', if_neg named, if_neg named]

end Names

namespace Glance

variable {α β : Type} {eof eof' : Padded} {rest rest' : List Padded}

@[simp] theorem reach_bind (g : Glance α) (f : α → Glance β) :
    (g >>= f).reach eof rest
      = max (g.reach eof rest) ((f (g.run eof rest)).reach eof rest) := by
  change (g.bind f).reach eof rest = _
  induction g with
  | settle answer => simp [bind, reach, run]
  | sight offset next ih => simp only [bind, reach, run, ih, Nat.max_assoc]
  | names offset next ih => simp only [bind, reach, run, ih, Nat.max_assoc]

/-- A decision answers alike where the tokens up to its reach are alike. -/
theorem run_congr (isEnd : eof.token.kind = .eof) (isEnd' : eof'.token.kind = .eof)
    (g : Glance α)
    (agree : ∀ i ≤ g.reach eof rest, (ahead eof rest i).sight = (ahead eof' rest' i).sight) :
    g.run eof rest = g.run eof' rest' := by
  induction g with
  | settle answer => rfl
  | sight offset next ih =>
    rw [reach] at agree
    have same := agree offset (Nat.le_max_left _ _)
    have later := ih _ fun i near => agree i (Nat.le_trans near (Nat.le_max_right _ _))
    rw [run, run, later, same]
  | names offset next ih =>
    rw [reach] at agree
    have same : nameRun (rest.drop offset) = nameRun (rest'.drop offset) := by
      apply nameRun_congr isEnd isEnd'
      intro i near
      rw [ahead_drop, ahead_drop]
      have reach := nameReach_eq eof rest offset
      have within := Nat.le_max_left (nameReach eof rest offset)
        ((next (nameRun (rest.drop offset))).reach eof rest)
      exact agree (offset + i) (by omega)
    have later := ih _ fun i near => agree i (Nat.le_trans near (Nat.le_max_right _ _))
    rw [run, run, later, same]

end Glance

end JaiTree
