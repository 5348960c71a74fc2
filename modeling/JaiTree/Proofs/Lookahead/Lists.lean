import JaiTree.Cursor
import JaiTree.Proofs.Lookahead.Names
import JaiTree.Proofs.Lookahead.Reach

/-!
Name lists: names between commas with a colon behind them are found where they stand and nowhere
else, and the scan over the names ends whatever tokens there are. Main statement:
`Cursor.nameList_eq_some_iff`.
-/

namespace JaiTree

section

variable {eof : Padded} {rest : List Padded} {n : Nat}

/-- What may stand at an offset among names with commas between them. -/
def nameOrComma (offset : Nat) : TokenKind := if offset % 2 = 0 then .identifier else .comma

/-- A name and a comma further on, names and commas alternate as before. -/
theorem nameOrComma_add_two (offset : Nat) : nameOrComma (offset + 2) = nameOrComma offset := by
  rw [nameOrComma, nameOrComma, Nat.add_mod_right]

theorem Names.alternate {names : List Padded} (h : Names n names) (after : List Padded) {i : Nat}
    (inside : i < names.length) : (ahead eof (names ++ after) i).token.kind = nameOrComma i := by
  induction h generalizing i with
  | one named =>
    have first : i = 0 := Nat.lt_one_iff.mp inside
    subst first
    exact named
  | @more n t comma names named between _ ih =>
    match i with
    | 0 => exact named
    | 1 => exact between
    | i + 2 =>
      rw [nameOrComma_add_two]
      apply ih
      rw [List.length_cons, List.length_cons] at inside
      omega

/-- A run of names takes an odd number of tokens, none of them the end, and they alternate. -/
theorem nameRun_alternates (some_names : nameRun rest ≠ 0) :
    ∃ n, nameRun rest + 1 = 2 * n ∧ nameRun rest ≤ rest.length
      ∧ ∀ i < nameRun rest, (ahead eof rest i).token.kind = nameOrComma i := by
  obtain ⟨n, names, after, rfl, holds, length⟩ := Names.of_nameRun some_names
  rw [length]
  refine ⟨n, holds.length, ?_, fun i inside => holds.alternate after inside⟩
  rw [List.length_append]
  exact Nat.le_add_right _ _

/-- Where names and commas alternate up to a name that no comma and name follow, they are the run
of names there. -/
theorem nameRun_of_alternates (isEnd : eof.token.kind = .eof)
    (alternate : ∀ i ≤ 2 * n, (ahead eof rest i).token.kind = nameOrComma i)
    (stops : (ahead eof rest (2 * n + 1)).token.kind ≠ .comma) : nameRun rest = 2 * n + 1 := by
  induction n generalizing rest with
  | zero =>
    have named : (ahead eof rest 0).token.kind = .identifier := alternate 0 (Nat.le_refl 0)
    rw [nameRun_eq isEnd, if_pos named, if_neg fun both => stops both.1]
  | succ n ih =>
    have named : (ahead eof rest 0).token.kind = .identifier := alternate 0 (by omega)
    have comma : (ahead eof rest 1).token.kind = .comma := alternate 1 (by omega)
    have second : (ahead eof rest 2).token.kind = .identifier := alternate 2 (by omega)
    have later : nameRun (rest.drop 2) = 2 * n + 1 := by
      apply ih
      · intro i near
        rw [ahead_drop, Nat.add_comm, alternate (i + 2) (by omega), nameOrComma_add_two]
      · rw [ahead_drop, Nat.add_comm]
        exact stops
    rw [nameRun_eq isEnd, if_pos named, if_pos ⟨comma, second⟩, later]
    omega

end

namespace Cursor

variable {cursor : Cursor} {stop last other offset : Nat}

/-- The scan over names where `stop` tokens are behind it: while a comma and a name come it goes on
past them, and otherwise it ends there. -/
inductive Scans (cursor : Cursor) : (stop last : Nat) → Prop where
  | ends {stop : Nat} : ¬((cursor.peek stop).token.kind = .comma
      ∧ (cursor.peek (stop + 1)).token.kind = .identifier) → Scans cursor stop stop
  | further {stop last : Nat} : (cursor.peek stop).token.kind = .comma →
      (cursor.peek (stop + 1)).token.kind = .identifier → Scans cursor (stop + 2) last →
      Scans cursor stop last

theorem Scans.unique (h : cursor.Scans stop last) (h' : cursor.Scans stop other) :
    other = last := by
  induction h with
  | ends none =>
    cases h' with
    | ends _ => rfl
    | further comma named _ => exact absurd ⟨comma, named⟩ none
  | further comma named _ ih =>
    cases h' with
    | ends none => exact absurd ⟨comma, named⟩ none
    | further _ _ later => exact ih later

theorem peek_behind (behind : cursor.rest.length ≤ offset) : cursor.peek offset = cursor.eof := by
  rw [peek, ahead, List.getElem?_eq_none behind, Option.getD_none]

/-- A token of a kind that is not the end's stands before the end. -/
theorem lt_of_peek (isEnd : cursor.eof.token.kind = .eof) {kind : TokenKind}
    (found : (cursor.peek offset).token.kind = kind) (other : kind ≠ .eof) :
    offset < cursor.rest.length := by
  apply Nat.lt_of_not_le
  intro behind
  rw [peek_behind behind, isEnd] at found
  exact other found.symm

/-- The scan ends: past the last token the end comes again and again, and that is no comma. -/
theorem exists_scans (isEnd : cursor.eof.token.kind = .eof) (stop : Nat) :
    ∃ last ≤ max stop cursor.rest.length, cursor.Scans stop last := by
  induction left : cursor.rest.length - stop using Nat.strongRecOn generalizing stop with
  | _ n ih =>
    by_cases both : (cursor.peek stop).token.kind = .comma
        ∧ (cursor.peek (stop + 1)).token.kind = .identifier
    · have inside : stop + 1 < cursor.rest.length := lt_of_peek isEnd both.2 (by decide)
      obtain ⟨last, within, later⟩ := ih _ (by omega) (stop + 2) rfl
      exact ⟨last, by omega, .further both.1 both.2 later⟩
    · exact ⟨stop, Nat.le_max_left _ _, .ends both⟩

/-- The run of names at an offset, by the tokens there and behind. -/
theorem nameRun_peek (isEnd : cursor.eof.token.kind = .eof) (offset : Nat) :
    nameRun (cursor.rest.drop offset) =
      if (cursor.peek offset).token.kind = .identifier then
        if (cursor.peek (offset + 1)).token.kind = .comma
            ∧ (cursor.peek (offset + 2)).token.kind = .identifier then
          2 + nameRun (cursor.rest.drop (offset + 2))
        else 1
      else 0 := by
  have run := nameRun_eq isEnd (cursor.rest.drop offset)
  rwa [ahead_drop, ahead_drop, ahead_drop, List.drop_drop] at run

/-- Behind a first name the scan ends where the run of names does. -/
theorem scans_nameRun (isEnd : cursor.eof.token.kind = .eof)
    (named : (cursor.peek offset).token.kind = .identifier) :
    cursor.Scans (offset + 1) (offset + nameRun (cursor.rest.drop offset)) := by
  induction left : cursor.rest.length - offset using Nat.strongRecOn generalizing offset with
  | _ n ih =>
    have run := nameRun_peek isEnd offset
    rw [if_pos named] at run
    by_cases both : (cursor.peek (offset + 1)).token.kind = .comma
        ∧ (cursor.peek (offset + 2)).token.kind = .identifier
    · have inside : offset < cursor.rest.length := lt_of_peek isEnd named (by decide)
      have later := ih _ (by omega) both.2 rfl
      rw [if_pos both] at run
      rw [run, ← Nat.add_assoc]
      exact .further both.1 both.2 later
    · rw [if_neg both] at run
      rw [run]
      exact .ends both

/-- A look for a name list finds the run of names when a colon or a double colon is behind it. -/
theorem glance_nameList (cursor : Cursor) (offset : Nat) :
    cursor.glance (Glance.nameList offset)
      = if nameRun (cursor.rest.drop offset) ≠ 0
          ∧ ((cursor.peek (offset + nameRun (cursor.rest.drop offset))).token.kind = .colon
            ∨ (cursor.peek (offset + nameRun (cursor.rest.drop offset))).token.kind = .colonColon)
        then some ⟨(nameRun (cursor.rest.drop offset) + 1) / 2,
          offset + nameRun (cursor.rest.drop offset),
          (cursor.peek (offset + nameRun (cursor.rest.drop offset))).token.kind⟩
        else none := by
  rw [glance, Glance.nameList, Glance.run]
  by_cases none : nameRun (cursor.rest.drop offset) = 0
  · simp [none]
  · simp [none, peek]

/-- The names of a run are counted: there is a comma between any two. -/
theorem glance_nameList_eq_some (cursor : Cursor) (offset : Nat) (list : NameList) :
    cursor.glance (Glance.nameList offset) = some list ↔
      1 ≤ list.names ∧ nameRun (cursor.rest.drop offset) = 2 * list.names - 1
      ∧ (cursor.peek (offset + 2 * list.names - 1)).token.kind = list.colon
      ∧ (list.colon = .colon ∨ list.colon = .colonColon)
      ∧ list.colonOffset = offset + 2 * list.names - 1 := by
  rw [glance_nameList]
  constructor
  · intro found
    split at found
    · next sign =>
      obtain ⟨n, double, -, -⟩ := @nameRun_alternates cursor.eof _ sign.1
      have count : (nameRun (cursor.rest.drop offset) + 1) / 2 = n := by omega
      have behind : offset + nameRun (cursor.rest.drop offset) = offset + 2 * n - 1 := by omega
      rw [count, behind] at found
      rw [behind] at sign
      obtain rfl := Option.some.inj found
      dsimp only
      refine ⟨?_, ?_, rfl, sign.2, rfl⟩
      all_goals omega
    · cases found
  · intro ⟨some_name, run, kind, sign, place⟩
    have behind : offset + (2 * list.names - 1) = offset + 2 * list.names - 1 := by omega
    have count : (2 * list.names - 1 + 1) / 2 = list.names := by omega
    have some_names : 2 * list.names - 1 ≠ 0 := by omega
    rw [run, behind, kind, count, if_pos ⟨some_names, sign⟩, ← place]

/-- A look for a name list goes no farther than the end, unless it begins there. -/
theorem reach_nameList (isEnd : cursor.eof.token.kind = .eof) (offset : Nat) :
    (Glance.nameList offset).reach cursor.eof cursor.rest ≤ max offset cursor.rest.length := by
  have near : offset + nameRun (cursor.rest.drop offset) ≤ max offset cursor.rest.length := by
    by_cases none : nameRun (cursor.rest.drop offset) = 0
    · rw [none]
      exact Nat.le_max_left _ _
    · obtain ⟨-, -, within, -⟩ := @nameRun_alternates cursor.eof _ none
      rw [List.length_drop] at within
      omega
  have names : Glance.nameReach cursor.eof cursor.rest offset ≤ max offset cursor.rest.length := by
    rw [Glance.nameReach]
    split
    · next comma =>
      have inside : offset + nameRun (cursor.rest.drop offset) < cursor.rest.length :=
        lt_of_peek isEnd comma.2 (by decide)
      omega
    · exact near
  rw [Glance.nameList, Glance.reach]
  apply Nat.max_le.mpr
  constructor
  · exact names
  split
  · exact Nat.zero_le _
  · rw [Glance.reach_bind, Glance.kindAt, Glance.reach, Glance.reach, Nat.max_zero]
    apply Nat.max_le.mpr
    constructor
    · exact near
    split
    all_goals exact Nat.zero_le _

/-- The kinds that names with commas between them, and what is behind them, have from an offset
on are told by the run of names there. -/
theorem nameRun_iff (isEnd : cursor.eof.token.kind = .eof) {n : Nat} (some_name : 1 ≤ n)
    (stops : (cursor.peek (offset + 2 * n - 1)).token.kind ≠ .comma) :
    nameRun (cursor.rest.drop offset) = 2 * n - 1
      ↔ ∀ i ≤ 2 * n - 2, (cursor.peek (offset + i)).token.kind = nameOrComma i := by
  constructor
  · intro run i near
    have some_names : nameRun (cursor.rest.drop offset) ≠ 0 := by omega
    obtain ⟨-, -, -, alternate⟩ := @nameRun_alternates cursor.eof _ some_names
    rw [peek, ← ahead_drop]
    exact alternate i (by omega)
  · intro alternate
    have run : nameRun (cursor.rest.drop offset) = 2 * (n - 1) + 1 := by
      apply nameRun_of_alternates isEnd
      · intro i near
        rw [ahead_drop]
        exact alternate i (by omega)
      · have same : offset + (2 * (n - 1) + 1) = offset + 2 * n - 1 := by omega
        rw [ahead_drop, same]
        exact stops
    omega

/-- A look for a name list at an offset finds one just where names stand from there on, at least
one and with commas between them, and behind the last of them a colon or a double colon: it tells
how many names there are, which of the two is behind them, and at what offset. The scan that counts
them ends from wherever it begins, at one place that is not past the end, and behind a first name
it ends behind the run of names. No token past the end is looked at, unless the offset is. -/
theorem nameList_eq_some_iff (cursor : Cursor) (isEnd : cursor.eof.token.kind = .eof)
    (offset : Nat) :
    (∀ list : NameList, cursor.glance (Glance.nameList offset) = some list ↔
      1 ≤ list.names
      ∧ (∀ i ≤ 2 * list.names - 2, (cursor.peek (offset + i)).token.kind
        = if i % 2 = 0 then .identifier else .comma)
      ∧ (cursor.peek (offset + 2 * list.names - 1)).token.kind = list.colon
      ∧ (list.colon = .colon ∨ list.colon = .colonColon)
      ∧ list.colonOffset = offset + 2 * list.names - 1)
    ∧ (∀ stop, ∃ last ≤ max stop cursor.rest.length,
      ∀ other, cursor.Scans stop other ↔ other = last)
    ∧ ((cursor.peek offset).token.kind = .identifier →
      cursor.Scans (offset + 1) (offset + nameRun (cursor.rest.drop offset)))
    ∧ (Glance.nameList offset).reach cursor.eof cursor.rest ≤ max offset cursor.rest.length := by
  refine ⟨?_, ?_, scans_nameRun isEnd, reach_nameList isEnd offset⟩
  · intro list
    rw [glance_nameList_eq_some]
    apply and_congr_right
    intro some_name
    apply and_congr_left
    intro ⟨kind, sign, _⟩
    apply nameRun_iff isEnd some_name
    intro comma
    rw [← kind, comma] at sign
    rcases sign with sign | sign
    all_goals cases sign
  · intro stop
    obtain ⟨last, within, scans⟩ := exists_scans isEnd stop
    refine ⟨last, within, fun other => ?_⟩
    constructor
    · exact scans.unique
    · rintro rfl
      exact scans

/-- Two names, a comma between them and a colon behind them. -/
theorem nameList_eq_some_two :
    (Cursor.ofText "a, b : int").eof.token.kind = .eof
      ∧ (Cursor.ofText "a, b : int").glance (Glance.nameList 0) = some ⟨2, 3, .colon⟩ := by
  have isEnd : (Cursor.ofText "a, b : int").eof.token.kind = .eof := by decide +kernel
  refine ⟨isEnd, ((nameList_eq_some_iff _ isEnd 0).1 ⟨2, 3, .colon⟩).mpr ?_⟩
  decide +kernel

end Cursor

end JaiTree
