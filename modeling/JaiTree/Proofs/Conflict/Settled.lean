import JaiTree.Proofs.Conflict.Bounds
import JaiTree.Proofs.Tree.Errors

/-!
Settled conflicts: the table names an alternative for every conflict, at every place, so no tree
holds a choice that could not be made. Main statement: `conflicts_settled`.
-/

namespace JaiTree

namespace Cursor

/-- A rule goes on with the alternative that the table names. -/
theorem read_settled (cursor : Cursor) (conflict : Conflict) (next : Winner → Form) :
    ∃ winner ∈ conflict.winners, cursor.resolve (.ofConflict conflict) 0 = .ok winner
      ∧ cursor.read (Form.settled conflict next) = cursor.read (next winner) := by
  have within := conflict.decide_within cursor.eof cursor.rest cursor.setting.inParameters
  refine ⟨_, within.answer, ?_, ?_⟩
  · rw [resolve_ofConflict, List.drop_zero]
  · rw [read, read, Form.settled, Grammar.read, Grammar.read, Form.read]

end Cursor

theorem cause_of_mem_errors {text : String} {d : Diagnostic} (member : d ∈ (parse text).errors) :
    d.cause.isLexical = true ∨ d.cause.isSyntactic = true := by
  obtain ⟨n, among, carried⟩ := List.mem_filterMap.mp member
  have below := (List.mem_filter.mp among).1
  exact (accounted_of_mem_parse below).cause d carried

/-- The table has a line for each conflict. At any place its decision looks no farther than its
bound and names one of its alternatives, so settling it there never fails, and a rule goes on with
the alternative that is named. No tree says that a conflict could not be settled. -/
theorem conflicts_settled :
    (∀ conflict : Conflict,
      Entry.table.find? (fun entry => entry.conflict = conflict) = some (.ofConflict conflict))
    ∧ (∀ (conflict : Conflict) (inParameters : Bool) (eof : Padded) (rest : List Padded),
      (conflict.decide inParameters).reach eof rest ≤ conflict.bound.offset rest
      ∧ (conflict.decide inParameters).run eof rest ∈ conflict.winners)
    ∧ (∀ (cursor : Cursor) (conflict : Conflict) (offset : Nat), ∃ winner ∈ conflict.winners,
      cursor.resolve (.ofConflict conflict) offset = .ok winner)
    ∧ (∀ (cursor : Cursor) (conflict : Conflict) (next : Winner → Form),
      ∃ winner ∈ conflict.winners, cursor.resolve (.ofConflict conflict) 0 = .ok winner
        ∧ cursor.read (Form.settled conflict next) = cursor.read (next winner))
    ∧ ∀ text, ∀ d ∈ (parse text).errors, ∀ rules, d.cause ≠ .unresolvedConflict rules := by
  refine ⟨Conflict.find_table, ?_, ?_, Cursor.read_settled, ?_⟩
  · intro conflict inParameters eof rest
    have within := conflict.decide_within eof rest inParameters
    exact ⟨within.reach_le, within.answer⟩
  · intro cursor conflict offset
    have within := conflict.decide_within cursor.eof (cursor.rest.drop offset)
      cursor.setting.inParameters
    exact ⟨_, within.answer, cursor.resolve_ofConflict conflict offset⟩
  · intro text d member rules
    exact Cause.ne_unresolvedConflict (cause_of_mem_errors member)

end JaiTree
