import JaiTree.Proofs.Token.Attach

/-!
Places: cursors that stand somewhere in a text, and where a reading leaves them.
-/

namespace JaiTree

namespace Cursor

/-- The cursor stands somewhere in the text, whatever the rules around it. -/
structure In (text : String) (cursor : Cursor) : Prop where
  tokens : cursor.tokens = (ofText text).tokens
  eof : cursor.eof = (ofText text).eof

variable {cursor : Cursor} {text : String}

theorem In.isEnd (h : In text cursor) : cursor.eof.token.kind = .eof := by
  rw [h.eof]
  exact isEnd_ofText text

theorem leaving_append {taken after : List Padded} (split : cursor.rest = taken ++ after) :
    (cursor.leaving after).position = cursor.position + taken.length
      ∧ (cursor.leaving after).rest = after := by
  have moved : cursor.rest.length - after.length = taken.length := by
    rw [split, List.length_append, Nat.add_sub_cancel]
  constructor
  · rw [leaving, moved]
  · rw [rest, leaving, moved, ← List.drop_drop]
    change cursor.rest.drop taken.length = after
    rw [split, List.drop_left]

theorem done_of_read {form : Form} {children : List Child} {next : Cursor}
    (h : cursor.read form = (.ok children, next)) :
    ∃ after, Grammar.read cursor.eof (Grammar.maxNesting - cursor.depth) form cursor.setting
      cursor.rest = .done children after ∧ next = cursor.leaving after := by
  rw [read] at h
  split at h
  · next done =>
    cases h
    exact ⟨_, done, rfl⟩
  · cases h

theorem failed_of_read {form : Form} {error : Diagnostic} {next : Cursor}
    (h : cursor.read form = (.error error, next)) :
    ∃ after, Grammar.read cursor.eof (Grammar.maxNesting - cursor.depth) form cursor.setting
      cursor.rest = .failed error after := by
  rw [read] at h
  split at h
  · cases h
  · next failed =>
    cases h
    exact ⟨_, failed⟩

end Cursor

end JaiTree
