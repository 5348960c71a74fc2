import JaiTree.Proofs.Grammar.Forward
import JaiTree.Proofs.Grammar.Runs
import JaiTree.Proofs.Tree.Lossless

/-!
Progress: parsing a text is a finite run in which every round of a loop and every rule that
succeeds takes a token. Main statement: `parse_progress`.
-/

namespace JaiTree

namespace Grammar

open Form

/-- The rules that go round a loop over as many parts as there are. -/
def loops : List Form :=
  [statements .endOfInput, statements .closeCurly, statements .nextCase, structBody, enumBody,
   compositeBody, arrayBody, argumentList, trailingDirectives, procedure, procedureType]

/-- The rules whose success a loop relies on to go round again. -/
def advancing : List Form := [statement, structItem, enumItem, enumMember, type]

variable {eof : Padded} {form : Form} {rest : List Padded}

section

variable (isEnd : eof.token.kind = .eof)
include isEnd

theorem free_of_mem_loops (member : form ∈ loops) : ∃ m, Free eof m form := by
  simp only [loops, List.mem_cons, List.not_mem_nil, or_false] at member
  rcases member with rfl | rfl | rfl | rfl | rfl | rfl | rfl | rfl | rfl | rfl | rfl
  · exact ⟨_, .statements⟩
  · exact ⟨_, .safe (statements_safe isEnd (by decide))⟩
  · exact ⟨_, .safe (statements_safe isEnd (by decide))⟩
  · exact ⟨_, .safe (structBody_safe isEnd)⟩
  · exact ⟨_, .safe (enumBody_safe isEnd)⟩
  · exact ⟨_, .safe (compositeBody_safe isEnd)⟩
  · exact ⟨_, .safe (arrayBody_safe isEnd)⟩
  · exact ⟨_, .safe (argumentList_safe isEnd)⟩
  · exact ⟨_, .safe (trailingDirectives_safe isEnd)⟩
  · exact ⟨_, .safe (procedure_safe isEnd)⟩
  · exact ⟨_, .safe (procedureType_safe isEnd)⟩

theorem free_of_mem_advancing (member : form ∈ advancing) : Free eof true form := by
  simp only [advancing, List.mem_cons, List.not_mem_nil, or_false] at member
  rcases member with rfl | rfl | rfl | rfl | rfl
  · exact .safe statement_safe
  · exact .safe (structItem_safe isEnd)
  · exact .safe (enumItem_safe isEnd)
  · exact .safe (enumMember_safe isEnd)
  · exact .safe type_safe

theorem runs_sourceFile (room : Nat) (setting : Setting)
    (no_end : ∀ p ∈ rest, p.token.kind ≠ .eof) :
    Runs eof ⟨room, .empty, rest.length⟩ (.read sourceFile) setting rest
      (read eof room sourceFile setting rest) := by
  have run := runs_read isEnd .statements room setting rest
  obtain ⟨children, -, ended⟩ := statements_listed isEnd room setting no_end
  rw [ended] at run
  change Runs eof _ _ setting rest (Outcome.map _
    (Outcome.andThen (read eof room (statements .endOfInput) setting rest) _))
  rw [ended]
  exact .node (.seq run .take)

end

end Grammar

namespace Cursor

variable {cursor next : Cursor} {text : String} {form : Form} {children : List Child}

/-- A rule that takes a token wherever it succeeds moves the place. -/
theorem position_lt (inside : cursor.In text) (h : Form.Free cursor.eof true form)
    (found : cursor.read form = (.ok children, next)) : cursor.position < next.position := by
  obtain ⟨after, ended, rfl⟩ := done_of_read found
  cases h with | safe safe =>
  have covers := Grammar.read_covers inside.isEnd safe (Grammar.maxNesting - cursor.depth)
    cursor.setting cursor.rest
  rw [ended] at covers
  obtain ⟨taken, split, -, -, some_taken, -⟩ := covers
  obtain ⟨position, -⟩ := leaving_append split
  have pos := List.length_pos_iff.mpr (some_taken rfl)
  omega

/-- Where a guarded form fails, the region that stands for the failure is taken in its place. -/
theorem read_guard_of_error {error : Diagnostic}
    (failed : cursor.read form = (.error error, next)) :
    cursor.read (.guard form)
      = (.ok [.node none (Recovery.node error (Recovery.region 0 true cursor.rest).1)],
          cursor.leaving (Recovery.region 0 true cursor.rest).2) := by
  obtain ⟨there, ended⟩ := failed_of_read failed
  have recovered : Grammar.read cursor.eof (Grammar.maxNesting - cursor.depth) (.guard form)
      cursor.setting cursor.rest
      = .done [.node none (Recovery.node error (Recovery.region 0 true cursor.rest).1)]
        (Recovery.region 0 true cursor.rest).2 := by
    rw [Grammar.read] at ended ⊢
    rw [Form.read, ended]
  rw [read, recovered]

/-- The region that stands for a failure takes a token where one is left. -/
theorem recovered_position_lt {error : Diagnostic}
    (failed : cursor.read form = (.error error, next)) (some_token : cursor.rest ≠ []) :
    ∃ after, cursor.read (.guard form)
        = (.ok [.node none (Recovery.node error (Recovery.region 0 true cursor.rest).1)], after)
      ∧ cursor.position < after.position := by
  obtain ⟨position, -⟩ := leaving_append (Recovery.region_append 0 true cursor.rest).symm
  have pos := List.length_pos_iff.mpr (Recovery.region_ne_nil 0 some_token)
  exact ⟨_, read_guard_of_error failed, by omega⟩

end Cursor

/-- Parsing a text is a finite run, in which a loop goes round again only with fewer tokens left,
and it comes to the tree and nothing else. From any place in the text the rules that count as a
level and the loops run as well, to what reading them gives. A rule that a loop relies on moves the
place on when it succeeds. Where a guarded rule fails, the region that stands for it moves the place
on. Whatever is read, the place stays between where it was and the end. -/
theorem parse_progress (text : String) :
    (∀ outcome, Runs (Cursor.ofText text).eof
        ⟨Grammar.maxNesting, .empty, (Cursor.ofText text).tokens.length⟩
        (.read Grammar.sourceFile) (Cursor.ofText text).setting (Cursor.ofText text).tokens outcome
      ↔ outcome = .done [.node none (parse text).root] [])
    ∧ ∀ cursor : Cursor, cursor.In text →
      (∀ form outcome, form ∈ Grammar.loops ∨ (∃ goal, form = .enter goal) →
        (Runs cursor.eof ⟨Grammar.maxNesting - cursor.depth, .empty, cursor.rest.length⟩
            (.read form) cursor.setting cursor.rest outcome
          ↔ outcome = Grammar.read cursor.eof (Grammar.maxNesting - cursor.depth) form
            cursor.setting cursor.rest))
      ∧ (∀ form children next,
        form ∈ Grammar.advancing ∨ (∃ floor, form = .enter (.expression floor)) →
          cursor.read form = (.ok children, next) → cursor.position < next.position)
      ∧ (∀ form error next, cursor.read form = (.error error, next) → cursor.rest ≠ [] →
        ∃ after, cursor.read (.guard form)
            = (.ok [.node none (Recovery.node error (Recovery.region 0 true cursor.rest).1)], after)
          ∧ cursor.position < after.position)
      ∧ ∀ form, ∃ taken, cursor.rest = taken ++ (cursor.read form).2.rest
        ∧ (cursor.read form).2.position = cursor.position + taken.length
        ∧ (cursor.position ≤ cursor.tokens.length →
          (cursor.read form).2.position ≤ cursor.tokens.length) := by
  refine ⟨fun outcome => ?_, fun cursor inside => ⟨fun form outcome looping => ?_, ?_, ?_, ?_⟩⟩
  · obtain ⟨children, -, -, ended⟩ := parse_built text
    have run := Grammar.runs_sourceFile (Cursor.isEnd_ofText text) Grammar.maxNesting
      (Cursor.ofText text).setting (Cursor.ofText_seen text).1
    rw [ended] at run
    exact ⟨fun other => other.unique run, fun same => same ▸ run⟩
  · have free : ∃ m, Form.Free cursor.eof m form := by
      rcases looping with member | ⟨goal, rfl⟩
      · exact Grammar.free_of_mem_loops inside.isEnd member
      · exact ⟨_, .enter goal⟩
    obtain ⟨m, free⟩ := free
    have run := Grammar.runs_read inside.isEnd free (Grammar.maxNesting - cursor.depth)
      cursor.setting cursor.rest
    exact ⟨fun other => other.unique run, fun same => same ▸ run⟩
  · intro form children next moves found
    have free : Form.Free cursor.eof true form := by
      rcases moves with member | ⟨floor, rfl⟩
      · exact Grammar.free_of_mem_advancing inside.isEnd member
      · exact .enter (.expression floor)
    exact Cursor.position_lt inside free found
  · intro form error next failed some_token
    exact Cursor.recovered_position_lt failed some_token
  · intro form
    obtain ⟨taken, split, position⟩ := Cursor.read_forward form cursor
    exact ⟨taken, split, position, fun among => position ▸ Cursor.position_le among split⟩

end JaiTree
