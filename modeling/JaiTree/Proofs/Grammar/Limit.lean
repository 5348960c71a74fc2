import Mathlib.Data.List.TakeWhile
import JaiTree.Proofs.Grammar.Calls
import JaiTree.Proofs.Grammar.Room
import JaiTree.Proofs.Tree.Bare
import JaiTree.Proofs.Tree.Lossless

/-!
The limit of nesting: it is met where a rule is asked for with no room for its level, nowhere else,
and it changes nothing of what is read without an error. Main statement: `limit_rejects`.
-/

namespace JaiTree

/-- Forms that refuse no token for the nesting. -/
def Form.Careful : Form → Prop
  | .refuse cause => ∀ s limit, cause s ≠ .nestingTooDeep limit
  | .seq first second => first.Careful ∧ second.Careful
  | .node _ body | .label _ body | .within _ body | .fix body | .guard body => body.Careful
  | .choose _ next => ∀ k, (next k).Careful
  | .grow _ first _ _ _ tail => first.Careful ∧ ∀ k, (tail k).Careful
  | .lead first _ _ tail otherwise => first.Careful ∧ (∀ k, (tail k).Careful) ∧ otherwise.Careful
  | .empty | .take _ | .expect _ _ | .faulty | .enter _ | .again => True

theorem Form.Fills.careful {e : Bool} {loop place : Place} {form : Form}
    (h : form.Fills e loop place) : form.Careful := by
  induction h with
  | empty | take | expect | faulty | enter | again => trivial
  | seq _ _ ih ih' => exact ⟨ih, ih'⟩
  | refuse other => exact other
  | under _ _ _ ih | parameters _ ih | part _ _ ih | within _ ih | fix _ ih | guard _ ih
  | cases _ ih | weaken _ _ ih => exact ih
  | returns same _ ih =>
    rw [same]
    exact ih
  | choose _ ih => exact ih
  | grow _ _ _ _ _ ih tails => exact ⟨ih, tails⟩
  | lead _ _ _ _ _ _ ih tails ih' => exact ⟨ih, tails, ih'⟩

/-- Work on forms that refuse no token for the nesting. -/
def Work.Careful : Work → Prop
  | .read form => form.Careful
  | .grow _ _ _ _ tail _ => ∀ k, (tail k).Careful

namespace Call

/-- Neither the call nor the loop around it refuses a token for the nesting. -/
structure Careful (call : Call) : Prop where
  work : call.work.Careful
  loop : call.around.loop.Careful

/-- While the call is made, a rule is asked for with no room for its level, and the error is that
there is none, at the place where the rule would begin. -/
def Exhausts (eof : Padded) (call : Call) (error : Diagnostic) (after : List Padded) : Prop :=
  ∃ loop turns goal setting, call.Leads eof ⟨⟨0, loop, turns⟩, .read (.enter goal), setting, after⟩
    ∧ error = ⟨.nestingTooDeep Grammar.maxNesting, (ahead eof after 0).token.start⟩

variable {eof : Padded} {call next : Call} {error : Diagnostic} {after : List Padded}

theorem Careful.calls (h : call.Careful) (calls : Calls eof call next) : next.Careful := by
  cases calls with
  | first | led | head => exact ⟨h.work.1, h.loop⟩
  | second => exact ⟨h.work.2, h.loop⟩
  | node | label | within | guard => exact ⟨h.work, h.loop⟩
  | @enter _ _ _ goal => exact ⟨(@Goal.form_fills goal .operand).careful, trivial⟩
  | choose => exact ⟨h.work _, h.loop⟩
  | fix => exact ⟨h.work, h.work⟩
  | again => exact ⟨h.loop, h.loop⟩
  | growth => exact ⟨h.work.2, h.loop⟩
  | tail => exact ⟨h.work _, h.loop⟩
  | more => exact ⟨h.work, h.loop⟩
  | lead => exact ⟨h.work.2.1 _, h.loop⟩
  | otherwise => exact ⟨h.work.2.2, h.loop⟩

theorem Careful.leads (h : call.Careful) (leads : call.Leads eof next) : next.Careful := by
  induction leads with
  | refl => exact h
  | tail _ calls ih => exact ih.calls calls

theorem Exhausts.of_calls (h : next.Exhausts eof error after) (calls : Calls eof call next) :
    call.Exhausts eof error after := by
  obtain ⟨loop, turns, goal, setting, leads, same⟩ := h
  exact ⟨loop, turns, goal, setting, .head calls leads, same⟩

end Call

/-- Where the form gives up for the nesting, that is because there was no room for a level. -/
def Around.Traces (eof : Padded) (around : Around) (form : Form) : Prop :=
  ∀ setting rest error after limit, around.read eof form setting rest = .failed error after →
    error.cause = .nestingTooDeep limit →
    Call.Exhausts eof ⟨around, .read form, setting, rest⟩ error after

namespace Outcome

variable {outcome : Outcome} {error : Diagnostic} {rest : List Padded}

theorem failed_of_map {f : List Child → List Child} (h : outcome.map f = .failed error rest) :
    outcome = .failed error rest := by
  cases outcome with
  | done => cases h
  | failed => exact h

theorem failed_of_andThen {next : List Padded → Outcome}
    (h : outcome.andThen next = .failed error rest) : outcome = .failed error rest
      ∨ ∃ children after, outcome = .done children after ∧ next after = .failed error rest := by
  cases outcome with
  | failed => exact .inl h
  | done children after =>
    rw [andThen_done] at h
    exact .inr ⟨children, after, rfl, failed_of_map h⟩

end Outcome

namespace Around

variable {eof : Padded} {room : Nat}

/-- Where growth gives up, one of its additions does. -/
theorem grown_traces {around : Around} {κ : Type} {many : Bool} {look : Setting → Glance (Option κ)}
    {kind : κ → NodeKind} {field : κ → Option Field} {tail : κ → Form}
    (tails : ∀ k, around.Traces eof (tail k)) {setting : Setting} {error : Diagnostic}
    {after : List Padded} {limit : Nat} (cause : error.cause = .nestingTooDeep limit) (n : Nat)
    (once : many = true ∨ n ≤ 1) {children : List Child} {rest : List Padded}
    (failed : Reading.grown (fun children rest => ((look setting).run eof rest).map fun k =>
        (around.read eof (tail k) setting rest).map fun more =>
          Child.under (kind k) (Child.labelled (field k) children ++ more)) n children rest
      = .failed error after) :
    Call.Exhausts eof ⟨around, .grow many look kind field tail children, setting, rest⟩ error
      after := by
  induction n generalizing children rest with
  | zero => cases failed
  | succ n ih =>
    rw [Reading.grown] at failed
    cases found : (look setting).run eof rest with
    | none =>
      rw [found] at failed
      cases failed
    | some k =>
      rw [found, Option.map_some] at failed
      cases ended : around.read eof (tail k) setting rest with
      | failed error' after' =>
        rw [ended] at failed
        cases failed
        exact (tails k setting rest error after limit ended cause).of_calls (.tail found)
      | done made last =>
        rw [ended] at failed
        rcases once with rfl | few
        · exact (ih (.inl rfl) failed).of_calls (.more found ended)
        · obtain rfl : n = 0 := by omega
          cases failed

/-- What `again` stands for traces where it gives up, if a turn of the loop does. -/
theorem again_traces {loop : Form} (turn : ∀ {loop' : Form} {turns : Nat},
      Traces eof ⟨room, loop', turns⟩ .again → Traces eof ⟨room, loop', turns⟩ loop)
    (turns : Nat) : Traces eof ⟨room, loop, turns⟩ .again := by
  induction turns with
  | zero => nofun
  | succ turns ih =>
    intro setting rest error after limit failed cause
    exact (turn ih setting rest error after limit failed cause).of_calls .again

/-- Forms trace where they give up for the nesting, if the rules one level deeper do, and what
`again` stands for. -/
theorem traces {form : Form} (careful : form.Careful)
    (enters : ∀ loop turns goal, Traces eof ⟨room, loop, turns⟩ (.enter goal)) {loop : Form}
    {turns : Nat} (again : Traces eof ⟨room, loop, turns⟩ .again) :
    Traces eof ⟨room, loop, turns⟩ form := by
  induction form generalizing loop turns with
  | empty | take | faulty => nofun
  | expect kind field =>
    intro setting rest error after limit failed cause
    rw [Around.read, Form.read] at failed
    split at failed
    · cases failed
    · cases failed
      cases cause
  | refuse refused =>
    rintro setting rest _ _ limit ⟨⟩ cause
    exact absurd cause (careful _ limit)
  | seq first second ih ih' =>
    intro setting rest error after limit failed cause
    rcases Outcome.failed_of_andThen failed with failed | ⟨children, last, ended, failed⟩
    · exact (ih careful.1 again setting rest error after limit failed cause).of_calls .first
    · exact (ih' careful.2 again setting last error after limit failed cause).of_calls
        (.second ended)
  | node kind body ih =>
    intro setting rest error after limit failed cause
    exact (ih careful again setting rest error after limit (Outcome.failed_of_map failed)
      cause).of_calls .node
  | label field body ih =>
    intro setting rest error after limit failed cause
    exact (ih careful again setting rest error after limit (Outcome.failed_of_map failed)
      cause).of_calls .label
  | enter goal => exact enters loop turns goal
  | choose look next ih =>
    intro setting rest error after limit failed cause
    exact (ih _ (careful _) again setting rest error after limit failed cause).of_calls .choose
  | within _ body ih =>
    intro setting rest error after limit failed cause
    exact (ih careful again _ rest error after limit failed cause).of_calls .within
  | fix body ih =>
    have turn (n : Nat) : Traces eof ⟨room, body, n⟩ .again := again_traces (ih careful) n
    intro setting rest error after limit failed cause
    exact (ih careful (turn rest.length) setting rest error after limit failed cause).of_calls .fix
  | again => exact again
  | grow many first look kind field tail ih tails =>
    intro setting rest error after limit failed cause
    rw [Around.read, Form.read] at failed
    split at failed
    · next ended =>
      cases failed
      exact (ih careful.1 again setting rest _ _ limit ended cause).of_calls .head
    · next children last ended =>
      refine (grown_traces (fun k => tails k (careful.2 k) again) cause _ ?_ failed).of_calls
        (.growth ended)
      cases many with
      | true => exact .inl rfl
      | false => exact .inr (Nat.le_refl 1)
  | lead first look kind tail otherwise ih tails ih' =>
    intro setting rest error after limit failed cause
    rw [Around.read, Form.read] at failed
    split at failed
    · next ended =>
      cases failed
      exact (ih careful.1 again setting rest _ _ limit ended cause).of_calls .led
    · next children last ended =>
      split at failed
      · next k found =>
        exact (tails k (careful.2.1 k) again setting last error after limit
          (Outcome.failed_of_map failed) cause).of_calls (.lead ended found)
      · next none =>
        exact (ih' careful.2.2 again setting rest error after limit failed cause).of_calls
          (.otherwise ended none)
  | guard body ih =>
    intro setting rest error after limit failed cause
    rw [Around.read, Form.read] at failed
    split at failed
    all_goals cases failed

/-- A rule traces where it gives up: there is room for its level, and then its form does, or there
is none. -/
theorem enter_traces (room : Nat) (loop : Form) (turns : Nat) (goal : Goal) :
    Traces eof ⟨room, loop, turns⟩ (.enter goal) := by
  induction room generalizing loop turns goal with
  | zero =>
    rintro setting rest _ _ limit ⟨⟩ -
    exact ⟨loop, turns, goal, setting, .refl, rfl⟩
  | succ room ih =>
    intro setting rest error after limit failed cause
    have nothing_traces : Traces eof ⟨room, .empty, 0⟩ .again := nofun
    exact (traces (@Goal.form_fills goal .operand).careful ih nothing_traces setting rest error
      after limit failed cause).of_calls .enter

end Around

/-- A careful call traces where it gives up. -/
theorem Call.Careful.traces {eof : Padded} {around : Around} {form : Form} {setting : Setting}
    {rest : List Padded} (h : Call.Careful ⟨around, .read form, setting, rest⟩) :
    around.Traces eof form :=
  Around.traces h.work (Around.enter_traces around.room)
    (Around.again_traces (Around.traces h.loop (Around.enter_traces around.room)) around.turns)

namespace Cursor

/-- The cursor stands somewhere in a list of tokens, whatever the rules around it. -/
structure Over (all : List Padded) (cursor : Cursor) : Prop where
  tokens : cursor.tokens = (ofPadded all).tokens
  eof : cursor.eof = (ofPadded all).eof

/-- A form that is read at the place. -/
def call (form : Form) (cursor : Cursor) : Call :=
  ⟨⟨Grammar.maxNesting - cursor.depth, .empty, 0⟩, .read form, cursor.setting, cursor.rest⟩

variable {cursor : Cursor} {all : List Padded}

theorem Over.isEnd (h : cursor.Over all) : cursor.eof.token.kind = .eof := by
  rw [h.eof]
  exact isEnd_ofPadded all

theorem Over.no_end (h : cursor.Over all) : ∀ p ∈ cursor.tokens, p.token.kind ≠ .eof := by
  rw [h.tokens]
  intro p member
  have other := List.mem_takeWhile_imp member
  simpa [Cursor.isEnd] using other

theorem careful_call {form : Form}
    (rule : form = Grammar.sourceFile ∨ ∃ goal, form = .enter goal) :
    (cursor.call form).Careful := by
  rcases rule with rfl | ⟨goal, rfl⟩
  · exact ⟨(@Grammar.sourceFile_fills .operand .operand).careful, trivial⟩
  · exact ⟨trivial, trivial⟩

theorem read_of_done {form : Form} {children : List Child} {after : List Padded}
    (ended : Grammar.read cursor.eof (Grammar.maxNesting - cursor.depth) form cursor.setting
      cursor.rest = .done children after) :
    cursor.read form = (.ok children, cursor.leaving after) := by
  rw [read, ended]

/-- From a place with fewer levels open a rule makes the same of what it reads without an error. -/
theorem Over.read_shallower (h : cursor.Over all) {depth : Nat} (shallower : depth ≤ cursor.depth)
    {goal : Goal} {children : List Child} {next : Cursor}
    (ended : cursor.read (.enter goal) = (.ok children, next)) (clean : Clean children) :
    { cursor with depth }.read (.enter goal) = (.ok children, { next with depth }) := by
  obtain ⟨after, found, rfl⟩ := done_of_read ended
  have room : Grammar.maxNesting - cursor.depth ≤ Grammar.maxNesting - depth := by omega
  have kept := (Grammar.level_keeps h.isEnd h.no_end room).strict goal cursor.setting cursor.rest
    (List.drop_suffix cursor.position cursor.tokens)
  obtain ⟨children', again, same⟩ := kept children after found (.inr clean)
  rw [same clean] at again
  exact @read_of_done { cursor with depth } _ _ _ again

end Cursor

/-- A text that is read without an error has the same tree where more levels are followed. -/
theorem read_of_not_hasErrors {text : String} (sound : (parse text).hasErrors = false) {room : Nat}
    (more : Grammar.maxNesting ≤ room) :
    Grammar.read (Cursor.ofText text).eof room Grammar.sourceFile (Cursor.ofText text).setting
      (Cursor.ofText text).tokens = .done [.node none (parse text).root] [] := by
  obtain ⟨-, -, -, ended⟩ := parse_built text
  have clean : Clean [.node none (parse text).root] := by
    rw [Clean, descendantsOf, Child.descendants, descendantsOf, List.append_nil]
    rw [Tree.hasErrors, Bool.not_eq_false', List.isEmpty_iff, Node.errorNodes,
      List.filter_eq_nil_iff] at sound
    exact fun n member => Bool.eq_false_iff.mpr (sound n member)
  obtain ⟨children', again, same⟩ := Grammar.sourceFile_keeps (Cursor.isEnd_ofText text)
    (Cursor.ofText_seen text).1 more _ _ List.suffix_rfl _ _ ended (.inr clean)
  rw [again, same clean]

/-- The limit of nesting only ever rejects. What a rule makes without an error from some place on,
it makes from there with fewer levels open as well, and it stops at the same place; so a text
without errors has the same tree where the limit is higher. A rule for whose level there is no room
gives up at once for that reason, and whatever is read gives up for it only where such a rule is
asked for.

Between braces a failure at the limit becomes a region, which hides it from the rules around. What
is made without an error holds no region, but the notes that are read before a statement and then
given back may: they still end at the same place, because what stands between braces ends with the
brace that closes it. -/
theorem limit_rejects :
    (∀ (all : List Padded) (cursor : Cursor), cursor.Over all → ∀ depth ≤ cursor.depth,
      ∀ goal children next, cursor.read (.enter goal) = (.ok children, next) → Clean children →
        { cursor with depth }.read (.enter goal) = (.ok children, { next with depth }))
    ∧ (∀ text, (parse text).hasErrors = false → ∀ room, Grammar.maxNesting ≤ room →
      Grammar.read (Cursor.ofText text).eof room Grammar.sourceFile (Cursor.ofText text).setting
        (Cursor.ofText text).tokens = .done [.node none (parse text).root] [])
    ∧ (∀ eof loop turns goal setting rest,
      Around.read eof ⟨0, loop, turns⟩ (.enter goal) setting rest
        = .failed ⟨.nestingTooDeep Grammar.maxNesting, (ahead eof rest 0).token.start⟩ rest)
    ∧ ∀ (cursor : Cursor) (form : Form),
      (form = Grammar.sourceFile ∨ ∃ goal, form = .enter goal) →
      ∀ around inner setting rest error after,
        (cursor.call form).Leads cursor.eof ⟨around, .read inner, setting, rest⟩ →
        around.read cursor.eof inner setting rest = .failed error after →
          ((∃ limit, error.cause = .nestingTooDeep limit)
            ↔ Call.Exhausts cursor.eof ⟨around, .read inner, setting, rest⟩ error after) := by
  refine ⟨fun all cursor stands depth shallower goal children next ended clean => ?_,
    fun text sound room more => read_of_not_hasErrors sound more, fun _ _ _ _ _ _ => rfl, ?_⟩
  · exact stands.read_shallower shallower ended clean
  · intro cursor form rule around inner setting rest error after leads failed
    have careful := (Cursor.careful_call rule).leads leads
    constructor
    · rintro ⟨limit, cause⟩
      exact careful.traces setting rest error after limit failed cause
    · rintro ⟨-, -, -, -, -, rfl⟩
      exact ⟨_, rfl⟩

/-- A note before an expression is read, given back and read again, with most levels open and with
none. -/
theorem limit_rejects_noted : ∃ (cursor : Cursor) (children : List Child) (next : Cursor),
    cursor.Over (Padded.ofTokens (tokenize "@note(1) f((2));")) ∧ cursor.depth = 100
      ∧ cursor.read (.enter .statement) = (.ok children, next) ∧ Clean children
      ∧ { cursor with depth := 0 }.read (.enter .statement)
        = (.ok children, { next with depth := 0 }) := by
  let cursor : Cursor := { Cursor.ofText "@note(1) f((2));" with depth := 100 }
  have sound : ((cursor.read (.enter .statement)).1.toOption.any fun children =>
      (descendantsOf children).all fun n => !n.isError) = true := by decide +kernel
  rcases found : cursor.read (.enter .statement) with ⟨result, next⟩
  rw [found] at sound
  cases result with
  | error error => cases sound
  | ok children =>
    have clean : Clean children := fun n member => by
      simpa using List.all_eq_true.mp sound n member
    have stands : cursor.Over (Padded.ofTokens (tokenize "@note(1) f((2));")) := ⟨rfl, rfl⟩
    exact ⟨cursor, children, next, stands, rfl, found, clean,
      limit_rejects.1 _ cursor stands 0 (Nat.zero_le _) .statement children next found clean⟩

end JaiTree
