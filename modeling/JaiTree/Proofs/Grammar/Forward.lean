import JaiTree.Grammar
import JaiTree.Proofs.Token.Place

/-!
Going forward: whatever a form is, reading it leaves the tokens from some place on, and never one
before the place where it began.
-/

namespace JaiTree

namespace Outcome

/-- The tokens that are left, after children or where a reading failed. -/
def left : Outcome → List Padded
  | .done _ rest => rest
  | .failed _ rest => rest

@[simp] theorem left_map (f : List Child → List Child) (outcome : Outcome) :
    (outcome.map f).left = outcome.left := by
  cases outcome <;> rfl

theorem andThen_suffix {outcome : Outcome} {rest : List Padded} {next : List Padded → Outcome}
    (h : outcome.left <:+ rest) (h' : ∀ rest, (next rest).left <:+ rest) :
    (outcome.andThen next).left <:+ rest := by
  cases outcome with
  | failed error after => exact h
  | done children after =>
    have more := (h' after).trans h
    rw [andThen]
    cases found : next after with
    | done _ _ => rwa [found] at more
    | failed _ _ => rwa [found] at more

end Outcome

namespace Recovery

theorem region_suffix (depth : Nat) (isEmpty : Bool) (rest : List Padded) :
    (region depth isEmpty rest).2 <:+ rest :=
  ⟨(region depth isEmpty rest).1, region_append depth isEmpty rest⟩

end Recovery

namespace Reading

theorem next_fst (eof : Padded) (rest : List Padded) : (next eof rest).1 = ahead eof rest 0 := by
  cases rest <;> rfl

theorem next_suffix (eof : Padded) (rest : List Padded) : (next eof rest).2 <:+ rest := by
  cases rest with
  | nil => exact List.suffix_rfl
  | cons t ts => exact List.suffix_cons t ts

theorem unrolled_suffix {step : Reading → Reading}
    (h : ∀ self, (∀ setting rest, (self setting rest).left <:+ rest) →
      ∀ setting rest, (step self setting rest).left <:+ rest)
    (n : Nat) (setting : Setting) (rest : List Padded) :
    (unrolled step n setting rest).left <:+ rest := by
  induction n generalizing setting rest with
  | zero => exact List.suffix_rfl
  | succ n ih => exact h _ ih setting rest

theorem grown_suffix {add : List Child → List Padded → Option Outcome}
    (h : ∀ children rest outcome, add children rest = some outcome → outcome.left <:+ rest)
    (n : Nat) (children : List Child) (rest : List Padded) :
    (grown add n children rest).left <:+ rest := by
  induction n generalizing children rest with
  | zero => exact List.suffix_rfl
  | succ n ih =>
    rw [grown]
    split
    · exact List.suffix_rfl
    · next added => exact (ih _ _).trans (h _ _ _ added)
    · next added => exact h _ _ _ added

end Reading

namespace Form

/-- Reading a form leaves the tokens from some place on. -/
theorem read_suffix {eof : Padded} {deeper : Goal → Reading}
    (deeper_suffix : ∀ goal setting rest, (deeper goal setting rest).left <:+ rest) (form : Form)
    {self : Reading} (self_suffix : ∀ setting rest, (self setting rest).left <:+ rest)
    (setting : Setting) (rest : List Padded) :
    (form.read eof deeper self setting rest).left <:+ rest := by
  induction form generalizing self setting rest with
  | empty => exact List.suffix_rfl
  | seq first second ih ih' =>
    exact Outcome.andThen_suffix (ih self_suffix setting rest) (ih' self_suffix setting)
  | take field => exact Reading.next_suffix eof rest
  | expect kind field =>
    rw [read]
    split
    · exact Reading.next_suffix eof rest
    · exact List.suffix_rfl
  | refuse cause => exact List.suffix_rfl
  | faulty => exact Reading.next_suffix eof rest
  | node kind body ih =>
    rw [read, Outcome.left_map]
    exact ih self_suffix setting rest
  | label field body ih =>
    rw [read, Outcome.left_map]
    exact ih self_suffix setting rest
  | enter goal => exact deeper_suffix goal setting rest
  | choose look next ih => exact ih _ self_suffix setting rest
  | within scope body ih => exact ih self_suffix (scope.change setting) rest
  | fix body ih => exact Reading.unrolled_suffix (fun _ => ih) _ setting rest
  | again => exact self_suffix setting rest
  | grow many first look kind field tail ih ih' =>
    have head := ih self_suffix setting rest
    rw [read]
    cases found : first.read eof deeper self setting rest with
    | failed error after => rwa [found] at head
    | done children after =>
      rw [found] at head
      refine (Reading.grown_suffix ?_ _ children after).trans head
      intro children rest outcome added
      obtain ⟨k, -, rfl⟩ := Option.map_eq_some_iff.mp added
      rw [Outcome.left_map]
      exact ih' k self_suffix setting rest
  | lead first look kind tail otherwise ih ih' ih'' =>
    have head := ih self_suffix setting rest
    rw [read]
    cases found : first.read eof deeper self setting rest with
    | failed error after => rwa [found] at head
    | done children after =>
      rw [found] at head
      dsimp only
      split
      · next k _ =>
        rw [Outcome.left_map]
        exact (ih' k self_suffix setting after).trans head
      · exact ih'' self_suffix setting rest
  | guard body ih =>
    have inner := ih self_suffix setting rest
    rw [read]
    cases found : body.read eof deeper self setting rest with
    | done children after => rwa [found] at inner
    | failed error after => exact Recovery.region_suffix 0 true rest

end Form

namespace Grammar

theorem level_suffix (eof : Padded) (room : Nat) (goal : Goal) (setting : Setting)
    (rest : List Padded) : (level eof room goal setting rest).left <:+ rest := by
  induction room generalizing goal setting rest with
  | zero => exact List.suffix_rfl
  | succ room ih => exact goal.form.read_suffix ih (fun _ _ => List.suffix_rfl) setting rest

theorem read_suffix (eof : Padded) (room : Nat) (form : Form) (setting : Setting)
    (rest : List Padded) : (read eof room form setting rest).left <:+ rest :=
  form.read_suffix (level_suffix eof room) (fun _ _ => List.suffix_rfl) setting rest

end Grammar

namespace Cursor

/-- A reading moves the place past the tokens that it takes. -/
theorem read_forward (form : Form) (cursor : Cursor) :
    ∃ taken, cursor.rest = taken ++ (cursor.read form).2.rest
      ∧ (cursor.read form).2.position = cursor.position + taken.length := by
  obtain ⟨taken, split⟩ := Grammar.read_suffix cursor.eof (Grammar.maxNesting - cursor.depth) form
    cursor.setting cursor.rest
  obtain ⟨position, rest⟩ := leaving_append split.symm
  refine ⟨taken, ?_⟩
  rw [read]
  cases found : Grammar.read cursor.eof (Grammar.maxNesting - cursor.depth) form cursor.setting
      cursor.rest with
  | done children after =>
    rw [found] at position rest
    exact ⟨by rw [← split, found]; exact congrArg (taken ++ ·) rest.symm, position⟩
  | failed error after =>
    rw [found] at position rest
    exact ⟨by rw [← split, found]; exact congrArg (taken ++ ·) rest.symm, position⟩

theorem position_le {cursor next : Cursor} {taken : List Padded}
    (inside : cursor.position ≤ cursor.tokens.length) (split : cursor.rest = taken ++ next.rest) :
    cursor.position + taken.length ≤ cursor.tokens.length := by
  have total : cursor.rest.length = cursor.tokens.length - cursor.position := List.length_drop
  have parts := congrArg List.length split
  rw [List.length_append] at parts
  omega

end Cursor

end JaiTree
