import JaiTree.Grammar

/-!
What holds of a reading wherever it is done. A reading that fails yields anything.
-/

namespace JaiTree

/-- What a reading leaves when it is done: its children and the tokens after them. -/
abbrev Post := List Child → List Padded → Prop

namespace Outcome

/-- If the reading is done, this holds of its children and of the tokens after them. -/
def Yields (outcome : Outcome) (post : Post) : Prop :=
  ∀ children after, outcome = .done children after → post children after

variable {outcome : Outcome} {post post' : Post} {children : List Child} {rest : List Padded}

@[simp] theorem yields_done : (Outcome.done children rest).Yields post ↔ post children rest := by
  constructor
  · exact fun h => h children rest rfl
  · rintro h _ _ ⟨⟩
    exact h

@[simp] theorem yields_failed {error : Diagnostic} : (Outcome.failed error rest).Yields post := by
  rintro _ _ ⟨⟩

@[simp] theorem yields_map {f : List Child → List Child} :
    (outcome.map f).Yields post ↔ outcome.Yields fun children after => post (f children) after := by
  cases outcome <;> simp [map]

theorem Yields.imp (h : outcome.Yields post) (imp : ∀ children after, post children after →
    post' children after) : outcome.Yields post' :=
  fun children after ended => imp _ _ (h children after ended)

theorem Yields.and (h : outcome.Yields post) (h' : outcome.Yields post') :
    outcome.Yields fun children after => post children after ∧ post' children after :=
  fun children after ended => ⟨h children after ended, h' children after ended⟩

theorem Yields.andThen {next : List Padded → Outcome} (h : outcome.Yields post')
    (h' : ∀ children after, post' children after →
      (next after).Yields fun more rest => post (children ++ more) rest) :
    (outcome.andThen next).Yields post := by
  cases outcome with
  | failed error rest => exact yields_failed
  | done children after =>
    have second := h' children after (yields_done.mp h)
    rw [Outcome.andThen]
    cases ended : next after with
    | failed error rest => exact yields_failed
    | done more rest =>
      rw [ended, yields_done] at second
      exact yields_done.mpr second

end Outcome

namespace Reading

variable {step : Reading → Reading} {add : List Child → List Padded → Option Outcome}
  {inv : Post}

/-- What each turn of a loop yields when the turns after it do, the loop does. -/
theorem unrolled_yields {post : List Padded → Post} (nothing : ∀ rest, post rest [] rest)
    (h : ∀ self : Reading, (∀ setting rest, (self setting rest).Yields (post rest)) →
      ∀ setting rest, (step self setting rest).Yields (post rest))
    (n : Nat) (setting : Setting) (rest : List Padded) :
    (unrolled step n setting rest).Yields (post rest) := by
  induction n generalizing setting rest with
  | zero => exact Outcome.yields_done.mpr (nothing rest)
  | succ n ih => exact h _ ih setting rest

/-- What every addition keeps holds at the end of growth. -/
theorem grown_yields (keeps : ∀ children rest outcome, inv children rest →
      add children rest = some outcome → outcome.Yields inv)
    (n : Nat) {children : List Child} {rest : List Padded} (holds : inv children rest) :
    (grown add n children rest).Yields inv := by
  induction n generalizing children rest with
  | zero => exact Outcome.yields_done.mpr holds
  | succ n ih =>
    rw [grown]
    cases added : add children rest with
    | none => exact Outcome.yields_done.mpr holds
    | some outcome =>
      have kept := keeps children rest outcome holds added
      cases outcome with
      | done more after => exact ih (Outcome.yields_done.mp kept)
      | failed error after => exact Outcome.yields_failed

/-- Growth that takes a token each time ends where there is nothing to add. -/
theorem grown_stops {start : Nat} (shorter : ∀ children rest outcome, rest.length ≤ start →
      add children rest = some outcome → outcome.Yields fun _ after => after.length < rest.length)
    (n : Nat) (children : List Child) (rest : List Padded) (within : rest.length ≤ start)
    (enough : rest.length < n) :
    (grown add n children rest).Yields fun children after => add children after = none := by
  induction n generalizing children rest with
  | zero => cases enough
  | succ n ih =>
    rw [grown]
    cases added : add children rest with
    | none => exact Outcome.yields_done.mpr added
    | some outcome =>
      have less := shorter children rest outcome within added
      cases outcome with
      | done more after =>
        rw [Outcome.yields_done] at less
        exact ih more after (by omega) (by omega)
      | failed error after => exact Outcome.yields_failed

end Reading

namespace Form

variable {eof : Padded} {deeper : Goal → Reading} {self : Reading} {setting : Setting}
  {rest : List Padded} {many : Bool} {κ : Type} {first : Form}
  {look : Setting → Glance (Option κ)} {kind : κ → NodeKind} {field : κ → Option Field}
  {tail : κ → Form} {inv : Post}

/-- What holds of what growth begins with, and of what each addition makes of it, holds of all that
has grown. -/
theorem grow_yields (head : (first.read eof deeper self setting rest).Yields inv)
    (keeps : ∀ k children rest, inv children rest → (look setting).run eof rest = some k →
      ((tail k).read eof deeper self setting rest).Yields fun more after =>
        inv (Child.under (kind k) (Child.labelled (field k) children ++ more)) after) :
    ((grow many first look kind field tail).read eof deeper self setting rest).Yields inv := by
  rw [read]
  cases ended : first.read eof deeper self setting rest with
  | failed error after => exact Outcome.yields_failed
  | done children after =>
    rw [ended, Outcome.yields_done] at head
    refine Reading.grown_yields (fun children rest outcome holds added => ?_) _ head
    obtain ⟨k, found, rfl⟩ := Option.map_eq_some_iff.mp added
    rw [Outcome.yields_map]
    exact keeps k children rest holds found

/-- Growth that takes a token each time goes on as long as there is something to add. -/
theorem grow_stops {start : Nat} (head : (first.read eof deeper self setting rest).Yields
      fun _ after => after.length ≤ start)
    (shorter : ∀ k rest, rest.length ≤ start → (look setting).run eof rest = some k →
      ((tail k).read eof deeper self setting rest).Yields
        fun _ after => after.length < rest.length) :
    ((grow true first look kind field tail).read eof deeper self setting rest).Yields
      fun _ after => (look setting).run eof after = none := by
  rw [read]
  cases ended : first.read eof deeper self setting rest with
  | failed error after => exact Outcome.yields_failed
  | done children after =>
    rw [ended, Outcome.yields_done] at head
    refine (Reading.grown_stops (fun children rest outcome within added => ?_) _ children after head
      (Nat.lt_succ_self _)).imp fun _ _ => Option.map_eq_none_iff.mp
    obtain ⟨k, found, rfl⟩ := Option.map_eq_some_iff.mp added
    rw [Outcome.yields_map]
    exact shorter k rest within found

/-- What holds of a body and of every region that may stand for it holds where it is guarded. -/
theorem guard_yields {body : Form} (h : (body.read eof deeper self setting rest).Yields inv)
    (regions : ∀ error region after, inv [.node none (Recovery.node error region)] after) :
    ((guard body).read eof deeper self setting rest).Yields inv := by
  rw [read]
  cases ended : body.read eof deeper self setting rest with
  | failed error after => exact Outcome.yields_done.mpr (regions error _ _)
  | done children after =>
    rw [ended] at h
    exact h

/-- What holds of what follows some children, put under a node with them, and of what is read
otherwise, holds of a form that goes the one way or the other. -/
theorem lead_yields {post : Post} {otherwise : Form} {kind : κ → NodeKind}
    (head : (first.read eof deeper self setting rest).Yields post)
    (headed : ∀ k children after, post children after → (look setting).run eof after = some k →
      ((tail k).read eof deeper self setting after).Yields fun more after =>
        inv (Child.under (kind k) (children ++ more)) after)
    (instead : (otherwise.read eof deeper self setting rest).Yields inv) :
    ((lead first look kind tail otherwise).read eof deeper self setting rest).Yields inv := by
  rw [read]
  cases ended : first.read eof deeper self setting rest with
  | failed error after => exact Outcome.yields_failed
  | done children after =>
    rw [ended, Outcome.yields_done] at head
    dsimp only
    split
    · next k found =>
      rw [Outcome.yields_map]
      exact headed k children after head found
    · exact instead

end Form

end JaiTree
