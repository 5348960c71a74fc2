import JaiTree.Proofs.Grammar.Statements

/-!
Calm forms: where an equals sign before a brace may open the cases of a switch, no statement begins.
-/

namespace JaiTree.Form

/-- Where the form stands in the spot, and the loop around it in another, no rule is entered and no
loop gone round again where it may not stand. -/
def Calm : Form → (spot loop : Spot) → Prop
  | .empty, _, _ | .take _, _, _ | .expect _ _, _, _ | .refuse _, _, _ | .faulty, _, _ => True
  | .seq first second, spot, loop => first.Calm spot loop ∧ second.Calm spot loop
  | .node _ body, spot, loop | .label _ body, spot, loop | .guard body, spot, loop =>
    body.Calm spot loop
  | .enter goal, spot, _ => goal.spot = .plain → spot = .plain
  | .choose _ next, spot, loop => ∀ k, (next k).Calm spot loop
  | .within scope body, _, loop => body.Calm scope.spot loop
  | .fix body, spot, _ => body.Calm spot spot
  | .again, spot, loop => loop = .plain → spot = .plain
  | .grow _ first _ _ _ tail, spot, loop => first.Calm spot loop ∧ ∀ k, (tail k).Calm spot loop
  | .lead first _ _ tail otherwise, spot, loop =>
    first.Calm spot loop ∧ (∀ k, (tail k).Calm spot loop) ∧ otherwise.Calm spot loop

theorem Guarded.calm {eof : Padded} {moved m : Bool} {known left : Known} {form : Form}
    {a b : List Delimiter} {spot : Spot} {g : Bool}
    (guarded : Guarded eof moved known form m left a b spot g) {loop : Spot}
    (stands : loop = .plain → spot = .plain) : form.Calm spot loop := by
  induction guarded generalizing loop with
  | empty | takes _ | expects _ | refuse _ | faulty _ => trivial
  | seq _ _ ih ih' => exact ⟨ih stands, ih' stands⟩
  | under _ _ ih | label _ ih | guard _ _ ih => exact ih stands
  | leadingPoint _ ih => exact fun growth => ih growth stands
  | enter allowed => exact allowed
  | changed allowed => exact allowed
  | choose _ ih => exact fun k => ih k stands
  | within plain _ ih =>
    rw [Calm, plain]
    exact ih fun _ => rfl
  | fix _ ih => exact ih id
  | again => exact stands
  | growing _ _ _ ih ih' => exact ⟨ih stands, fun k => ih' k stands⟩
  | lead _ _ _ _ ih ih' ih'' => exact ⟨ih stands, fun k => ih' k stands, ih'' stands⟩
  | group _ _ ih | inside _ ih | weaken _ _ _ _ _ ih => exact ih stands

variable {m : Bool} {form : Form} {spot : Spot}

/-- What is safe to read in a spot, whatever the end of the tokens, is calm there. -/
theorem calm_of_safe (safe : ∀ eof, eof.token.kind = .eof → Safe eof m form spot) :
    form.Calm spot spot :=
  Guarded.calm (safe ⟨[], .eofAt 0⟩ rfl) id

/-- What is guarded once enough is known of the tokens ahead is calm. -/
theorem calm_of_guarded {left : Known}
    (guarded : ∀ eof, eof.token.kind = .eof →
      Guarded eof false (fun _ => False) form m left [] [] spot) : form.Calm spot spot :=
  (guarded ⟨[], .eofAt 0⟩ rfl).calm id

end JaiTree.Form

/-- The rules that count as levels are calm where they may stand. -/
theorem JaiTree.Goal.form_calm (goal : Goal) : goal.form.Calm goal.spot goal.spot :=
  Form.calm_of_safe fun _ isEnd => goal.form_safe isEnd

namespace JaiTree.Grammar

theorem statements_calm (listEnd : ListEnd) : (statements listEnd).Calm .plain .plain := by
  intro step
  cases step with
  | stop => trivial
  | semicolon => exact ⟨trivial, id⟩
  | item => cases listEnd <;> exact ⟨id, id⟩

end JaiTree.Grammar
