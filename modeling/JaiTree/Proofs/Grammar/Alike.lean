import JaiTree.Grammar
import JaiTree.Proofs.Lookahead.Reach
import Mathlib.Data.List.Forall2

/-!
Alike tokens: where tokens differ only in what no rule can see, what is read from them differs only
in the tokens. Main statements: `Form.read_alike`, `Grammar.level_alike`.
-/

namespace JaiTree

/-- Ways in which tokens and diagnostics may differ that no rule can tell: tokens are seen alike,
and what is reported at them or by them is alike. -/
structure Unseen (like : Padded → Padded → Prop) (same : Diagnostic → Diagnostic → Prop) :
    Prop where
  sight {p q : Padded} : like p q → p.sight = q.sight
  located {p q : Padded} : like p q → ∀ cause, same ⟨cause, p.token.start⟩ ⟨cause, q.token.start⟩
  carried {p q : Padded} : like p q → p.token.diagnostic?.Rel same q.token.diagnostic?

/-- Children over alike tokens. -/
inductive Alike (like : Padded → Padded → Prop) (same : Diagnostic → Diagnostic → Prop) :
    List Child → List Child → Prop where
  | nil : Alike like same [] []
  | append {children children' more more' : List Child} : Alike like same children children' →
      Alike like same more more' → Alike like same (children ++ more) (children' ++ more')
  | padded {field : Option Field} {p q : Padded} :
      like p q → Alike like same (Child.ofPadded field p) (Child.ofPadded field q)
  | node {field : Option Field} {kind : NodeKind} {children children' : List Child}
      {error error' : Option Diagnostic} : Alike like same children children' →
      error.Rel same error' →
      Alike like same [.node field (.mk kind children error)]
        [.node field (.mk kind children' error')]

variable {like : Padded → Padded → Prop} {same : Diagnostic → Diagnostic → Prop}

namespace Alike

variable {children children' : List Child}

theorem under (kind : NodeKind) (h : Alike like same children children') :
    Alike like same (Child.under kind children) (Child.under kind children') :=
  .node h .none

theorem relabel (field : Field) (h : Alike like same children children') :
    Alike like same (children.map (Child.relabel field)) (children'.map (Child.relabel field)) := by
  induction h with
  | nil => exact .nil
  | append _ _ ih ih' =>
    rw [List.map_append, List.map_append]
    exact .append ih ih'
  | @padded part p q alike =>
    have kept (r : Padded) :
        (Child.ofPadded part r).map (Child.relabel field) = Child.ofPadded part r := by
      simp [Child.ofPadded, Child.relabel]
    rw [kept, kept]
    exact .padded alike
  | node inner errors _ => exact .node inner errors

theorem labelled (field : Option Field) (h : Alike like same children children') :
    Alike like same (Child.labelled field children) (Child.labelled field children') := by
  cases field with
  | none => exact h
  | some field => exact h.relabel field

theorem flatMap_ofPadded {region region' : List Padded} (h : List.Forall₂ like region region') :
    Alike like same (region.flatMap (Child.ofPadded none))
      (region'.flatMap (Child.ofPadded none)) := by
  induction h with
  | nil => exact .nil
  | cons alike _ ih => exact .append (.padded alike) ih

end Alike

/-- Outcomes over alike tokens: both done with alike children, or both failed for the same cause. -/
inductive Outcome.Alike (like : Padded → Padded → Prop) (same : Diagnostic → Diagnostic → Prop) :
    Outcome → Outcome → Prop where
  | done {children children' : List Child} {rest rest' : List Padded} :
      JaiTree.Alike like same children children' → List.Forall₂ like rest rest' →
      Alike like same (.done children rest) (.done children' rest')
  | failed {error error' : Diagnostic} {rest rest' : List Padded} : same error error' →
      List.Forall₂ like rest rest' → Alike like same (.failed error rest) (.failed error' rest')

namespace Outcome.Alike

variable {outcome outcome' : Outcome}

theorem map {f f' : List Child → List Child} (h : Alike like same outcome outcome')
    (keeps : ∀ children children', JaiTree.Alike like same children children' →
      JaiTree.Alike like same (f children) (f' children')) :
    Alike like same (outcome.map f) (outcome'.map f') := by
  cases h with
  | done children rest => exact .done (keeps _ _ children) rest
  | failed error rest => exact .failed error rest

theorem andThen {next next' : List Padded → Outcome} (h : Alike like same outcome outcome')
    (h' : ∀ rest rest', List.Forall₂ like rest rest' → Alike like same (next rest) (next' rest')) :
    Alike like same (outcome.andThen next) (outcome'.andThen next') := by
  cases h with
  | failed error rest => exact .failed error rest
  | @done children children' rest rest' first behind =>
    have second := h' _ _ behind
    rw [Outcome.andThen, Outcome.andThen]
    generalize next rest = outcome at second ⊢
    generalize next' rest' = outcome' at second ⊢
    cases second with
    | done more rest => exact .done (.append first more) rest
    | failed error rest => exact .failed error rest

end Outcome.Alike

/-- Both readings come to alike outcomes wherever they read alike tokens. -/
def Reading.Alike (like : Padded → Padded → Prop) (same : Diagnostic → Diagnostic → Prop)
    (reading reading' : Reading) : Prop :=
  ∀ setting rest rest', List.Forall₂ like rest rest' →
    Outcome.Alike like same (reading setting rest) (reading' setting rest')

section

variable (unseen : Unseen like same) {eof eof' : Padded} (ends : like eof eof')
  {rest rest' : List Padded} (alike : List.Forall₂ like rest rest')

section
include ends alike

theorem ahead_alike (offset : Nat) : like (ahead eof rest offset) (ahead eof' rest' offset) := by
  induction alike generalizing offset with
  | nil => exact ends
  | cons first _ ih =>
    cases offset with
    | zero => exact first
    | succ offset => exact ih offset

theorem Reading.next_alike :
    like (next eof rest).1 (next eof' rest').1
      ∧ List.Forall₂ like (next eof rest).2 (next eof' rest').2 := by
  cases alike with
  | nil => exact ⟨ends, .nil⟩
  | cons first later => exact ⟨first, later⟩

end

include unseen

theorem kind_alike {p q : Padded} (like_pq : like p q) : p.token.kind = q.token.kind := by
  rw [← Padded.sight_kind, unseen.sight like_pq, Padded.sight_kind]

theorem faulty_alike {p q : Padded} (like_pq : like p q) :
    Alike like same [.node none (.faulty p)] [.node none (.faulty q)] := by
  refine .node (.padded like_pq) ?_
  rw [kind_alike unseen like_pq]
  split
  · exact unseen.carried like_pq
  · exact .none

section
include ends alike

theorem Glance.run_alike {α : Type} (isEnd : eof.token.kind = .eof) (decision : Glance α) :
    decision.run eof rest = decision.run eof' rest' :=
  decision.run_congr isEnd (kind_alike unseen ends ▸ isEnd) fun offset _ =>
    unseen.sight (ahead_alike ends alike offset)

theorem Reading.fail_alike (cause : Sight → Cause) :
    Outcome.Alike like same (fail eof cause rest) (fail eof' cause rest') := by
  have first := ahead_alike ends alike 0
  rw [fail, fail, unseen.sight first]
  exact .failed (unseen.located first _) alike

end

include alike

theorem Recovery.region_alike (depth : Nat) (isEmpty : Bool) :
    List.Forall₂ like (region depth isEmpty rest).1 (region depth isEmpty rest').1
      ∧ List.Forall₂ like (region depth isEmpty rest).2 (region depth isEmpty rest').2 := by
  induction alike generalizing depth isEmpty with
  | nil => exact ⟨.nil, .nil⟩
  | cons first later ih =>
    rw [region, region, kind_alike unseen first]
    split
    · exact ⟨.cons first (ih _ _).1, (ih _ _).2⟩
    · split
      · exact ⟨.nil, .cons first later⟩
      · split
        · exact ⟨.cons first .nil, later⟩
        · exact ⟨.cons first (ih _ _).1, (ih _ _).2⟩
    · split
      · exact ⟨.cons first .nil, later⟩
      · exact ⟨.cons first (ih _ _).1, (ih _ _).2⟩
    · exact ⟨.cons first (ih _ _).1, (ih _ _).2⟩

theorem Recovery.node_alike {error error' : Diagnostic} (reported : same error error') :
    Alike like same [.node none (node error rest)] [.node none (node error' rest')] := by
  refine .node (.flatMap_ofPadded alike) (.some ?_)
  induction alike with
  | nil => exact reported
  | cons first _ ih =>
    have carried := unseen.carried first
    rw [List.findSome?_cons, List.findSome?_cons]
    generalize Token.diagnostic? _ = found at carried ⊢
    generalize Token.diagnostic? _ = found' at carried ⊢
    cases carried with
    | some own => exact own
    | none => exact ih

end

namespace Reading

/-- A loop whose turns read alike if the turns after them do reads alike. -/
theorem unrolled_alike {step step' : Reading → Reading}
    (h : ∀ self self', Alike like same self self' → Alike like same (step self) (step' self'))
    (n : Nat) : Alike like same (unrolled step n) (unrolled step' n) := by
  induction n with
  | zero => exact fun _ _ _ alike => .done .nil alike
  | succ n ih => exact h _ _ ih

theorem grown_alike {add add' : List Child → List Padded → Option Outcome}
    (h : ∀ children children' rest rest', JaiTree.Alike like same children children' →
      List.Forall₂ like rest rest' →
      (add children rest).Rel (Outcome.Alike like same) (add' children' rest'))
    (n : Nat) {children children' : List Child} {rest rest' : List Padded}
    (made : JaiTree.Alike like same children children') (alike : List.Forall₂ like rest rest') :
    Outcome.Alike like same (grown add n children rest) (grown add' n children' rest') := by
  induction n generalizing children children' rest rest' with
  | zero => exact .done made alike
  | succ n ih =>
    have added := h _ _ _ _ made alike
    rw [grown, grown]
    generalize add children rest = outcome at added ⊢
    generalize add' children' rest' = outcome' at added ⊢
    cases added with
    | none => exact .done made alike
    | some more =>
      cases more with
      | done children rest => exact ih children rest
      | failed error rest => exact .failed error rest

end Reading

namespace Form

variable {eof eof' : Padded} {deeper deeper' : Goal → Reading}

/-- What a form makes of alike tokens is alike. -/
theorem read_alike (unseen : Unseen like same) (isEnd : eof.token.kind = .eof)
    (ends : like eof eof')
    (deeper_alike : ∀ goal, Reading.Alike like same (deeper goal) (deeper' goal)) (form : Form)
    {self self' : Reading} (self_alike : Reading.Alike like same self self') :
    Reading.Alike like same (form.read eof deeper self) (form.read eof' deeper' self') := by
  induction form generalizing self self' with
  | empty => exact fun _ _ _ alike => .done .nil alike
  | seq first second ih ih' =>
    exact fun setting _ _ alike =>
      (ih self_alike setting _ _ alike).andThen (ih' self_alike setting)
  | take field =>
    intro _ rest rest' alike
    obtain ⟨first, later⟩ := Reading.next_alike ends alike
    exact .done (.padded first) later
  | expect kind field =>
    intro _ rest rest' alike
    obtain ⟨first, later⟩ := Reading.next_alike ends alike
    rw [read, read, kind_alike unseen (ahead_alike ends alike 0)]
    split
    · exact .done (.padded first) later
    · exact Reading.fail_alike unseen ends alike _
  | refuse cause => exact fun _ _ _ alike => Reading.fail_alike unseen ends alike cause
  | faulty =>
    intro _ rest rest' alike
    obtain ⟨first, later⟩ := Reading.next_alike ends alike
    exact .done (faulty_alike unseen first) later
  | node kind body ih =>
    exact fun setting _ _ alike => (ih self_alike setting _ _ alike).map fun _ _ => .under kind
  | label field body ih =>
    exact fun setting _ _ alike =>
      (ih self_alike setting _ _ alike).map fun _ _ => .labelled (some field)
  | enter goal => exact deeper_alike goal
  | choose look next ih =>
    intro setting rest rest' alike
    rw [read, read, ← Glance.run_alike unseen ends alike isEnd]
    exact ih _ self_alike setting rest rest' alike
  | within scope body ih => exact fun setting => ih self_alike (scope.change setting)
  | fix body ih =>
    intro setting rest rest' alike
    rw [read, read, ← alike.length_eq]
    exact Reading.unrolled_alike (fun _ _ => ih) _ setting rest rest' alike
  | again => exact self_alike
  | grow many first look kind field tail ih ih' =>
    intro setting rest rest' alike
    have head := ih self_alike setting rest rest' alike
    rw [read, read]
    generalize first.read eof deeper self setting rest = outcome at head ⊢
    generalize first.read eof' deeper' self' setting rest' = outcome' at head ⊢
    cases head with
    | failed error after => exact .failed error after
    | @done children children' after after' made behind =>
      dsimp only
      rw [← behind.length_eq]
      refine Reading.grown_alike (fun children children' rest rest' made alike => ?_) _ made behind
      rw [← Glance.run_alike unseen ends alike isEnd]
      cases (look setting).run eof rest with
      | none => exact .none
      | some k =>
        exact .some ((ih' k self_alike setting rest rest' alike).map fun _ _ more =>
          .under (kind k) (.append (made.labelled (field k)) more))
  | lead first look kind tail otherwise ih ih' ih'' =>
    intro setting rest rest' alike
    have head := ih self_alike setting rest rest' alike
    rw [read, read]
    generalize first.read eof deeper self setting rest = outcome at head ⊢
    generalize first.read eof' deeper' self' setting rest' = outcome' at head ⊢
    cases head with
    | failed error after => exact .failed error after
    | @done children children' after after' made behind =>
      dsimp only
      rw [← Glance.run_alike unseen ends behind isEnd]
      cases (look setting).run eof after with
      | none => exact ih'' self_alike setting rest rest' alike
      | some k =>
        exact (ih' k self_alike setting after after' behind).map fun _ _ more =>
          .under (kind k) (.append made more)
  | guard body ih =>
    intro setting rest rest' alike
    have inner := ih self_alike setting rest rest' alike
    rw [read, read]
    generalize body.read eof deeper self setting rest = outcome at inner ⊢
    generalize body.read eof' deeper' self' setting rest' = outcome' at inner ⊢
    cases inner with
    | done children after => exact .done children after
    | failed error _ =>
      obtain ⟨region, after⟩ := Recovery.region_alike unseen alike 0 true
      exact .done (Recovery.node_alike unseen region error) after

end Form

namespace Grammar

variable {eof eof' : Padded}

theorem level_alike (unseen : Unseen like same) (isEnd : eof.token.kind = .eof)
    (ends : like eof eof') (room : Nat) (goal : Goal) :
    Reading.Alike like same (level eof room goal) (level eof' room goal) := by
  induction room generalizing goal with
  | zero => exact fun _ _ _ alike => Reading.fail_alike unseen ends alike _
  | succ room ih =>
    exact goal.form.read_alike unseen isEnd ends ih fun _ _ _ alike => .done .nil alike

end Grammar

end JaiTree
