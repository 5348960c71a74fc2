import JaiTree.Proofs.Tree.Produced

/-!
Chains of conditions: a conditional statement is read arm by arm, each arm from a place of its own
and with as many levels as the first. Whether the statements that are still open are kept on a stack
or each arm reads those behind it, the same comes of it.

Main statement: `Grammar.conditional_chain`.
-/

namespace JaiTree

open Grammar

/-- A statement that is still open: its kind, and the children that it has so far. -/
structure OpenStatement where
  kind : NodeKind
  children : List Child

namespace OpenStatement

/-- The statement that a word begins behind `else`. -/
def ofWord (word : Padded) : OpenStatement := ⟨.ifStatement, Child.ofPadded none word⟩

/-- The statement with some more children. -/
def extend (statement : OpenStatement) (more : List Child) : OpenStatement :=
  ⟨statement.kind, statement.children ++ more⟩

/-- The statement as it is. -/
def close (statement : OpenStatement) : List Child :=
  Child.under statement.kind statement.children

/-- The statement with another one for when its condition does not hold. -/
def closeOver (statement : OpenStatement) (alternative : List Child) : List Child :=
  (statement.extend (Child.labelled (some .alternative) alternative)).close

theorem closeOver_extend (statement : OpenStatement) (children alternative : List Child) :
    (statement.extend children).closeOver alternative
      = (statement.extend (children ++ Child.labelled (some .alternative) alternative)).close := by
  rw [closeOver, extend, extend, extend, List.append_assoc]

/-- A statement closed under all that are open around it, the innermost of them first. -/
def closeAll (enclosing : List OpenStatement) (children : List Child) : List Child :=
  enclosing.foldl (fun children statement => statement.closeOver children) children

/-- A statement as the alternative of the last of those before it, and each of these as the
alternative of the one before it. -/
def nest (before : List OpenStatement) (children : List Child) : List Child :=
  before.foldr closeOver children

end OpenStatement

/-- What an arm of a chain comes to. -/
inductive Arm where
  /-- No other arm follows. -/
  | last (outcome : Outcome)
  /-- Another arm follows the children, from the word for a condition on. -/
  | next (children : List Child) (rest : List Padded)

/-- Whether another arm follows here, and neither a block nor any other statement. -/
def Glance.continues (setting : Setting) : Glance Bool := do
  if (← Conflict.statementIf.decide setting.inParameters) = .statement then atElseIf
  else return false

/-- The arm with children in front of its own. -/
def Arm.prepend (children : List Child) : Arm → Arm
  | .last outcome => .last (outcome.map (children ++ ·))
  | .next more rest => .next (children ++ more) rest

/-- The rest of an arm from where a reading is done. -/
def Arm.behind (outcome : Outcome) (next : List Padded → Arm) : Arm :=
  match outcome with
  | .done children rest => (next rest).prepend children
  | .failed error rest => .last (.failed error rest)

/-- The reading of one arm: its condition, and then its cases or what happens when it holds. What
stands behind the last `else` belongs to the last arm. -/
def Arm.read (eof : Padded) (deeper : Goal → Reading) (setting : Setting) (rest : List Padded) :
    Arm :=
  .behind (Form.read eof deeper (.label .condition (.within .condition expression)) nothing setting
    rest) fun rest =>
  if atCases.run eof rest then
    .last (Form.read eof deeper (.take (some .operator) ++ .label .consequence block) nothing
      setting rest)
  else
    .behind (Form.read eof deeper (optWord .thenWord ++ .label .consequence (body .statementIf))
      nothing setting rest) fun rest =>
    if (ahead eof rest 0).sight.isWord .elseWord then
      .behind (Form.any.read eof deeper nothing setting rest) fun rest =>
      if (Glance.continues setting).run eof rest then
        .next [] rest
      else
        .last (Form.read eof deeper (.label .alternative (body .statementIf)) nothing setting rest)
    else
      .last (.done [] rest)

/-- A turn of the rule behind the word for a condition. -/
def Grammar.conditionalTurn : Form :=
  .label .condition (.within .condition expression)
    ++ Form.ifelse atCases
      (.take (some .operator) ++ .label .consequence block)
      (optWord .thenWord ++ .label .consequence (body .statementIf)
        ++ Form.opt (Sight.isWord .elseWord) (Form.any ++ elseBranch))

section

variable {eof : Padded} {deeper : Goal → Reading} {self : Reading} {setting : Setting}
  {rest after : List Padded} {self' : List Padded → Outcome}

/-- What comes of an arm, when `self` reads what stands behind the word of the arm after it. -/
def Arm.outcome (eof : Padded) (self : List Padded → Outcome) : Arm → Outcome
  | .last outcome => outcome
  | .next children rest =>
    (self (Reading.next eof rest).2).map fun parts =>
      children ++ Child.labelled (some .alternative)
        ((OpenStatement.ofWord (Reading.next eof rest).1).extend parts).close

theorem Arm.outcome_prepend (children : List Child) (arm : Arm) :
    (arm.prepend children).outcome eof self' = (arm.outcome eof self').map (children ++ ·) := by
  cases arm with
  | last outcome => rfl
  | next more rest =>
    rw [prepend, outcome, outcome]
    cases self' (Reading.next eof rest).2 with
    | done parts after => rw [Outcome.map, Outcome.map, Outcome.map, List.append_assoc]
    | failed error after => rfl

theorem Arm.outcome_behind (outcome : Outcome) (next : List Padded → Arm) :
    (Arm.behind outcome next).outcome eof self'
      = outcome.andThen fun rest => (next rest).outcome eof self' := by
  cases outcome with
  | done children rest => rw [behind, outcome_prepend, Outcome.andThen_done]
  | failed error rest => rfl

theorem Arm.outcome_ite {c : Prop} [Decidable c] (yes no : Arm) :
    (if c then yes else no).outcome eof self'
      = if c then yes.outcome eof self' else no.outcome eof self' := by
  split
  all_goals rfl

/-- Behind the word for a condition stands a block or any other statement. -/
theorem statementIf_run (inside : Bool) :
    (Conflict.statementIf.decide inside).run eof rest
      = if (ahead eof rest 0).token.kind = .openCurly then .block else .statement := by
  change (Winner.onKind .openCurly .block .statement).run eof rest = _
  rw [Winner.run_onKind, Winner.either]
  simp only [decide_eq_true_eq]

/-- A block or another statement ends the chain, and another word for a condition does not. -/
theorem elseBranch_read :
    elseBranch.read eof deeper self setting rest
      = if (Glance.continues setting).run eof rest then
          (Arm.next [] rest).outcome eof (self setting)
        else
          (Form.label .alternative (body .statementIf)).read eof deeper nothing setting rest := by
  change (Form.settled _ _).read eof deeper self setting rest
    = if _ then _ else ((Form.settled _ _).read eof deeper nothing setting rest).map _
  rw [Form.settled, Form.read, Form.settled, Form.read, Glance.continues, Glance.run_bind,
    Glance.run_ite, Glance.run_pure, statementIf_run]
  by_cases braced : (ahead eof rest 0).token.kind = .openCurly
  · rw [if_pos braced]
    rfl
  · rw [if_neg braced, if_pos rfl]
    change (Form.ifelse _ _ _).read eof deeper self setting rest = _
    rw [Form.ifelse, Form.read]
    split
    · change (((Outcome.done (Child.ofPadded none (Reading.next eof rest).1)
        (Reading.next eof rest).2).andThen (self setting)).map (Child.under .ifStatement)).map
          (Child.labelled (some .alternative)) = _
      rw [Outcome.andThen_done, Arm.outcome]
      cases self setting (Reading.next eof rest).2
      all_goals rfl
    · rfl

/-- A turn of the rule reads one arm, and leaves what follows it to the turns behind it. -/
theorem conditionalTurn_read :
    conditionalTurn.read eof deeper self setting rest
      = (Arm.read eof deeper setting rest).outcome eof (self setting) := by
  have closed : (optWord .thenWord ++ .label .consequence (body .statementIf)).Closed :=
    ⟨Form.closed_opt trivial, body_closed .statementIf⟩
  have parts (rest : List Padded) :
      Form.read eof deeper (optWord .thenWord ++ .label .consequence (body .statementIf)) self
        setting rest = _ := Form.read_closed closed self nothing setting rest
  rw [Arm.read, Arm.outcome_behind]
  refine congrArg (Outcome.andThen _) (funext fun rest => ?_)
  rw [Arm.outcome_ite, Arm.outcome_behind, Form.ifelse, Form.read]
  split
  · rfl
  · refine (congrArg (Outcome.andThen · _) (parts rest)).trans ?_
    refine congrArg (Outcome.andThen _) (funext fun rest => ?_)
    rw [Arm.outcome_ite, Arm.outcome_behind, Form.opt, Form.onSight, Form.read, Glance.run_tokenAt]
    split
    · refine congrArg (Outcome.andThen _) (funext fun rest => ?_)
      rw [Arm.outcome_ite]
      exact elseBranch_read
    · rfl

variable {enclosing before : List OpenStatement} {current last : OpenStatement}
  {children : List Child} {place : List Padded} {outcome own : Outcome}

/-- The loop over the arms. The statements that are still open are kept, the innermost first, and
closed over one another when no arm follows. -/
inductive Loops (eof : Padded) (deeper : Goal → Reading) (setting : Setting) :
    List OpenStatement → OpenStatement → List Padded → Outcome → Prop where
  | last {enclosing : List OpenStatement} {current : OpenStatement} {rest : List Padded}
      {outcome : Outcome} :
      Arm.read eof deeper setting rest = .last outcome →
      Loops eof deeper setting enclosing current rest
        (outcome.map fun children =>
          OpenStatement.closeAll enclosing (current.extend children).close)
  | next {enclosing : List OpenStatement} {current : OpenStatement} {rest after : List Padded}
      {children : List Child} {outcome : Outcome} :
      Arm.read eof deeper setting rest = .next children after →
      Loops eof deeper setting (current.extend children :: enclosing)
        (.ofWord (Reading.next eof after).1) (Reading.next eof after).2 outcome →
      Loops eof deeper setting enclosing current rest outcome

/-- The recursion over the arms: behind `else` another conditional statement is read as a whole, and
becomes the alternative of this one. -/
inductive Recurses (eof : Padded) (deeper : Goal → Reading) (setting : Setting) :
    OpenStatement → List Padded → Outcome → Prop where
  | last {current : OpenStatement} {rest : List Padded} {outcome : Outcome} :
      Arm.read eof deeper setting rest = .last outcome →
      Recurses eof deeper setting current rest
        (outcome.map fun children => (current.extend children).close)
  | next {current : OpenStatement} {rest after : List Padded} {children : List Child}
      {outcome : Outcome} :
      Arm.read eof deeper setting rest = .next children after →
      Recurses eof deeper setting (.ofWord (Reading.next eof after).1) (Reading.next eof after).2
        outcome →
      Recurses eof deeper setting current rest (outcome.map (current.extend children).closeOver)

/-- The arms of a chain up to some place: the statements that are open before it, in order of the
text, and the one that its arm belongs to. -/
inductive Arms (eof : Padded) (deeper : Goal → Reading) (setting : Setting) :
    OpenStatement → List Padded → List OpenStatement → OpenStatement → List Padded → Prop where
  | here {current : OpenStatement} {rest : List Padded} :
      Arms eof deeper setting current rest [] current rest
  | next {current last : OpenStatement} {rest after place : List Padded} {children : List Child}
      {before : List OpenStatement} :
      Arm.read eof deeper setting rest = .next children after →
      Arms eof deeper setting (.ofWord (Reading.next eof after).1) (Reading.next eof after).2 before
        last place →
      Arms eof deeper setting current rest (current.extend children :: before) last place

theorem Outcome.map_map (f g : List Child → List Child) (outcome : Outcome) :
    (outcome.map f).map g = outcome.map fun children => g (f children) := by
  cases outcome
  all_goals rfl

/-- A loop that begins with open statements closes them over what it comes to without them. -/
theorem loops_iff : Loops eof deeper setting enclosing current rest outcome
    ↔ ∃ inner, Recurses eof deeper setting current rest inner
      ∧ outcome = inner.map (OpenStatement.closeAll enclosing) := by
  constructor
  · intro loops
    induction loops with
    | last read => exact ⟨_, .last read, (Outcome.map_map _ _ _).symm⟩
    | next read _ ih =>
      obtain ⟨inner, recurses, rfl⟩ := ih
      refine ⟨_, .next read recurses, ?_⟩
      rw [Outcome.map_map]
      rfl
  · rintro ⟨inner, recurses, rfl⟩
    induction recurses generalizing enclosing with
    | last read =>
      rw [Outcome.map_map]
      exact .last read
    | next read _ ih =>
      rw [Outcome.map_map]
      exact .next read ih

/-- What a recursion comes to is what its last arm comes to, under the statements of all arms before
it. -/
theorem Recurses.arms (recurses : Recurses eof deeper setting current rest outcome) :
    ∃ before last place own, Arms eof deeper setting current rest before last place
      ∧ Arm.read eof deeper setting place = .last own
      ∧ outcome = own.map fun children =>
        OpenStatement.nest before (last.extend children).close := by
  induction recurses with
  | last read => exact ⟨_, _, _, _, .here, read, rfl⟩
  | next read _ ih =>
    obtain ⟨before, last, place, own, arms, ends, rfl⟩ := ih
    exact ⟨_, last, place, own, .next read arms, ends, Outcome.map_map _ _ _⟩

/-- Where another arm follows, all that stands before it has been read. -/
theorem Arm.behind_eq_next {outcome : Outcome} {next : List Padded → Arm}
    (found : Arm.behind outcome next = .next children after) :
    ∃ front middle more, outcome = .done front middle ∧ next middle = .next more after := by
  cases outcome with
  | failed error rest => cases found
  | done front middle =>
    rw [behind] at found
    cases last : next middle with
    | last outcome =>
      rw [last] at found
      cases found
    | next more rest =>
      rw [last] at found
      cases found
      exact ⟨front, middle, more, rfl, last⟩

end

section

variable {eof : Padded} {setting : Setting} {rest after : List Padded} {children : List Child}
  {current : OpenStatement} {outcome : Outcome} {room : Nat}

theorem Grammar.read_length_le {form : Form} (ended : form.read eof (level eof room) nothing setting
    rest = .done children after) : after.length ≤ rest.length := by
  have suffix := read_suffix eof room form setting rest
  rw [Grammar.read, ended] at suffix
  exact suffix.length_le

variable (isEnd : eof.token.kind = .eof)
include isEnd

/-- Another arm begins past the word that brings it. -/
theorem Arm.next_shorter
    (read : Arm.read eof (level eof room) setting rest = .next children after) :
    (Reading.next eof after).2.length < rest.length := by
  obtain ⟨_, middle, _, condition, read⟩ := behind_eq_next read
  have front := read_length_le condition
  split at read
  · cases read
  obtain ⟨_, behind, _, parts, read⟩ := behind_eq_next read
  have parts := read_length_le parts
  split at read
  · next word =>
    obtain ⟨_, last, _, taken, read⟩ := behind_eq_next read
    split at read
    · cases read
      have later := (Reading.next_suffix eof after).length_le
      have kind := Sight.kind_of_isWord word
      cases behind with
      | nil => cases isEnd.symm.trans kind
      | cons t ts =>
        cases taken
        rw [List.length_cons] at parts
        omega
    · cases read
  · cases read

theorem recurses_exists (current : OpenStatement) (rest : List Padded) :
    ∃ outcome, Recurses eof (level eof room) setting current rest outcome := by
  induction short : rest.length using Nat.strong_induction_on generalizing current rest with
  | _ n ih =>
    cases read : Arm.read eof (level eof room) setting rest with
    | last outcome => exact ⟨_, .last read⟩
    | next children after =>
      obtain ⟨outcome, recurses⟩ := ih _ (short ▸ Arm.next_shorter isEnd read) _ _ rfl
      exact ⟨_, .next read recurses⟩

/-- Turns that are as many as there are tokens come to what the recursion does. -/
theorem Recurses.unrolled (recurses : Recurses eof (level eof room) setting current rest outcome)
    {n : Nat} (enough : rest.length < n) :
    outcome = (Reading.unrolled (fun self => conditionalTurn.read eof (level eof room) self) n
      setting rest).map fun children => (current.extend children).close := by
  induction recurses generalizing n with
  | last read =>
    obtain ⟨n, rfl⟩ : ∃ k, n = k + 1 := ⟨n - 1, by omega⟩
    rw [Reading.unrolled, conditionalTurn_read, read, Arm.outcome]
  | next read _ ih =>
    obtain ⟨n, rfl⟩ : ∃ k, n = k + 1 := ⟨n - 1, by omega⟩
    have shorter := Arm.next_shorter isEnd read
    rw [Reading.unrolled, conditionalTurn_read, read, Arm.outcome, @ih n (by omega),
      Outcome.map_map, Outcome.map_map]
    simp only [OpenStatement.closeOver_extend]

theorem recurses_iff : Recurses eof (level eof room) setting current rest outcome
    ↔ outcome = (Grammar.read eof room conditional setting rest).map fun children =>
        (current.extend children).close := by
  have comes_to {outcome : Outcome}
      (recurses : Recurses eof (level eof room) setting current rest outcome) :
      outcome = (Grammar.read eof room conditional setting rest).map fun children =>
        (current.extend children).close := recurses.unrolled isEnd (Nat.lt_succ_self _)
  refine ⟨comes_to, fun same => ?_⟩
  obtain ⟨other, recurses⟩ : ∃ outcome,
      Recurses eof (level eof room) setting current rest outcome :=
    recurses_exists isEnd current rest
  rwa [same, ← comes_to recurses]

/-- Behind the word for a condition, the loop that keeps the open statements of a chain comes to
what the recursion does, and both to what the grammar reads: the same node or the same diagnostic,
at the same place. The statements of a chain stand in one another with the last arm innermost, their
leaves in order of the text; and all arms are read with as many levels as the first, so that the
chain fails only where one of its arms does. -/
theorem Grammar.conditional_chain (room : Nat) (setting : Setting) (rest : List Padded)
    (current : OpenStatement) :
    (∀ outcome, Loops eof (level eof room) setting [] current rest outcome
      ↔ Recurses eof (level eof room) setting current rest outcome)
    ∧ (∀ outcome, Recurses eof (level eof room) setting current rest outcome
      ↔ outcome = (read eof room conditional setting rest).map fun children =>
          (current.extend children).close)
    ∧ (∃ before last place own, Arms eof (level eof room) setting current rest before last place
      ∧ Arm.read eof (level eof room) setting place = .last own
      ∧ (read eof room conditional setting rest).map (fun children =>
          (current.extend children).close)
        = own.map fun children => OpenStatement.nest before (last.extend children).close)
    ∧ (∀ children after, read eof room conditional setting rest = .done children after →
      ∃ taken, rest = taken ++ after ∧ leavesOf (current.extend children).close
        = leavesOf current.children ++ taken.flatMap Padded.tokens)
    ∧ (∀ error after, read eof room conditional setting rest = .failed error after →
      ∃ before last place, Arms eof (level eof room) setting current rest before last place
        ∧ Arm.read eof (level eof room) setting place = .last (.failed error after)) := by
  have recurses : Recurses eof (level eof room) setting current rest
      ((read eof room conditional setting rest).map fun children =>
        (current.extend children).close) := (recurses_iff isEnd).mpr rfl
  obtain ⟨before, last, place, own, arms, ends, same⟩ := recurses.arms
  refine ⟨fun outcome => ?_, fun outcome => recurses_iff isEnd,
    ⟨before, last, place, own, arms, ends, same⟩, fun children after ended => ?_,
    fun error after failed => ⟨before, last, place, arms, ?_⟩⟩
  · rw [loops_iff]
    have alone (inner : Outcome) : inner.map (OpenStatement.closeAll []) = inner := by
      cases inner
      all_goals rfl
    simp only [alone, exists_eq_right']
  · have covers := read_covers isEnd (conditional_safe isEnd) room setting rest
    rw [ended] at covers
    cases covers with
    | done taken split built =>
      refine ⟨taken, split, ?_⟩
      rw [OpenStatement.close, leavesOf_under, OpenStatement.extend, leavesOf_append, built.leaves]
  · rw [failed] at same
    cases own with
    | done children rest => cases same
    | failed error rest =>
      cases same
      exact ends

end

/-- A chain of two arms behind the head that is decided before the program runs, taken as a whole by
the loop. -/
theorem Grammar.conditional_chain_static : ∃ outcome,
    Loops (Cursor.ofText "#if a b; else if c d; else e;").eof
      (level (Cursor.ofText "#if a b; else if c d; else e;").eof maxNesting) ⟨false, false⟩ []
      ⟨.directiveStatement,
        Child.ofPadded none ((Cursor.ofText "#if a b; else if c d; else e;").peek 0)⟩
      ((Cursor.ofText "#if a b; else if c d; else e;").rest.drop 1) outcome
    ∧ outcome.left = [] := by
  have chain := conditional_chain (Cursor.isEnd_ofText "#if a b; else if c d; else e;") maxNesting
    ⟨false, false⟩ ((Cursor.ofText "#if a b; else if c d; else e;").rest.drop 1)
    ⟨.directiveStatement,
      Child.ofPadded none ((Cursor.ofText "#if a b; else if c d; else e;").peek 0)⟩
  refine ⟨_, (chain.1 _).mpr ((chain.2.1 _).mpr rfl), ?_⟩
  rw [Outcome.left_map, ← List.isEmpty_iff]
  decide +kernel

end JaiTree
