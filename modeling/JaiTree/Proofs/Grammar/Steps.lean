import JaiTree.Cursor

/-!
Steps: how a rule that opens a level or a scope moves a cursor. What a rule writes into the cursor it
puts back by a step of its own, and a step that fails ends the rule with the cursor as it stands
then. Main statements: each scope and each level hands on what comes of its part, and puts back what
it has written (`Scope.walk_eq`, `Goal.walk_eq`).
-/

namespace JaiTree

/-- What is about to happen at a moment of a walk. -/
inductive Event where
  /-- A rule that counts as a level is called. -/
  | calls (goal : Goal)
  /-- The rule begins, on the level opened for it. -/
  | begins
  /-- The level is closed. -/
  | closes
  /-- A parameter list is left. -/
  | leaves
deriving Repr, DecidableEq

/-- A moment of a walk, and the cursor as it is then. -/
structure Moment where
  event : Event
  cursor : Cursor

/-- What comes of a walk: children or a diagnostic, the cursor where it ended, and its moments. -/
structure Walked where
  result : Except Diagnostic (List Child)
  cursor : Cursor
  moments : List Moment := []

/-- A way to walk from a cursor on. -/
abbrev Walk := Cursor → Walked

/-- The steps of a rule that counts as a level around its form. The statements of a block are in a
scope of their own inside the level. -/
def Goal.steps : Goal → List Step
  | .expression _ => [.enter, .call, .leave]
  | .type => [.enter, .call, .leave]
  | .statement => [.enter, .call, .leave]
  | .blockItems => [.enter, .call, .leave]

/-- A rule between two of its steps. -/
structure Frame where
  cursor : Cursor
  /-- What an equals sign before a brace meant when that was kept. -/
  kept : Bool := false
  /-- What has come of the part. -/
  result : Except Diagnostic (List Child) := .ok []
  moments : List Moment := []

namespace Frame

/-- Takes a step of a rule around the part, unless the step fails. -/
@[simp]
def take (part : Walk) (frame : Frame) : Step → Except Diagnostic Frame
  | .enter => frame.cursor.open?.map fun cursor =>
    { frame with cursor, moments := frame.moments ++ [⟨.begins, cursor⟩] }
  | .leave => .ok { frame with
    cursor := { frame.cursor with depth := frame.cursor.depth - 1 }
    moments := frame.moments ++ [⟨.closes, frame.cursor⟩] }
  | .save => .ok { frame with kept := frame.cursor.inSwitch }
  | .put inSwitch => .ok { frame with cursor := { frame.cursor with inSwitch } }
  | .restore => .ok { frame with cursor := { frame.cursor with inSwitch := frame.kept } }
  | .openList => .ok { frame with
    cursor := { frame.cursor with parameterDepth := frame.cursor.parameterDepth + 1 } }
  | .closeList => .ok { frame with
    cursor := { frame.cursor with parameterDepth := frame.cursor.parameterDepth - 1 }
    moments := frame.moments ++ [⟨.leaves, frame.cursor⟩] }
  | .call =>
    let walked := part frame.cursor
    .ok { frame with
      cursor := walked.cursor
      result := walked.result
      moments := frame.moments ++ walked.moments }
  | .check => frame.result.map fun _ => frame

/-- Takes steps one after another. One that fails ends the rule where it stands. -/
@[simp]
def run (part : Walk) (frame : Frame) : List Step → Walked
  | [] => ⟨frame.result, frame.cursor, frame.moments⟩
  | step :: steps =>
    match frame.take part step with
    | .error error => ⟨.error error, frame.cursor, frame.moments⟩
    | .ok frame => frame.run part steps

end Frame

namespace Walk

/-- The walk of a scope, given the walk of its part. -/
def within (scope : Scope) (part : Walk) : Walk := fun cursor =>
  Frame.run part { cursor } scope.steps

/-- The walk of a rule that counts as a level, given the walk of its form. -/
def inLevel (goal : Goal) (part : Walk) : Walk := fun cursor =>
  Frame.run part { cursor, moments := [⟨.calls goal, cursor⟩] } goal.steps

end Walk

/-- How many parameter lists a scope opens. -/
def Scope.lists (scope : Scope) : Nat := scope.steps.count .openList

/-- The cursor that the part in a scope is called with. -/
def Cursor.inside (scope : Scope) (cursor : Cursor) : Cursor :=
  { cursor with
    inSwitch := (scope.change cursor.setting).inSwitch
    parameterDepth := cursor.parameterDepth + scope.lists }

variable (part : Walk) (cursor : Cursor)

/-- A scope hands on what comes of its part, and whatever that is, it puts back what it has written:
what an equals sign before a brace meant is kept aside, and a parameter list is counted off. -/
theorem Scope.walk_eq (scope : Scope) :
    let walked := part (cursor.inside scope)
    Walk.within scope part cursor =
      { result := walked.result
        cursor := { walked.cursor with
          inSwitch := cursor.inSwitch
          parameterDepth := walked.cursor.parameterDepth - scope.lists }
        moments := walked.moments ++ List.replicate scope.lists ⟨.leaves, walked.cursor⟩ } := by
  intro walked
  have called : part (cursor.inside scope) = walked := rfl
  rcases walked with ⟨result, after, moments⟩
  cases scope with
  | block =>
    change part { cursor with inSwitch := false } = _ at called
    simp [Walk.within, Scope.steps, Scope.lists, called]
  | parameters =>
    change part { cursor with
      inSwitch := false, parameterDepth := cursor.parameterDepth + 1 } = _ at called
    simp [Walk.within, Scope.steps, Scope.lists, called]
  | parentheses | literal | index | arguments =>
    change part { cursor with inSwitch := false } = _ at called
    -- The check comes last, where all is put back already.
    cases result <;> simp [Walk.within, Scope.steps, Scope.lists, called, Except.map]
  | condition =>
    change part { cursor with inSwitch := true } = _ at called
    cases result <;> simp [Walk.within, Scope.steps, Scope.lists, called, Except.map]

/-- A check before what was kept is put back lets a failure out with what was put. -/
example (error : Diagnostic) : (Frame.run (fun cursor => ⟨.error error, cursor, []⟩) { cursor }
    [.save, .put false, .call, .check, .restore]).cursor = { cursor with inSwitch := false } := rfl

/-- A level hands on what comes of its form, and closes what it has opened. -/
theorem Goal.walk_eq (goal : Goal) (room : cursor.depth < Grammar.maxNesting) :
    let inner := { cursor with depth := cursor.depth + 1 }
    let walked := part inner
    Walk.inLevel goal part cursor =
      { result := walked.result
        cursor := { walked.cursor with depth := walked.cursor.depth - 1 }
        moments := [⟨.calls goal, cursor⟩, ⟨.begins, inner⟩] ++ walked.moments
          ++ [⟨.closes, walked.cursor⟩] } := by
  intro inner walked
  have opened : cursor.open? = .ok inner := if_pos room
  cases goal with
  | expression | type | statement | blockItems =>
    simp [Walk.inLevel, Goal.steps, opened, Except.map, walked]

/-- Where as many levels are open as are followed, a level fails and opens none. -/
theorem Goal.walk_full (goal : Goal) (full : cursor.depth = Grammar.maxNesting) :
    Walk.inLevel goal part cursor =
      { result := .error ⟨.nestingTooDeep Grammar.maxNesting, (cursor.peek 0).token.start⟩
        cursor
        moments := [⟨.calls goal, cursor⟩] } := by
  have closed : cursor.open? = .error ⟨.nestingTooDeep Grammar.maxNesting,
      (cursor.peek 0).token.start⟩ := if_neg (Nat.not_lt.mpr (Nat.le_of_eq full.symm))
  cases goal with
  | expression | type | statement | blockItems =>
    simp [Walk.inLevel, Goal.steps, closed, Except.map]

end JaiTree
