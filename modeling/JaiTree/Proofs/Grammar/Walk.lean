import JaiTree.Proofs.Grammar.Forward
import JaiTree.Proofs.Grammar.Steps

/-!
Walks: a form read by moving one cursor. The rules that open a level or a scope take their steps one
after another, and what happens on the way is kept as a list of moments. A walk comes to what the
reading of its form comes to (`Cursor.walk_follows`).
-/

namespace JaiTree

namespace Walked

/-- The same walk with other children. -/
def map (f : List Child → List Child) (walked : Walked) : Walked :=
  { walked with result := walked.result.map f }

/-- Another walk from where this one ended, unless it failed. -/
def bind (walked : Walked) (next : List Child → Walk) : Walked :=
  match walked.result with
  | .error _ => walked
  | .ok children =>
    let after := next children walked.cursor
    { after with moments := walked.moments ++ after.moments }

end Walked

namespace Cursor

/-- Moves the place past the next token; nothing comes after the end. -/
def advance (cursor : Cursor) : Cursor :=
  if cursor.position < cursor.tokens.length then
    { cursor with position := cursor.position + 1 }
  else
    cursor

/-- Moves the place back to where another cursor is. -/
def rewind (start cursor : Cursor) : Cursor := { cursor with position := start.position }

end Cursor

namespace Walk

/-- A walk that takes nothing. -/
def nothing : Walk := fun cursor => ⟨.ok [], cursor, []⟩

/-- A walk that takes the next token. -/
def take (made : Padded → List Child) : Walk := fun cursor =>
  ⟨.ok (made (cursor.peek 0)), cursor.advance, []⟩

/-- A walk that fails at the next token. -/
def fail (cause : Sight → Cause) : Walk := fun cursor =>
  ⟨.error ⟨cause (cursor.peek 0).sight, (cursor.peek 0).token.start⟩, cursor, []⟩

/-- A walk that goes on as itself up to a number of times. -/
def unrolled (step : Walk → Walk) : Nat → Walk
  | 0 => nothing
  | n + 1 => step (unrolled step n)

/-- Children that grow up to a number of times, as long as there is something to add. -/
def grown (add : List Child → Cursor → Option Walked) : Nat → List Child → Walk
  | 0, children, cursor => ⟨.ok children, cursor, []⟩
  | n + 1, children, cursor =>
    match add children cursor with
    | none => ⟨.ok children, cursor, []⟩
    | some walked => walked.bind (grown add n)

/-- A walk, or a region under an error node from where it began if it fails. -/
def guard (walk : Walk) : Walk := fun cursor =>
  let walked := walk cursor
  match walked.result with
  | .ok _ => walked
  | .error error =>
    let start := cursor.rewind walked.cursor
    let (region, rest) := Recovery.region 0 true start.rest
    ⟨.ok [.node none (Recovery.node error region)], start.leaving rest, walked.moments⟩

end Walk

/-- The walk of a form, given the walks of the rules that count as levels, and what `again` stands
for. -/
def Form.walk (enter : Goal → Walk) : Form → Walk → Walk
  | .empty, _ => Walk.nothing
  | .seq first second, self => fun cursor =>
    (first.walk enter self cursor).bind fun children after =>
      (second.walk enter self after).map (children ++ ·)
  | .take field, _ => Walk.take (Child.ofPadded field)
  | .expect kind field, _ => fun cursor =>
    if (cursor.peek 0).token.kind = kind then
      Walk.take (Child.ofPadded field) cursor
    else
      Walk.fail (fun s => .expectedToken kind.text s.described) cursor
  | .refuse cause, _ => Walk.fail cause
  | .faulty, _ => Walk.take fun t => [.node none (.faulty t)]
  | .node kind body, self => fun cursor => (body.walk enter self cursor).map (Child.under kind)
  | .label field body, self => fun cursor =>
    (body.walk enter self cursor).map (Child.labelled field)
  | .enter goal, _ => enter goal
  | .choose look next, self => fun cursor =>
    (next (cursor.glance (look cursor.setting))).walk enter self cursor
  | .within scope body, self => Walk.within scope (body.walk enter self)
  | .fix body, _ => fun cursor =>
    Walk.unrolled (fun self => body.walk enter self) (cursor.rest.length + 1) cursor
  | .again, self => self
  | .grow many first look kind field tail, self => fun cursor =>
    (first.walk enter self cursor).bind fun children after =>
      let add (children : List Child) (cursor : Cursor) : Option Walked :=
        (cursor.glance (look cursor.setting)).map fun k =>
          ((tail k).walk enter self cursor).map fun more =>
            Child.under (kind k) (Child.labelled (field k) children ++ more)
      Walk.grown add (if many then after.rest.length + 1 else 1) children after
  | .lead first look kind tail otherwise, self => fun cursor =>
    (first.walk enter self cursor).bind fun children after =>
      match after.glance (look after.setting) with
      | some k =>
        ((tail k).walk enter self after).map fun more => Child.under (kind k) (children ++ more)
      | none => otherwise.walk enter self (cursor.rewind after)
  | .guard body, self => Walk.guard (body.walk enter self)

/-- The walk of a rule that counts as a level, where so many more levels can be opened. -/
def Grammar.walkLevel : Nat → Goal → Walk
  | 0, goal => Walk.inLevel goal Walk.nothing
  | room + 1, goal => Walk.inLevel goal (goal.form.walk (walkLevel room) Walk.nothing)

/-- Walks a form from the cursor on. -/
def Cursor.walk (form : Form) (cursor : Cursor) : Walked :=
  form.walk (Grammar.walkLevel (Grammar.maxNesting - cursor.depth)) Walk.nothing cursor

end JaiTree
