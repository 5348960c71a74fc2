import JaiTree.Grammar.Form
import JaiTree.Grammar.Recovery

/-!
Readings: what a form makes of a list of tokens. All forms are read by one recursion, which only
`take`, `expect`, `faulty` and a recovered `guard` let past a token.
-/

namespace JaiTree

/-- What comes of a form: the children it made and the tokens after them, or a diagnostic and the
tokens from where it failed. -/
inductive Outcome where
  | done (children : List Child) (rest : List Padded)
  | failed (error : Diagnostic) (rest : List Padded)

/-- A way to read tokens in a setting. -/
abbrev Reading := Setting → List Padded → Outcome

namespace Outcome

/-- Another reading from where this one is done, its children after those of this one. -/
def andThen (outcome : Outcome) (next : List Padded → Outcome) : Outcome :=
  match outcome with
  | .done children rest =>
    match next rest with
    | .done more rest => .done (children ++ more) rest
    | .failed error rest => .failed error rest
  | .failed error rest => .failed error rest

/-- The same outcome with other children. -/
def map (f : List Child → List Child) : Outcome → Outcome
  | .done children rest => .done (f children) rest
  | .failed error rest => .failed error rest

end Outcome

namespace Reading

/-- The next token and those after it; nothing comes after the end. -/
def next (eof : Padded) : List Padded → Padded × List Padded
  | [] => (eof, [])
  | t :: ts => (t, ts)

/-- A failure at the next token. -/
def fail (eof : Padded) (cause : Sight → Cause) (rest : List Padded) : Outcome :=
  let t := ahead eof rest 0
  .failed ⟨cause t.sight, t.token.start⟩ rest

/-- A reading that goes on as itself up to a number of times. -/
def unrolled (step : Reading → Reading) : Nat → Reading
  | 0, _, rest => .done [] rest
  | n + 1, setting, rest => step (unrolled step n) setting rest

/-- Children that grow up to a number of times, as long as there is something to add. -/
def grown (add : List Child → List Padded → Option Outcome) :
    Nat → List Child → List Padded → Outcome
  | 0, children, rest => .done children rest
  | n + 1, children, rest =>
    match add children rest with
    | none => .done children rest
    | some (.done children rest) => grown add n children rest
    | some (.failed error rest) => .failed error rest

end Reading

/-- The children under a node of the kind. -/
def Child.under (kind : NodeKind) (children : List Child) : List Child :=
  [.node none (.sound kind children)]

/-- The children, those that are nodes in a part if one is given. -/
def Child.labelled (field : Option Field) (children : List Child) : List Child :=
  match field with
  | some field => children.map (Child.relabel field)
  | none => children

namespace Form

/-- The reading of a form, given the end of the tokens, the readings one level deeper, and what
`again` stands for. -/
def read (eof : Padded) (deeper : Goal → Reading) : Form → Reading → Reading
  | .empty, _, _, rest => .done [] rest
  | .seq first second, self, setting, rest =>
    (first.read eof deeper self setting rest).andThen fun rest =>
      second.read eof deeper self setting rest
  | .take field, _, _, rest =>
    let (t, rest) := Reading.next eof rest
    .done (Child.ofPadded field t) rest
  | .expect kind field, _, _, rest =>
    if (ahead eof rest 0).token.kind = kind then
      let (t, rest) := Reading.next eof rest
      .done (Child.ofPadded field t) rest
    else
      Reading.fail eof (fun s => .expectedToken kind.text s.described) rest
  | .refuse cause, _, _, rest => Reading.fail eof cause rest
  | .faulty, _, _, rest =>
    let (t, rest) := Reading.next eof rest
    .done [.node none (.faulty t)] rest
  | .node kind body, self, setting, rest =>
    (body.read eof deeper self setting rest).map (Child.under kind)
  | .label field body, self, setting, rest =>
    (body.read eof deeper self setting rest).map (Child.labelled field)
  | .enter goal, _, setting, rest => deeper goal setting rest
  | .choose look next, self, setting, rest =>
    (next ((look setting).run eof rest)).read eof deeper self setting rest
  | .within scope body, self, setting, rest => body.read eof deeper self (scope.change setting) rest
  -- Every turn takes a token, so there are as many turns as tokens and one to stop at.
  | .fix body, _, setting, rest =>
    Reading.unrolled (fun self => body.read eof deeper self) (rest.length + 1) setting rest
  | .again, self, setting, rest => self setting rest
  | .grow many first look kind field tail, self, setting, rest =>
    match first.read eof deeper self setting rest with
    | .failed error rest => .failed error rest
    | .done children rest =>
      let add (children : List Child) (rest : List Padded) : Option Outcome :=
        ((look setting).run eof rest).map fun k =>
          ((tail k).read eof deeper self setting rest).map fun more =>
            Child.under (kind k) (Child.labelled (field k) children ++ more)
      Reading.grown add (if many then rest.length + 1 else 1) children rest
  | .lead first look kind tail otherwise, self, setting, rest =>
    match first.read eof deeper self setting rest with
    | .failed error rest => .failed error rest
    | .done children after =>
      match (look setting).run eof after with
      | some k =>
        ((tail k).read eof deeper self setting after).map fun more =>
          Child.under (kind k) (children ++ more)
      | none => otherwise.read eof deeper self setting rest
  | .guard body, self, setting, rest =>
    match body.read eof deeper self setting rest with
    | .done children rest => .done children rest
    | .failed error _ =>
      let (region, rest) := Recovery.region 0 true rest
      .done [.node none (Recovery.node error region)] rest

end Form

end JaiTree
