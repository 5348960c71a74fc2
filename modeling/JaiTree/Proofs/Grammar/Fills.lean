import JaiTree.Proofs.Grammar.Guarded

/-!
Places: which nodes a node of some kind may hold, and in which of its parts. A form fills a place if
the nodes that it makes there may stand in it, and if each node below them is filled likewise.
-/

namespace JaiTree

namespace NodeKind

/-- Whether nodes of the kind may stand in every node and in all of its parts. -/
def isFree : NodeKind → Bool
  | .rangeExpression | .argument | .compositeElement | .parameterDeclaration | .returnType
  | .structMember | .enumMember | .escapeSequence | .stringPlaceholder | .caseStatement => false
  | _ => true

/-- Whether a node may hold another in a part. A range stands where something runs through it, what
a list is made of stands in the list, a piece of a string in the string, and a case in no other
case. -/
def mayHold (parent : NodeKind) (field : Option Field) : NodeKind → Bool
  | .rangeExpression =>
    parent = .forStatement && field = some .range || parent = .arrayAccess && field = some .index
      || parent = .arrayType && field = some .size || parent = .caseStatement && field = some .value
  | .argument => parent = .argumentList
  | .compositeElement => parent = .compositeLiteral
  | .parameterDeclaration => parent = .parameterList
  | .returnType => parent = .returnTypeList
  | .structMember => parent = .structBody
  | .enumMember => parent = .enumBody
  | .escapeSequence | .stringPlaceholder => parent = .stringLiteral
  | .caseStatement => parent ≠ .caseStatement
  | _ => true

theorem mayHold_of_isFree {kind : NodeKind} (free : kind.isFree = true) (parent : NodeKind)
    (field : Option Field) : parent.mayHold field kind = true := by
  unfold isFree at free
  split at free
  iterate 10 cases free
  unfold mayHold
  split
  all_goals first
    | contradiction
    | rfl

/-- Whether all that matters of a node of the kind is what it holds. -/
def isOrdinary (kind : NodeKind) : Bool :=
  kind ≠ .error && kind ≠ .parameterList && kind ≠ .returnTypeList

end NodeKind

/-- The nodes that may stand in a place: their kinds, and the parts that they may be in. -/
structure Place where
  holds : Option Field → NodeKind → Prop
  free : ∀ field kind, kind.isFree = true → holds field kind

namespace Place

/-- All that a node of the kind may hold. -/
def under (kind : NodeKind) : Place :=
  ⟨fun field child => kind.mayHold field child = true,
    fun field _ free => NodeKind.mayHold_of_isFree free kind field⟩

/-- Whatever there is. -/
def anything : Place := ⟨fun _ _ => True, fun _ _ _ => trivial⟩

/-- What may stand everywhere. -/
def operand : Place := ⟨fun _ kind => kind.isFree = true, fun _ _ => id⟩

/-- What may stand everywhere but in a case. -/
def statement : Place :=
  ⟨fun _ kind => kind.isFree = true ∨ kind = .caseStatement, fun _ _ => .inl⟩

/-- Whatever may stand in the one place may stand in the other. -/
def Within (inner outer : Place) : Prop :=
  ∀ field kind, inner.holds field kind → outer.holds field kind

theorem operand_within (outer : Place) : operand.Within outer := outer.free

theorem statement_within {kind : NodeKind} (other : kind ≠ .caseStatement) :
    statement.Within (under kind) := by
  rintro field child (free | rfl)
  · exact (under kind).free field child free
  · exact decide_eq_true other

end Place

/-- The place that a rule fills. -/
def Goal.place : Goal → Place
  | .expression _ | .type => .operand
  | .statement | .blockItems => .statement

namespace Form

/-- A form that fills a place, where `again` fills another. In an enclosed form an error is made out
of a failure between braces only. -/
inductive Fills : (enclosed : Bool) → (loop place : Place) → Form → Prop where
  | empty {e : Bool} {loop place : Place} : Fills e loop place .empty
  | seq {e : Bool} {loop place : Place} {first second : Form} :
      Fills e loop place first → Fills e loop place second →
      Fills e loop place (.seq first second)
  | take {e : Bool} {loop place : Place} {field : Option Field} : Fills e loop place (.take field)
  | expect {e : Bool} {loop place : Place} {kind : TokenKind} {field : Option Field} :
      Fills e loop place (.expect kind field)
  | refuse {e : Bool} {loop place : Place} {cause : Sight → Cause} :
      (∀ s limit, cause s ≠ .nestingTooDeep limit) → Fills e loop place (.refuse cause)
  | faulty {e : Bool} {loop place : Place} : Fills e loop place .faulty
  | under {e : Bool} {loop place : Place} {kind : NodeKind} {body : Form} :
      place.holds none kind → kind.isOrdinary = true → Fills e loop (.under kind) body →
      Fills e loop place (.node kind body)
  | parameters {e : Bool} {loop place : Place} {body : Form} :
      Fills e loop (.under .parameterList) body →
      Fills e loop place (.within .parameters (.node .parameterList body))
  | returns {e : Bool} {loop place : Place} {body : Form} :
      Grammar.returnTypeList = .node .returnTypeList body →
      Fills e loop (.under .returnTypeList) body → Fills e loop place Grammar.returnTypeList
  | part {e : Bool} {loop inner place : Place} {field : Field} {body : Form} :
      (∀ old kind, inner.holds old kind → place.holds (some field) kind) →
      Fills e loop inner body → Fills e loop place (.label field body)
  | enter {e : Bool} {loop place : Place} {goal : Goal} :
      goal.place.Within place → (e = true → goal ≠ .statement) → Fills e loop place (.enter goal)
  | choose {e : Bool} {loop place : Place} {κ : Type} {look : Setting → Glance κ}
      {next : κ → Form} :
      (∀ k, Fills e loop place (next k)) → Fills e loop place (.choose look next)
  | within {e : Bool} {loop place : Place} {scope : Scope} {body : Form} :
      Fills e loop place body → Fills e loop place (.within scope body)
  | fix {e : Bool} {loop place : Place} {body : Form} :
      Fills e place place body → Fills e loop place (.fix body)
  | again {e : Bool} {loop place : Place} : loop.Within place → Fills e loop place .again
  | grow {e many : Bool} {loop place : Place} {κ : Type} {first : Form}
      {look : Setting → Glance (Option κ)} {kind : κ → NodeKind} {field : κ → Option Field}
      {tail : κ → Form} :
      (∀ k, place.holds none (kind k)) → (many = true → ∀ k, (kind k).isFree = true) →
      (∀ k, (kind k).isOrdinary = true) → Fills e loop .operand first →
      (∀ k, Fills e loop (.under (kind k)) (tail k)) →
      Fills e loop place (.grow many first look kind field tail)
  | lead {loop place : Place} {κ : Type} {first otherwise : Form}
      {look : Setting → Glance (Option κ)} {kind : κ → NodeKind} {tail : κ → Form} :
      (∃ body, first = .fix body) → (∀ k, (kind k).isFree = true) →
      (∀ k, (kind k).isOrdinary = true) → Fills true loop .operand first →
      (∀ k, Fills false loop (.under (kind k)) (tail k)) →
      Fills false loop place otherwise →
      Fills false loop place (.lead first look kind tail otherwise)
  | guard {loop place : Place} {body : Form} :
      Fills false loop place body → Fills false loop place (.guard body)
  | cases {loop inner place : Place} :
      Fills false loop inner (Grammar.statements .nextCase) →
      Fills false loop place (Grammar.statements .nextCase)
  | weaken {e : Bool} {loop inner place : Place} {form : Form} :
      inner.Within place → Fills e loop inner form → Fills e loop place form

namespace Fills

variable {e : Bool} {loop place : Place} {kind : NodeKind} {yes no body item : Form}

theorem node (free : kind.isFree = true) (ordinary : kind.isOrdinary = true)
    (h : Fills e loop (.under kind) body) : Fills e loop place (.node kind body) :=
  .under (place.free none kind free) ordinary h

theorem label {field : Field} (h : Fills e loop .operand body) :
    Fills e loop place (.label field body) :=
  .part (fun _ kind => place.free (some field) kind) h

/-- A statement in a part of a node. -/
theorem branch {field : Field} (other : kind ≠ .caseStatement)
    (h : Fills e loop .statement body) : Fills e loop (.under kind) (.label field body) :=
  .part (fun _ => Place.statement_within other (some field)) h

theorem statement (other : kind ≠ .caseStatement) (h : Fills e loop .statement body) :
    Fills e loop (.under kind) body := .weaken (Place.statement_within other) h

theorem onSight {next : Sight → Form} (h : ∀ s, Fills e loop place (next s)) :
    Fills e loop place (onSight next) := .choose h

theorem settled {conflict : Conflict} {next : Winner → Form}
    (h : ∀ w, Fills e loop place (next w)) : Fills e loop place (settled conflict next) := .choose h

theorem ifelse {look : Glance Bool} (h : Fills e loop place yes) (h' : Fills e loop place no) :
    Fills e loop place (ifelse look yes no) := by
  refine .choose fun holds => ?_
  cases holds with
  | true => exact h
  | false => exact h'

theorem opt {allowed : Sight → Bool} (h : Fills e loop place body) :
    Fills e loop place (opt allowed body) := by
  refine .onSight fun s => ?_
  split
  · exact h
  · exact .empty

theorem optToken {kind : TokenKind} : Fills e loop place (optToken kind) := .opt .take

theorem repeats : Fills e loop loop .again := .again fun _ _ => id

theorem many {more : Glance Bool} (h : Fills e place place body) :
    Fills e loop place (many more body) := .fix (.ifelse (.seq h .repeats) .empty)

theorem separated (h : ∀ loop, Fills e loop place item) : Fills e loop place (separated item) :=
  .seq (h _) (.many (.seq .take (h _)))

theorem someItems {close : TokenKind} (h : ∀ loop, Fills e loop place item) :
    Fills e loop place (someItems close item) :=
  .seq (h _) (.many (.seq .take (.opt (h _))))

theorem items {close : TokenKind} (h : ∀ loop, Fills e loop place item) :
    Fills e loop place (items close item) :=
  .opt (.someItems h)

end Fills

end Form

end JaiTree
