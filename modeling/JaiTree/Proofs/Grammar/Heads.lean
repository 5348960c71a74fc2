import JaiTree.Proofs.Grammar.Binding
import JaiTree.Proofs.Grammar.Yields

/-!
Heads: the node that an operand or a type is done with, and the parts that the children of a rule
stand in. Main statements: `Grammar.operand_reads`, `Grammar.typeRule_makes`,
`Grammar.growthBody_partsIn`.
-/

namespace JaiTree

/-- Whether what may follow an operand could bind tighter than nodes of the kind do. -/
def NodeKind.isLoose : NodeKind → Bool
  | .binaryExpression | .unaryExpression | .castExpression => true
  | _ => false

/-- The rules of operands: expressions and types. -/
def Goal.IsOperand (goal : Goal) : Prop := goal = .type ∨ ∃ floor, goal = .expression floor

/-- One node in no part, of a kind of the sort. -/
def One (sort : NodeKind → Prop) : Post :=
  fun children _ => ∃ n, children = [.node none n] ∧ sort n.kind

/-- One node in no part, of a kind that binds its parts tightly. -/
def Tight : Post := One fun kind => kind.isLoose = false

/-- All children stand in no part or in one of these. -/
def Within (fields : List Field) : Post :=
  fun children _ => ∀ c ∈ children, ∀ field, c.field? = some field → field ∈ fields

namespace Form

/-- Forms that are done with one node only, of a kind of the sort, if the rules that they may begin
with are. -/
def MakesOne (sort : NodeKind → Prop) (goals : Goal → Prop) : Form → Prop
  | .node kind _ => sort kind
  | .faulty => sort .error
  | .refuse _ => True
  | .enter goal => goals goal
  | .choose look next =>
    ∀ k, (∃ eof setting rest, (look setting).run eof rest = k) → (next k).MakesOne sort goals
  | .within _ body => body.MakesOne sort goals
  | .grow _ first look kind _ _ =>
    first.MakesOne sort goals
      ∧ ∀ k, (∃ eof setting rest, (look setting).run eof rest = some k) → sort (kind k)
  | .lead _ _ kind _ otherwise => (∀ k, sort (kind k)) ∧ otherwise.MakesOne sort goals
  | .guard body => body.MakesOne sort goals ∧ sort .error
  | _ => False

/-- Forms that are done with one node only, of a kind that binds its parts tightly. -/
def Makes (form : Form) : Prop := form.MakesOne (fun kind => kind.isLoose = false) (· = .type)

/-- Forms whose children stand in no part or in one of these, provided that those of `again` do,
which may only stand inside a loop. -/
def PartsIn (fields : List Field) : Form → (inLoop : Bool := false) → Prop
  | .take field, _ | .expect _ field, _ => ∀ f, field = some f → f ∈ fields
  | .seq first second, inLoop => first.PartsIn fields inLoop ∧ second.PartsIn fields inLoop
  | .label field body, inLoop => field ∈ fields ∧ body.PartsIn fields inLoop
  | .enter goal, _ => goal.IsOperand
  | .choose _ next, inLoop => ∀ k, (next k).PartsIn fields inLoop
  | .within _ body, inLoop | .guard body, inLoop => body.PartsIn fields inLoop
  | .fix body, _ => body.PartsIn fields true
  | .again, inLoop => inLoop = true
  | .grow _ first _ _ _ _, inLoop => first.PartsIn fields inLoop
  | .lead _ _ _ _ otherwise, inLoop => otherwise.PartsIn fields inLoop
  | .empty, _ | .refuse _, _ | .faulty, _ | .node _ _, _ => True

variable {eof : Padded} {deeper : Goal → Reading} {self : Reading} {setting : Setting}
  {rest : List Padded} {fields : List Field}

theorem MakesOne.yields {sort : NodeKind → Prop} {goals : Goal → Prop} {form : Form}
    (h : form.MakesOne sort goals)
    (deeper_one : ∀ goal, goals goal →
      ∀ setting rest, (deeper goal setting rest).Yields (One sort)) :
    (form.read eof deeper self setting rest).Yields (One sort) := by
  induction form generalizing setting rest with
  | node kind body _ =>
    rw [read, Outcome.yields_map]
    exact fun children after _ => ⟨_, rfl, h⟩
  | faulty => exact Outcome.yields_done.mpr ⟨_, rfl, h⟩
  | refuse cause => exact Outcome.yields_failed
  | enter goal => exact deeper_one goal h setting rest
  | choose look next ih => exact ih _ (h _ ⟨eof, setting, rest, rfl⟩)
  | within _ body ih => exact ih h
  | grow many first look kind field tail ih _ =>
    refine grow_yields (ih h.1) fun k children rest _ found more after _ => ?_
    exact ⟨_, rfl, h.2 k ⟨eof, setting, rest, found⟩⟩
  | lead first look kind tail otherwise _ _ ih =>
    exact lead_yields (fun _ _ _ => trivial) (fun k _ _ _ _ _ _ _ => ⟨_, rfl, h.1 k⟩) (ih h.2)
  | guard body ih => exact guard_yields (ih h.1) fun _ _ _ => ⟨_, rfl, h.2⟩
  | empty | seq | take | expect | label | fix | again => exact h.elim

theorem Makes.yields {form : Form} (h : form.Makes)
    (types : ∀ setting rest, (deeper .type setting rest).Yields Tight) :
    (form.read eof deeper self setting rest).Yields Tight :=
  MakesOne.yields h fun _ isType => isType ▸ types

theorem within_ofPadded {field : Option Field} {padded : Padded} {after : List Padded}
    (among : ∀ f, field = some f → f ∈ fields) :
    Within fields (Child.ofPadded field padded) after := by
  intro c member f part
  rw [Child.ofPadded, List.mem_append, List.mem_map, List.mem_singleton] at member
  rcases member with ⟨t, -, rfl⟩ | rfl
  · cases part
  · exact among f part

theorem within_node {n : Node} {after : List Padded} : Within fields [.node none n] after := by
  intro c member f part
  rw [List.mem_singleton.mp member] at part
  cases part

theorem PartsIn.yields {form : Form} {inLoop : Bool} (h : form.PartsIn fields inLoop)
    (deeper_single : ∀ goal setting rest, goal.IsOperand →
      (deeper goal setting rest).Yields fun children _ => ∃ n, children = [.node none n])
    (self_within : inLoop = true → ∀ setting rest, (self setting rest).Yields (Within fields)) :
    (form.read eof deeper self setting rest).Yields (Within fields) := by
  induction form generalizing self inLoop setting rest with
  | empty => exact Outcome.yields_done.mpr fun c member => nomatch member
  | seq first second ih ih' =>
    refine (ih h.1 self_within).andThen fun children after head => ?_
    refine (ih' h.2 self_within).imp fun more _ tail c member => ?_
    rcases List.mem_append.mp member with member | member
    · exact head c member
    · exact tail c member
  | take field => exact Outcome.yields_done.mpr (within_ofPadded h)
  | expect kind field =>
    rw [read]
    split
    · exact Outcome.yields_done.mpr (within_ofPadded h)
    · exact Outcome.yields_failed
  | refuse cause => exact Outcome.yields_failed
  | faulty => exact Outcome.yields_done.mpr within_node
  | node kind body _ =>
    rw [read, Outcome.yields_map]
    exact fun children after _ => within_node
  | label field body ih =>
    rw [read, Outcome.yields_map]
    refine (ih h.2 self_within).imp fun children after inner c member f part => ?_
    obtain ⟨old, among, rfl⟩ := List.mem_map.mp member
    cases old with
    | leaf field token => exact inner _ among f part
    | node old n =>
      cases part
      exact h.1
  | enter goal =>
    refine (deeper_single goal setting rest h).imp fun children after single => ?_
    obtain ⟨n, rfl⟩ := single
    exact within_node
  | choose look next ih => exact ih _ (h _) self_within
  | within _ body ih => exact ih h self_within
  | fix body ih =>
    refine @Reading.unrolled_yields _ (fun _ => Within fields) (fun _ c member => nomatch member)
      (fun self holds setting rest => ?_) _ setting rest
    exact ih h fun _ => holds
  | again => exact self_within h setting rest
  | grow many first look kind field tail ih _ =>
    exact grow_yields (ih h self_within) fun k children rest _ found more after _ => within_node
  | lead first look kind tail otherwise _ _ ih =>
    exact lead_yields (fun _ _ _ => trivial) (fun _ _ _ _ _ _ _ _ => within_node)
      (ih h self_within)
  | guard body ih => exact guard_yields (ih h self_within) fun _ _ _ => within_node

namespace PartsIn

variable {body : Form} {inLoop : Bool}

theorem opt {allowed : Sight → Bool} (h : body.PartsIn fields inLoop) :
    (opt allowed body).PartsIn fields inLoop := fun s => by
  dsimp only
  split
  · exact h
  · trivial

theorem many {more : Glance Bool} (h : body.PartsIn fields true) :
    (many more body).PartsIn fields inLoop :=
  fun holds => by
    cases holds
    · trivial
    · exact ⟨h, rfl⟩

theorem token {kind : TokenKind} : (token kind).PartsIn fields inLoop :=
  fun _ part => nomatch part

theorem any : Form.any.PartsIn fields inLoop := fun _ part => nomatch part

theorem items {close : TokenKind} (h : ∀ inLoop, body.PartsIn fields inLoop) :
    (items close body).PartsIn fields inLoop :=
  opt ⟨h inLoop, many ⟨any, opt (h true)⟩⟩

end PartsIn

namespace Makes

theorem choose {κ : Type} {look : Setting → Glance κ} {next : κ → Form}
    (h : ∀ k, (next k).Makes) : (Form.choose look next).Makes := fun k _ => h k

theorem onSight {next : Sight → Form} (h : ∀ s, (next s).Makes) : (onSight next).Makes := choose h

theorem settled {conflict : Conflict} {next : Winner → Form} (h : ∀ w, (next w).Makes) :
    (settled conflict next).Makes := choose h

theorem ifelse {look : Glance Bool} {yes no : Form} (h : yes.Makes) (h' : no.Makes) :
    (ifelse look yes no).Makes := choose fun holds => by cases holds <;> assumption

end Makes

end Form

namespace Grammar

open Form

theorem growth_tight {growth : Growth} (h : ∀ power, growth ≠ .binary power) :
    growth.kind.isLoose = false := by
  cases growth with
  | binary power => exact absurd rfl (h power)
  | member | composite | array | index | call => rfl

theorem procedureType_makes : procedureType.Makes := rfl

theorem primary_makes : primary.Makes := by
  refine .onSight fun s => ?_
  split
  iterate 3 exact rfl
  trivial

theorem parenthesized_makes : parenthesized.Makes := by
  refine .settled fun w => ?_
  split
  · exact procedureType_makes
  · exact rfl

theorem typeOperand_makes : typeOperand.Makes := by
  refine .settled fun w => ?_
  split
  · exact rfl
  · trivial

theorem directive_makes : directive.Makes := by
  refine .onSight fun s => ?_
  split
  · trivial
  · split
    · trivial
    · exact rfl
    · exact rfl

/-- A name that is a type grows by members and arguments only. -/
theorem namedType_makes : namedType.Makes := by
  obtain ⟨look, same, never⟩ := namedType_eq
  rw [same]
  refine ⟨rfl, fun growth ⟨eof, setting, rest, found⟩ => growth_tight fun power binary => ?_⟩
  rw [binary] at found
  exact never eof setting rest power found

theorem identifierType_makes : identifierType.Makes := by
  refine .settled fun w => ?_
  split
  · exact rfl
  · exact .ifelse procedureType_makes namedType_makes

theorem typeRule_makes : typeRule.Makes := by
  refine .onSight fun s => ?_
  split
  · exact identifierType_makes
  · exact rfl
  · exact rfl
  · exact procedureType_makes
  · exact rfl
  · split
    · exact directive_makes
    · trivial
  · trivial

theorem leadingPoint_makes : leadingPoint.Makes := by
  rintro growth ⟨eof, setting, rest, found⟩
  refine growth_tight fun power binary => ?_
  rw [binary] at found
  exact ofPoint_ne_binary found

theorem operandOf_makes (s : Sight) : (operandOf s).Makes ∨ operandOf s = prefixed := by
  rw [operandOf]
  split
  iterate 3 exact .inl primary_makes
  · exact .inl rfl
  · exact .inl rfl
  · exact .inl parenthesized_makes
  · exact .inl leadingPoint_makes
  · exact .inl rfl
  iterate 6 exact .inr rfl
  iterate 2 exact .inl typeOperand_makes
  · exact .inl rfl
  · left
    split
    · exact directive_makes
    · trivial
  · exact .inl trivial

/-- An operand is read as one node that binds its parts tightly, or else as an operator or a cast
with an operand of its own. -/
theorem operand_reads (eof : Padded) (deeper : Goal → Reading) (self : Reading) (setting : Setting)
    (rest : List Padded) : ∃ form : Form,
      operand.read eof deeper self setting rest = form.read eof deeper self setting rest
      ∧ (form.Makes ∨ form = prefixed ∨ form = cast) := by
  have plain (s : Sight) : (operandOf s).Makes ∨ operandOf s = prefixed ∨ operandOf s = cast :=
    (operandOf_makes s).imp id .inl
  rw [operand, onSight, Form.read]
  split
  iterate 3 exact ⟨_, rfl, .inl (.onSight fun s => by split <;> rfl)⟩
  iterate 2
    cases lacks : Glance.lacksOperand.run eof rest with
    | true => exact ⟨_, by rw [Form.ifelse, Form.read, lacks]; rfl, plain _⟩
    | false => exact ⟨cast, by rw [Form.ifelse, Form.read, lacks]; rfl, .inr (.inr rfl)⟩
  iterate 2
    cases lacks : Glance.lacksOperand.run eof rest with
    | true => exact ⟨_, by rw [Form.ifelse, Form.read, lacks]; rfl, plain _⟩
    | false =>
      refine ⟨inlined, by rw [Form.ifelse, Form.read, lacks]; rfl, .inl (.settled fun w => ?_)⟩
      split
      · exact procedureType_makes
      · exact rfl
  · exact ⟨conditionalValue, rfl, .inl rfl⟩
  · exact ⟨_, rfl, plain _⟩

theorem expression_partsIn (fields : List Field) (inLoop : Bool) :
    expression.PartsIn fields inLoop := .inr ⟨_, rfl⟩

/-- What goes on with an operand, but not as a second operand, stands in parts of its own. -/
theorem growthBody_partsIn {growth : Growth} (h : ∀ power, growth ≠ .binary power) :
    (growthBody growth).PartsIn [.member, .index, .arguments] := by
  cases growth with
  | binary power => exact absurd rfl (h power)
  | member => exact ⟨.token, by decide, trivial⟩
  | composite => exact ⟨⟨⟨.token, .token⟩, PartsIn.items fun _ => trivial⟩, .token⟩
  | array => exact ⟨⟨⟨.token, .token⟩, PartsIn.items (expression_partsIn _)⟩, .token⟩
  | index =>
    have bounds : expression.PartsIn [.member, .index, .arguments] := expression_partsIn _ _
    exact ⟨⟨.token, by decide, bounds⟩, .token⟩
  | call => exact ⟨by decide, trivial⟩

theorem expressionList_makes : expressionList.MakesOne (fun _ => True) Goal.IsOperand :=
  ⟨.inr ⟨_, rfl⟩, fun _ _ => trivial⟩

theorem keywordStatement_makes (keyword : Keyword) :
    (keywordStatement keyword).MakesOne (fun _ => True) Goal.IsOperand := by
  rw [keywordStatement.eq_def]
  split
  all_goals first
    | exact trivial
    | exact fun _ _ => trivial

/-- Every statement is done with one node. -/
theorem statementRule_makes : statementRule.MakesOne (fun _ => True) Goal.IsOperand := by
  rintro shape -
  cases shape with
  | annotated => exact ⟨fun _ => trivial, expressionList_makes⟩
  | keyword keyword => exact keywordStatement_makes keyword
  | expressionList => exact expressionList_makes
  | lexicalError | empty | block | importing | load | asm | scope | staticIf | directive
    | operator | declaration shape => exact trivial

end Grammar

end JaiTree
