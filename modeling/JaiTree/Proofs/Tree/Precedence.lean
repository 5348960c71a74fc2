import JaiTree.Proofs.Grammar.Forward
import JaiTree.Proofs.Tree.Lossless
import JaiTree.Proofs.Tree.Ordered

/-!
Precedence: operands bind at least as tightly as the operators around them. Main statement:
`parse_ordered`.
-/

namespace JaiTree

/-- One node in no part, of operators that bind tighter than the floor. -/
def Above (eof : Padded) (floor : Power) (setting : Setting) : Post := fun children rest =>
  ∃ n, children = [.node none n] ∧ n.Ends eof setting rest
    ∧ (n.kind = .binaryExpression → ∃ power, n.power? = some power ∧ floor.rank < power.rank)

/-- The rules one level deeper make one node each for an expression and for a type, and go on with
an expression as long as something binds tighter than its floor. -/
structure Heads (eof : Padded) (deeper : Goal → Reading) : Prop where
  expression : ∀ floor setting rest, (deeper (.expression floor) setting rest).Yields
    fun children after => Above eof floor setting children after ∧ Closed eof floor setting after
  type : ∀ setting rest, (deeper .type setting rest).Yields Tight

theorem Heads.single {eof : Padded} {deeper : Goal → Reading} (heads : Heads eof deeper)
    (goal : Goal) (setting : Setting) (rest : List Padded) (operand : goal.IsOperand) :
    (deeper goal setting rest).Yields fun children _ => ∃ n, children = [.node none n] := by
  rcases operand with rfl | ⟨floor, rfl⟩
  · exact (heads.type setting rest).imp fun _ _ ⟨n, single, _⟩ => ⟨n, single⟩
  · exact (heads.expression floor setting rest).imp fun _ _ ⟨⟨n, single, _⟩, _⟩ => ⟨n, single⟩

variable {eof : Padded} {deeper : Goal → Reading} {self : Reading} {setting : Setting}
  {rest : List Padded} {floor power : Power} {growth : Growth} {n : Node}

section Operators

open Grammar

/-- An operator, and an operand of operators that bind tighter than it. -/
theorem binary_yields (heads : Heads eof deeper) :
    ((growthBody (.binary power)).read eof deeper self setting rest).Yields fun more after =>
      ∃ right, more = Child.ofPadded (some .operator) (ahead eof rest 0)
          ++ [.node (some .right) right]
        ∧ (right.kind = .binaryExpression →
          ∃ p, right.power? = some p ∧ power.rank < p.rank)
        ∧ Closed eof power setting after := by
  change (Outcome.andThen (.done _ (Reading.next eof rest).2) fun rest =>
    (deeper (.expression power) setting rest).map _).Yields _
  rw [Outcome.andThen_done, Outcome.yields_map, Outcome.yields_map]
  refine (heads.expression power setting _).imp fun children after ⟨above, closed⟩ => ?_
  obtain ⟨right, rfl, -, tighter⟩ := above
  exact ⟨right, congrArg (Child.ofPadded _ · ++ _) (Reading.next_fst eof rest), tighter, closed⟩

/-- An operand and what goes on with it bind tightly enough in what they make up, and it ends as an
operand does. -/
theorem growth_yields (heads : Heads eof deeper)
    (found : (Growth.next floor setting).run eof rest = some growth)
    (ends : n.Ends eof setting rest) :
    ((growthBody growth).read eof deeper self setting rest).Yields fun more after =>
      ∃ whole, Child.under growth.kind (Child.labelled (some growth.field) [.node none n] ++ more)
          = [.node none whole]
        ∧ whole.Ordered ∧ whole.Ends eof setting after
        ∧ (whole.kind = .binaryExpression →
          ∃ power, whole.power? = some power ∧ floor.rank < power.rank) := by
  obtain ⟨power, binds, tighter, ⟨rfl, looser⟩ | ⟨other, -⟩⟩ := Growth.power_of_next found
  · refine (binary_yields heads).imp fun more after ⟨right, parts, above, closed⟩ => ?_
    subst parts
    have spelled : (Node.joined n (ahead eof rest 0) right).power? = some power := by
      rw [Node.power?_joined, binds]
    refine ⟨.joined n (ahead eof rest 0) right, rfl, ⟨fun _ => ?_, nofun, nofun, nofun⟩,
      ⟨fun _ => ⟨power, spelled, looser, closed⟩, by rintro (no | no) <;> cases no⟩,
      fun _ => ⟨power, spelled, tighter⟩⟩
    refine ⟨power, n, right, spelled, Node.inField_joined, Node.inField_joined, ?_, above⟩
    intro kind
    obtain ⟨p, found', -, before⟩ := ends.binary kind
    exact ⟨p, found', before.rank_le found binds⟩
  · refine ((growthBody_partsIn other).yields heads.single nofun).imp fun more after within => ?_
    have tight := growth_tight other
    refine ⟨_, rfl, Node.ordered_growth other (fun field part member => ?_) within,
      Node.ends_of_tight tight, fun binary => ?_⟩
    · cases List.mem_singleton.mp member
      exact ends.tight found other
    · rw [show growth.kind = _ from binary] at tight
      cases tight

/-- An operand of an operator that stands before it. -/
theorem unary_yields (heads : Heads eof deeper) (field : Field) :
    ((Form.label field unary).read eof deeper self setting rest).Yields fun children after =>
      ∃ n, children = [.node (some field) n] ∧ n.kind ≠ .binaryExpression
        ∧ Closed eof .unary setting after := by
  rw [Form.read, Outcome.yields_map]
  refine (heads.expression .unary setting rest).imp ?_
  rintro _ after ⟨⟨n, rfl, ends, tighter⟩, closed⟩
  refine ⟨n, rfl, fun kind => ?_, closed⟩
  obtain ⟨power, spelled, looser, -⟩ := ends.binary kind
  obtain ⟨power', spelled', above⟩ := tighter kind
  cases spelled.symm.trans spelled'
  omega

/-- An operator before its operand. -/
theorem prefixed_yields (heads : Heads eof deeper) :
    (prefixed.read eof deeper self setting rest).Yields fun children after =>
      ∃ n, children = [.node none n] ∧ n.kind = .unaryExpression ∧ n.Ordered
        ∧ Closed eof .unary setting after := by
  change (Outcome.map _ (Outcome.andThen (.done _ (Reading.next eof rest).2) _)).Yields _
  rw [Outcome.andThen_done, Outcome.yields_map, Outcome.yields_map]
  refine (unary_yields heads .operand).imp ?_
  rintro _ after ⟨n, rfl, operand, closed⟩
  have sign : Within [.operator]
      (Child.ofPadded (some .operator) (Reading.next eof rest).1) after :=
    Form.within_ofPadded fun f same => by
      cases same
      decide
  exact ⟨_, rfl, rfl, Node.ordered_prefixed sign (by decide) operand, closed⟩

/-- A cast, its value behind all that says to which type. -/
theorem cast_yields (heads : Heads eof deeper) :
    (Grammar.cast.read eof deeper self setting rest).Yields fun children after =>
      ∃ n, children = [.node none n] ∧ n.kind = .castExpression ∧ n.Ordered
        ∧ Closed eof .unary setting after := by
  have head (s : Sight) : Form.PartsIn [.type]
      (if s.isWord .castWord then
        Form.any ++ Form.many atCastModifier (Form.any ++ Form.any) ++ Form.token .openParen
          ++ .label .type type ++ Form.token .closeParen
      else Form.any) := by
    split
    · exact ⟨⟨⟨⟨.any, .many ⟨.any, .any⟩⟩, .token⟩, by decide, .inl rfl⟩, .token⟩
    · exact .any
  rw [Grammar.cast, Form.read, Outcome.yields_map]
  refine ((head _).yields heads.single fun loop => by cases loop).andThen
    fun before rest within => ?_
  refine (unary_yields heads .value).imp ?_
  rintro _ after ⟨n, rfl, value, closed⟩
  exact ⟨_, rfl, rfl, Node.ordered_cast within (by decide) value, closed⟩

/-- An operand is one node, which ends as an operand does under any floor. -/
theorem operand_yields (heads : Heads eof deeper) :
    (operand.read eof deeper self setting rest).Yields (Above eof floor setting) := by
  obtain ⟨form, same, makes | rfl | rfl⟩ := operand_reads eof deeper self setting rest
  · rw [same]
    refine (makes.yields heads.type).imp fun children after ⟨n, single, tight⟩ => ?_
    refine ⟨n, single, Node.ends_of_tight tight, fun kind => ?_⟩
    rw [kind] at tight
    cases tight
  · rw [same]
    refine (prefixed_yields heads).imp fun children after ⟨n, single, kind, _, closed⟩ => ?_
    refine ⟨n, single, ⟨fun other => ?_, fun _ => closed⟩, fun other => ?_⟩
    all_goals cases kind.symm.trans other
  · rw [same]
    refine (cast_yields heads).imp fun children after ⟨n, single, kind, _, closed⟩ => ?_
    refine ⟨n, single, ⟨fun other => ?_, fun _ => closed⟩, fun other => ?_⟩
    all_goals cases kind.symm.trans other

end Operators

/-- The rules one level deeper make ordered nodes. -/
structure Sorted (eof : Padded) (deeper : Goal → Reading) : Prop extends Heads eof deeper where
  ordered : ∀ goal setting rest, (deeper goal setting rest).Yields AllOrdered

section Rules

open Grammar

/-- An expression is put together of operands that bind tightly enough. -/
theorem expressionRule_yields (heads : Heads eof deeper)
    (first : (operand.read eof deeper self setting rest).Yields AllOrdered)
    (tails : ∀ growth rest,
      ((growthBody growth).read eof deeper self setting rest).Yields AllOrdered) :
    ((expressionRule floor).read eof deeper self setting rest).Yields fun children after =>
      Above eof floor setting children after ∧ AllOrdered children after := by
  refine Form.grow_yields ((operand_yields heads).and first)
    fun growth children rest holds found => ?_
  obtain ⟨⟨n, single, ends, -⟩, parts⟩ := holds
  refine ((growth_yields heads found ends).and (tails growth rest)).imp fun more after holds => ?_
  obtain ⟨⟨whole, same, ordered, ends, tighter⟩, added⟩ := holds
  subst single
  cases same
  exact ⟨⟨_, rfl, ends, tighter⟩, allOrdered_under ordered (allOrdered_append
    (allOrdered_labelled parts) added)⟩

/-- A literal or a member with nothing before its point holds no operand that goes on in it. -/
theorem leadingPoint_yields (heads : Heads eof deeper)
    (bodies : ∀ growth, ((growthBody growth).read eof deeper self setting rest).Yields AllOrdered) :
    (leadingPoint.read eof deeper self setting rest).Yields AllOrdered := by
  have other (power : Power) : Growth.ofPoint.run eof rest ≠ .binary power := ofPoint_ne_binary
  change (Outcome.map _ ((growthBody (Growth.ofPoint.run eof rest)).read eof deeper self setting
    rest)).Yields _
  rw [Outcome.yields_map]
  refine (((growthBody_partsIn other).yields heads.single nofun).and (bodies _)).imp
    fun children after ⟨within, parts⟩ => ?_
  exact allOrdered_under (@Node.ordered_growth _ other [] children after nofun within) parts

/-- A name that is a type, and what makes it one. -/
theorem namedType_yields (heads : Heads eof deeper)
    (first : (identifier.read eof deeper self setting rest).Yields AllOrdered)
    (tails : ∀ growth rest,
      ((growthBody growth).read eof deeper self setting rest).Yields AllOrdered) :
    (namedType.read eof deeper self setting rest).Yields AllOrdered := by
  obtain ⟨look, same, never⟩ := namedType_eq
  have head : (identifier.read eof deeper self setting rest).Yields Tight :=
    Form.Makes.yields rfl heads.type
  rw [same]
  refine (Form.grow_yields (head.and first) fun growth children rest holds found => ?_).imp
    fun _ _ holds => holds.2
  obtain ⟨⟨n, single, tight⟩, parts⟩ := holds
  have other (power : Power) : growth ≠ .binary power := fun binary =>
    never eof setting rest power (binary ▸ found)
  refine (((growthBody_partsIn other).yields heads.single nofun).and (tails growth rest)).imp
    fun more after ⟨within, added⟩ => ?_
  refine ⟨⟨_, rfl, growth_tight other⟩, allOrdered_under (Node.ordered_growth other ?_ within)
    (allOrdered_append (allOrdered_labelled parts) added)⟩
  subst single
  intro field part member
  cases List.mem_singleton.mp member
  exact tight

/-- A node of an operator, around ordered parts. -/
theorem node_yields {kind : NodeKind} {body : Form}
    (whole : ((Form.node kind body).read eof deeper self setting rest).Yields fun children _ =>
      ∃ n, children = [.node none n] ∧ n.Ordered)
    (parts : (body.read eof deeper self setting rest).Yields AllOrdered) :
    ((Form.node kind body).read eof deeper self setting rest).Yields AllOrdered := by
  rw [Form.read, Outcome.yields_map] at whole ⊢
  refine (whole.and parts).imp ?_
  rintro children after ⟨⟨n, single, ordered⟩, parts⟩
  cases single
  exact allOrdered_under ordered parts

end Rules

/-- A guarded form makes ordered nodes, when the rules one level deeper and `again` do. -/
theorem Form.Guarded.ordered {moved m g : Bool} {known left : Known} {form : Form}
    {a b : List Delimiter} {spot : Spot} (sorted : Sorted eof deeper)
    (h : Guarded eof moved known form m left a b spot g)
    (self_ordered : ∀ setting rest, (self setting rest).Yields AllOrdered) :
    (form.read eof deeper self setting rest).Yields AllOrdered := by
  induction h generalizing self setting rest with
  | empty => exact Outcome.yields_done.mpr (allOrdered_nil _)
  | seq _ _ ih ih' =>
    exact (ih self_ordered).andThen fun children after parts =>
      (ih' self_ordered).imp fun more after added => allOrdered_append parts added
  | takes => exact Outcome.yields_done.mpr (allOrdered_ofPadded _ _)
  | expects =>
    rw [read]
    split
    · exact Outcome.yields_done.mpr (allOrdered_ofPadded _ _)
    · exact Outcome.yields_failed
  | refuse => exact Outcome.yields_failed
  | faulty => exact Outcome.yields_done.mpr (allOrdered_node rfl (descendantsOf_faulty _))
  | under fits _ ih =>
    cases fits with
    | node sound =>
      rw [read, Outcome.yields_map]
      exact (ih self_ordered).imp fun children after =>
        allOrdered_under (Node.ordered_of_not_isOperation (NodeKind.not_isOperation sound))
    | framed frames =>
      rw [read, Outcome.yields_map]
      exact (ih self_ordered).imp fun children after =>
        allOrdered_under (Node.ordered_of_not_isOperation frames.not_isOperation)
    | prefixed =>
      refine node_yields ((prefixed_yields sorted.toHeads).imp ?_) (ih self_ordered)
      rintro _ _ ⟨n, single, -, ordered, -⟩
      exact ⟨n, single, ordered⟩
    | cast =>
      refine node_yields ((cast_yields sorted.toHeads).imp ?_) (ih self_ordered)
      rintro _ _ ⟨n, single, -, ordered, -⟩
      exact ⟨n, single, ordered⟩
  | leadingPoint _ ih =>
    exact leadingPoint_yields sorted.toHeads fun growth => ih growth self_ordered
  | label _ ih =>
    rw [read, Outcome.yields_map]
    exact (ih self_ordered).imp fun _ _ parts => allOrdered_labelled parts
  | enter _ => exact sorted.ordered _ setting rest
  | changed _ => exact sorted.ordered _ _ rest
  | choose _ ih => exact ih _ self_ordered
  | within _ _ ih => exact ih self_ordered
  | fix _ ih =>
    exact Reading.unrolled_yields allOrdered_nil (fun self holds setting rest => ih holds) _
      setting rest
  | again => exact self_ordered setting rest
  | growing _ fits _ ih ih' =>
    cases fits with
    | framed frames => cases frames
    | grow sound =>
      refine grow_yields (ih self_ordered) fun k children rest parts _ => ?_
      exact (ih' k self_ordered).imp fun more after added => allOrdered_under
        (Node.ordered_of_not_isOperation (NodeKind.not_isOperation (sound k)))
        (allOrdered_append (allOrdered_labelled parts) added)
    | expression floor =>
      exact (expressionRule_yields sorted.toHeads (ih self_ordered) fun growth rest =>
        ih' growth self_ordered).imp fun _ _ holds => holds.2
    | namedType =>
      exact namedType_yields sorted.toHeads (ih self_ordered) fun growth rest =>
        ih' growth self_ordered
  | lead _ sound _ _ ih ih' ih'' =>
    refine lead_yields (ih self_ordered) (fun k children after parts _ => ?_) (ih'' self_ordered)
    exact (ih' k self_ordered).imp fun more after added => allOrdered_under
      (Node.ordered_of_not_isOperation (NodeKind.not_isOperation (sound k)))
      (allOrdered_append parts added)
  | guard _ _ ih =>
    exact guard_yields (ih self_ordered) fun error region after =>
      allOrdered_node rfl (descendantsOf_region error region)
  | group _ _ ih | inside _ ih => exact ih self_ordered
  | weaken _ _ _ _ _ ih => exact ih self_ordered

namespace Grammar

section

variable (isEnd : eof.token.kind = .eof)
include isEnd

/-- What goes on with an operand is guarded. -/
theorem next_guarded (floor : Power) (setting : Setting) (growth : Growth) :
    Form.Guarded eof false (fun rest => (Growth.next floor setting).run eof rest = some growth)
      (growthBody growth) true fun _ => True := by
  refine growthBody_guarded isEnd fun power binary => Form.ready_of_kind isEnd fun rest next => ?_
  rw [binary] at next
  exact proper_of_binary next

/-- An expression goes on as long as something binds tighter than its floor. -/
theorem expressionRule_stops {deeper : Goal → Reading}
    (deeper_covers : ∀ goal setting rest,
      Outcome.Covers eof goal.moves (fun _ => True) rest (deeper goal setting rest)) :
    ((expressionRule floor).read eof deeper nothing setting rest).Yields
      fun _ after => Closed eof floor setting after := by
  have shorter {form : Form} {known : Known} (rest : List Padded) (knows : known rest)
      (guarded : Form.Guarded eof false known form true fun _ => True) :
      (form.read eof deeper nothing setting rest).Yields
        fun _ after => after.length < rest.length := by
    intro children after ended
    have covers := guarded.covers isEnd deeper_covers (fun _ _ _ => .nothing trivial) setting rest
      knows (Nat.le_refl _) nofun
    exact (ended ▸ covers).length_lt
  have head := shorter rest trivial (operand_safe isEnd)
  exact Form.grow_stops (head.imp fun _ _ => Nat.le_of_lt) fun growth rest _ found =>
    shorter rest found (next_guarded isEnd floor setting growth)

theorem level_sorted (room : Nat) : Sorted eof (level eof room) := by
  induction room with
  | zero =>
    exact ⟨⟨fun _ _ _ => Outcome.yields_failed, fun _ _ => Outcome.yields_failed⟩,
      fun _ _ _ => Outcome.yields_failed⟩
  | succ room ih =>
    have nothing_ordered (setting : Setting) (rest : List Padded) :
        (nothing setting rest).Yields AllOrdered := Outcome.yields_done.mpr (allOrdered_nil _)
    have operands : Form.Safe eof true operand := operand_safe isEnd
    refine ⟨⟨fun floor setting rest => .and ?_ ?_, fun _ _ => typeRule_makes.yields ih.type⟩,
      fun goal setting rest => (goal.form_safe isEnd).ordered ih nothing_ordered⟩
    · exact (expressionRule_yields ih.toHeads (operands.ordered ih nothing_ordered)
        fun growth rest => (next_guarded isEnd floor setting growth).ordered ih nothing_ordered).imp
        fun _ _ holds => holds.1
    · exact expressionRule_stops isEnd (level_covers isEnd room)

/-- A statement is one node. -/
theorem level_statement (room : Nat) (setting : Setting) (rest : List Padded) :
    (level eof room .statement setting rest).Yields (One fun _ => True) := by
  cases room with
  | zero => exact Outcome.yields_failed
  | succ room =>
    refine statementRule_makes.yields fun goal operand setting rest => ?_
    exact ((level_sorted isEnd room).toHeads.single goal setting rest operand).imp
      fun _ _ ⟨n, single⟩ => ⟨n, single, trivial⟩

theorem statements_ordered (room : Nat) (setting : Setting) (rest : List Padded) :
    (read eof room (statements .endOfInput) setting rest).Yields AllOrdered := by
  rw [Grammar.read, statements, Form.read]
  refine @Reading.unrolled_yields _ (fun _ => AllOrdered) allOrdered_nil
    (fun self holds setting rest => ?_) _ setting rest
  rw [Form.read]
  split
  · exact Outcome.yields_done.mpr (allOrdered_nil _)
  · refine Outcome.Yields.andThen (Outcome.yields_done.mpr (allOrdered_ofPadded none _)) ?_
    exact fun _ after parts => (holds setting after).imp fun _ _ => allOrdered_append parts
  · refine Outcome.Yields.andThen (Form.guard_yields ((level_sorted isEnd room).ordered .statement
      setting rest) fun error region after =>
        allOrdered_node rfl (descendantsOf_region error region)) ?_
    exact fun _ after parts => (holds setting after).imp fun _ _ => allOrdered_append parts

theorem sourceFile_ordered (room : Nat) (setting : Setting) (rest : List Padded) :
    (read eof room sourceFile setting rest).Yields AllOrdered := by
  change (Outcome.map _ (Outcome.andThen (read eof room (statements .endOfInput) setting rest)
    _)).Yields _
  rw [Outcome.yields_map]
  refine (statements_ordered isEnd room setting rest).andThen fun children after parts => ?_
  exact Outcome.yields_done.mpr (allOrdered_under (Node.ordered_of_not_isOperation rfl)
    (allOrdered_append parts (allOrdered_ofPadded none _)))

end

end Grammar

/-- In the tree of any text, what stands to the right of an operator between two operands binds
tighter than the operator, and what stands to its left at least as tightly; what an operator or a
cast stands before is no operation of two operands; and an operand that goes on, by a member, an
element, arguments or a literal of its type, is none of these. An operand is read up to where
nothing goes on with it, and so is the last operand in it: that is why the next operator, which goes
on with the whole, cannot bind tighter than those inside. -/
theorem parse_ordered (text : String) : ∀ n ∈ (parse text).root.descendants, n.Ordered := by
  obtain ⟨-, -, -, ended⟩ := parse_built text
  have ordered := Grammar.sourceFile_ordered (Cursor.isEnd_ofText text) Grammar.maxNesting
    (Cursor.ofText text).setting (Cursor.ofText text).tokens
  rw [ended, Outcome.yields_done, AllOrdered] at ordered
  intro n member
  refine ordered n ?_
  rw [descendantsOf, Child.descendants]
  exact List.mem_append_left _ member

/-- A tree in which an operator between two operands stands over another. -/
theorem parse_ordered_operators :
    ∃ n ∈ (parse "a + b * c;").root.descendants,
      n.kind = .binaryExpression ∧ n.power? = some .additive ∧ n.Ordered := by
  have found : ((parse "a + b * c;").root.descendants.any fun n =>
      n.kind = .binaryExpression ∧ n.power? = some .additive) = true := by decide +kernel
  obtain ⟨n, member, sort⟩ := List.any_eq_true.mp found
  obtain ⟨kind, power⟩ := of_decide_eq_true sort
  exact ⟨n, member, kind, power, parse_ordered _ n member⟩

end JaiTree
