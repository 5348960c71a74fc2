import JaiTree.Proofs.Grammar.Heads
import JaiTree.Proofs.Tree.Built

/-!
Ordered nodes: nodes whose parts bind at least as tightly as they do, and what an operand ends with
for it to be such a part.
-/

namespace JaiTree

/-- The token that the child is. -/
def Child.token? : Child → Option Token
  | .leaf _ token => some token
  | .node _ _ => none

/-- The part that an operand stands in which goes on in nodes of the kind. -/
def NodeKind.extended? : NodeKind → Option Field
  | .memberAccess => some .object
  | .arrayAccess => some .array
  | .functionCall => some .function
  | .compositeLiteral | .arrayLiteral => some .type
  | _ => none

theorem NodeKind.isOperation_of_extended? {kind : NodeKind} {field : Field}
    (which : kind.extended? = some field) : kind.isOperation = true := by
  unfold extended? at which
  split at which
  iterate 5 exact rfl
  cases which

namespace Node

/-- The operator of the node. -/
def operator? (n : Node) : Option Token := (n.inField .operator).findSome? Child.token?

/-- How tightly the operator of the node binds. -/
def power? (n : Node) : Option Power := n.operator?.bind fun t => t.kind.power?

/-- The parts of the node bind at least as tightly as the node itself: those to the right of an
operator tighter than the operator. -/
structure Ordered (n : Node) : Prop where
  binary : n.kind = .binaryExpression → ∃ power left right, n.power? = some power
    ∧ n.inField .left = [.node (some .left) left] ∧ n.inField .right = [.node (some .right) right]
    ∧ (left.kind = .binaryExpression → ∃ p, left.power? = some p ∧ power.rank ≤ p.rank)
    ∧ (right.kind = .binaryExpression → ∃ p, right.power? = some p ∧ power.rank < p.rank)
  prefixed : n.kind = .unaryExpression → ∃ operand,
    n.inField .operand = [.node (some .operand) operand] ∧ operand.kind ≠ .binaryExpression
  cast : n.kind = .castExpression → ∃ value,
    n.inField .value = [.node (some .value) value] ∧ value.kind ≠ .binaryExpression
  extended : ∀ field part, n.kind.extended? = some field → .node (some field) part ∈ n.children →
    part.kind.isLoose = false

/-- What an operand ends with: after an operator's own operand nothing follows that would have gone
on with that one. -/
structure Ends (eof : Padded) (setting : Setting) (rest : List Padded) (n : Node) : Prop where
  binary : n.kind = .binaryExpression →
    ∃ power, n.power? = some power ∧ power.rank < Power.unary.rank ∧ Closed eof power setting rest
  prefixed : n.kind = .unaryExpression ∨ n.kind = .castExpression →
    Closed eof .unary setting rest

end Node

/-- An operator between two operands. -/
def Node.joined (left : Node) (operator : Padded) (right : Node) : Node :=
  .sound .binaryExpression
    (.node (some .left) left :: (Child.ofPadded (some .operator) operator
      ++ [.node (some .right) right]))

section Parts

variable {field other : Field} {padded : Padded} {children : List Child} {left right : Node}

theorem filter_ofPadded :
    (Child.ofPadded (some other) padded).filter (fun c => c.field? = some field)
      = if other = field then [.leaf (some other) padded.token] else [] := by
  have none (ts : List Token) :
      (ts.map (Child.leaf none)).filter (fun c => c.field? = some field) = [] := by
    rw [List.filter_eq_nil_iff]
    intro c member
    obtain ⟨t, -, rfl⟩ := List.mem_map.mp member
    simp [Child.field?]
  rw [Child.ofPadded, List.filter_append, none, List.nil_append]
  split
  · next same => simp [Child.field?, same]
  · next ne => simp [Child.field?, ne]

/-- Children that stand in other parts are not found in a part. -/
theorem filter_of_within {fields : List Field} {after : List Padded}
    (within : Within fields children after) (out : field ∉ fields) :
    children.filter (fun c => c.field? = some field) = [] := by
  rw [List.filter_eq_nil_iff]
  intro c member part
  exact out (within c member field (of_decide_eq_true part))

/-- A node behind children that stand in other parts is all that its part holds. -/
theorem Node.inField_behind {kind : NodeKind} {fields : List Field} {after : List Padded} {n : Node}
    (within : Within fields children after) (out : field ∉ fields) :
    (Node.sound kind (children ++ [.node (some field) n])).inField field
      = [.node (some field) n] := by
  rw [inField, sound, Node.children, List.filter_append, filter_of_within within out]
  simp [Child.field?]

/-- An operator before an operand that is no operation of two. -/
theorem Node.ordered_prefixed {fields : List Field} {after : List Padded} {n : Node}
    (within : Within fields children after) (out : .operand ∉ fields)
    (operand : n.kind ≠ .binaryExpression) :
    (Node.sound .unaryExpression (children ++ [.node (some .operand) n])).Ordered where
  binary same := nomatch same
  prefixed _ := ⟨n, inField_behind within out, operand⟩
  cast same := nomatch same
  extended _ _ which := nomatch which

/-- A cast before a value that is no operation of two operands. -/
theorem Node.ordered_cast {fields : List Field} {after : List Padded} {n : Node}
    (within : Within fields children after) (out : .value ∉ fields)
    (value : n.kind ≠ .binaryExpression) :
    (Node.sound .castExpression (children ++ [.node (some .value) n])).Ordered where
  binary same := nomatch same
  prefixed same := nomatch same
  cast _ := ⟨n, inField_behind within out, value⟩
  extended _ _ which := nomatch which

theorem Node.inField_joined : (Node.joined left padded right).inField field
    = (if field = .left then [.node (some .left) left] else [])
      ++ (if field = .operator then [.leaf (some .operator) padded.token] else [])
      ++ (if field = .right then [.node (some .right) right] else []) := by
  have node (f : Field) (n : Node) : [Child.node (some f) n].filter (fun c => c.field? = some field)
      = if field = f then [.node (some f) n] else [] := by
    by_cases same : f = field
    · simp [Child.field?, same]
    · simp [Child.field?, same, Ne.symm same]
  rw [joined, inField, sound, Node.children, ← List.singleton_append, List.filter_append,
    List.filter_append, node, node, filter_ofPadded, List.append_assoc]
  simp only [eq_comm]

theorem Node.power?_joined :
    (Node.joined left padded right).power? = padded.token.kind.power? := by
  rw [power?, operator?, inField_joined]
  rfl

end Parts

variable {eof : Padded} {setting : Setting} {rest : List Padded} {floor : Power}
  {growth : Growth} {n : Node}

/-- Nodes of neither operators nor what an operand goes on with are ordered. -/
theorem Node.ordered_of_not_isOperation (plain : n.kind.isOperation = false) : n.Ordered := by
  refine ⟨fun same => ?_, fun same => ?_, fun same => ?_, fun field part which => ?_⟩
  iterate 3
    rw [same] at plain
    cases plain
  rw [NodeKind.isOperation_of_extended? which] at plain
  cases plain

/-- Nodes of no operators are ordered, if a part that goes on in them binds its parts tightly. -/
theorem Node.ordered_of_tight {kind : NodeKind} {children : List Child}
    (tight : kind.isLoose = false)
    (extended : ∀ field part, kind.extended? = some field →
      .node (some field) part ∈ children → part.kind.isLoose = false) :
    (Node.sound kind children).Ordered where
  binary same := by
    rw [show kind = _ from same] at tight
    cases tight
  prefixed same := by
    rw [show kind = _ from same] at tight
    cases tight
  cast same := by
    rw [show kind = _ from same] at tight
    cases tight
  extended := extended

theorem Node.ends_of_tight (tight : n.kind.isLoose = false) : n.Ends eof setting rest where
  binary kind := by
    rw [kind] at tight
    cases tight
  prefixed kind := by
    rcases kind with kind | kind
    all_goals
      rw [kind] at tight
      cases tight

/-- What goes on with an operand by more than an operator comes after a node that binds its parts
tightly. -/
theorem Node.Ends.tight (ends : n.Ends eof setting rest)
    (found : (Growth.next floor setting).run eof rest = some growth)
    (other : ∀ power, growth ≠ .binary power) : n.kind.isLoose = false := by
  obtain ⟨power, binds, -, joins | ⟨-, tighter⟩⟩ := Growth.power_of_next found
  · exact absurd joins.1 (other power)
  cases kind : n.kind with
  | binaryExpression =>
    obtain ⟨p, -, looser, closed⟩ := ends.binary kind
    have le := closed.rank_le found binds
    omega
  | unaryExpression =>
    have le := (ends.prefixed (.inl kind)).rank_le found binds
    omega
  | castExpression =>
    have le := (ends.prefixed (.inr kind)).rank_le found binds
    omega
  | _ => rfl

/-- What an operand goes on with stands in other parts than the operand. -/
theorem Node.ordered_growth (other : ∀ power, growth ≠ .binary power) {first more : List Child}
    {after : List Padded}
    (tight : ∀ field part, .node (some field) part ∈ first → part.kind.isLoose = false)
    (within : Within [.member, .index, .arguments] more after) :
    (Node.sound growth.kind (first ++ more)).Ordered := by
  refine ordered_of_tight (Grammar.growth_tight other) fun field part which member => ?_
  rcases List.mem_append.mp member with member | member
  · exact tight field part member
  · have out := within _ member field rfl
    cases growth with
    | binary power => cases which
    | member | composite | array | index | call =>
      cases which
      exact absurd out (by decide)

/-- All nodes are ordered. -/
def AllOrdered : Post := fun children _ => ∀ n ∈ descendantsOf children, n.Ordered

theorem allOrdered_nil (rest : List Padded) : AllOrdered [] rest := fun _ none => nomatch none

theorem allOrdered_under {kind : NodeKind} {children : List Child}
    (whole : (Node.sound kind children).Ordered) (parts : AllOrdered children rest) :
    AllOrdered (Child.under kind children) rest := by
  rw [AllOrdered, descendantsOf_under]
  exact List.forall_mem_cons.mpr ⟨whole, parts⟩

theorem allOrdered_node {n : Node} (plain : n.kind.isOperation = false)
    (alone : descendantsOf [.node none n] = [n]) : AllOrdered [.node none n] rest := by
  rw [AllOrdered, alone]
  exact fun m member => List.mem_singleton.mp member ▸ Node.ordered_of_not_isOperation plain

theorem allOrdered_ofPadded (field : Option Field) (padded : Padded) :
    AllOrdered (Child.ofPadded field padded) rest := by
  rw [AllOrdered, descendantsOf_ofPadded]
  exact nofun

theorem allOrdered_append {children more : List Child} {after : List Padded}
    (h : AllOrdered children rest) (h' : AllOrdered more after) :
    AllOrdered (children ++ more) after := by
  rw [AllOrdered, descendantsOf_append]
  exact List.forall_mem_append.mpr ⟨h, h'⟩

theorem allOrdered_labelled {field : Option Field} {children : List Child}
    (h : AllOrdered children rest) : AllOrdered (Child.labelled field children) rest := by
  cases field with
  | none => exact h
  | some field =>
    rw [AllOrdered, Child.labelled, descendantsOf_relabel]
    exact h

end JaiTree
