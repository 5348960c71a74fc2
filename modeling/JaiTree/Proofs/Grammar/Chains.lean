import JaiTree.Proofs.Tree.Chains
import JaiTree.Proofs.Tree.Productions

/-!
Reading chains of operands: an expression takes all of a chain and makes the one ordered tree over
it. Only an operator that binds tighter than the one before it opens a level, so that a chain of
any length is read with one level for each power.

Main statement: `Cursor.read_chain`.
-/

namespace JaiTree

open Production (Joins)

/-- Whether the token is an operand by itself: a number, or a name that spells no keyword. -/
def Padded.IsOperand (padded : Padded) : Prop :=
  padded.token.kind = .number
    ∨ padded.token.kind = .identifier ∧ padded.token.keyword? = none

/-- The node over an operand. -/
def Padded.operand (padded : Padded) : Node :=
  .sound (if padded.token.kind = .number then .numberLiteral else .identifier)
    (Child.ofPadded none padded)

/-- The node over the operands and the operators. -/
def OperatorTree.node : OperatorTree → Node
  | .operand token => token.operand
  | .binary left operator right => .joined left.node operator right.node

/-- Whether the tokens are operands with operators between them. -/
def IsChain (first : Padded) (others : List (Padded × Padded)) : Prop :=
  first.IsOperand ∧ ∀ next ∈ others, Joins next.1.token.kind ∧ next.2.IsOperand

/-- What a growing operand becomes with what follows it. -/
def Growth.added (eof : Padded) (deeper : Goal → Reading) (self : Reading) (floor : Power)
    (setting : Setting) (children : List Child) (rest : List Padded) : Option Outcome :=
  ((next floor setting).run eof rest).map fun growth =>
    ((Grammar.growthBody growth).read eof deeper self setting rest).map fun more =>
      Child.under growth.kind (Child.labelled (some growth.field) children ++ more)

section

variable {eof operator : Padded} {deeper : Goal → Reading} {self : Reading} {floor power : Power}
  {setting : Setting} {rest after : List Padded} {tree : OperatorTree} {room : Nat}

theorem Padded.binding_of_power? (binds : operator.token.kind.power? = some power) :
    operator.binding = power.rank := by
  rw [binding, binds]
  rfl

/-- What binds an operand at all binds tighter than the loosest floor. -/
theorem TokenKind.rank_pos {kind : TokenKind} (binds : kind.power? = some power) :
    0 < power.rank := by
  unfold power? at binds
  split at binds
  all_goals cases binds
  all_goals decide

/-- What binds no tighter than the floor is left to the rules around. -/
theorem Growth.next_of_binding_le (loose : (ahead eof rest 0).binding ≤ floor.rank) :
    (next floor setting).run eof rest = none := by
  rw [next, Glance.run_bind, Glance.run_kindAt]
  cases binds : (ahead eof rest 0).token.kind.power? with
  | none => rfl
  | some power =>
    rw [Padded.binding_of_power? binds] at loose
    dsimp only
    rw [if_pos loose]
    rfl

/-- An operator that binds tighter than the floor goes on with the operand before it. -/
theorem Growth.next_of_joins (plain : setting.inSwitch = false)
    (binds : (ahead eof rest 0).token.kind.power? = some power)
    (joins : power.rank < Power.unary.rank) (tighter : floor.rank < power.rank) :
    (next floor setting).run eof rest = some (.binary power) := by
  rw [next, Glance.run_bind, Glance.run_kindAt]
  generalize (ahead eof rest 0).token.kind = kind at binds ⊢
  rw [binds]
  dsimp only
  rw [if_neg (Nat.not_le_of_gt tighter)]
  split
  iterate 3
    · cases binds
      exact absurd joins (by decide)
  · rw [plain]
    rfl
  · rfl

theorem Grammar.operand_read (single : operator.IsOperand) :
    operand.read eof deeper self setting (operator :: rest)
      = .done [.node none operator.operand] rest := by
  have sighted : (ahead eof (operator :: rest) 0).sight = operator.sight := rfl
  obtain number | ⟨name, plain⟩ := single
  · have kind : operator.sight.kind = .number := number
    have word : operator.sight.keyword? = none := by
      rw [Lexeme.keyword?, if_neg (by rw [kind]; decide)]
    rw [operand, Form.onSight, Form.read, Glance.run_tokenAt, sighted, word]
    dsimp only
    rw [operandOf, kind]
    dsimp only
    rw [primary, Form.onSight, Form.read, Glance.run_tokenAt, sighted, kind, Padded.operand,
      if_pos number]
    rfl
  · have kind : operator.sight.kind = .identifier := name
    have word : operator.sight.keyword? = none := plain
    rw [operand, Form.onSight, Form.read, Glance.run_tokenAt, sighted, word]
    dsimp only
    rw [operandOf, kind]
    dsimp only
    rw [primary, Form.onSight, Form.read, Glance.run_tokenAt, sighted, kind, Padded.operand,
      if_neg (by rw [name]; decide)]
    rfl

/-- An operator puts the operand before it and the one behind it under a node. -/
theorem Growth.added_joined {left right : Node} (plain : setting.inSwitch = false)
    (binds : operator.token.kind.power? = some power) (joins : power.rank < Power.unary.rank)
    (tighter : floor.rank < power.rank)
    (behind : deeper (.expression power) setting rest = .done [.node none right] after) :
    added eof deeper self floor setting [.node none left] (operator :: rest)
      = some (.done [.node none (.joined left operator right)] after) := by
  have found : (next floor setting).run eof (operator :: rest) = some (.binary power) :=
    next_of_joins plain binds joins tighter
  rw [added, found, Option.map_some]
  change some (Outcome.map _ (Outcome.andThen (.done _ rest) fun rest =>
    (deeper (.expression power) setting rest).map _)) = _
  dsimp only [Outcome.andThen]
  rw [behind]
  rfl

theorem Grammar.expressionRule_read (single : operator.IsOperand) :
    (expressionRule floor).read eof deeper self setting (operator :: rest)
      = Reading.grown (Growth.added eof deeper self floor setting) (rest.length + 1)
          [.node none operator.operand] rest := by
  rw [expressionRule, growing, Form.read, operand_read single]
  rfl

/-- Growth is over where what follows binds no tighter than the floor. -/
theorem Growth.grown_of_binding_le {children : List Child} (n : Nat)
    (loose : (ahead eof rest 0).binding ≤ floor.rank) :
    Reading.grown (added eof deeper self floor setting) n children rest = .done children rest := by
  cases n with
  | zero => rfl
  | succ n =>
    rw [Reading.grown, added, next_of_binding_le loose]
    rfl

end

namespace OperatorTree

variable {eof : Padded} {floor : Power} {setting : Setting} {after : List Padded}
  {tree : OperatorTree} {room : Nat}

/-- A tree whose operators a first operand grows by is what an expression makes of its tokens. -/
theorem level_read (chained : IsChain tree.first tree.others)
    (grows : ∀ n, tree.others.length ≤ n → ∃ m,
      Reading.grown (Growth.added eof (Grammar.level eof room) Grammar.nothing floor setting) n
          [.node none tree.first.operand] (links tree.others ++ after)
        = Reading.grown (Growth.added eof (Grammar.level eof room) Grammar.nothing floor setting) m
          [.node none tree.node] after)
    (loose : (ahead eof after 0).binding ≤ floor.rank) :
    Grammar.level eof (room + 1) (.expression floor) setting
        (chain tree.first tree.others ++ after)
      = .done [.node none tree.node] after := by
  obtain ⟨m, same⟩ := grows ((links tree.others ++ after).length + 1) (by
    rw [List.length_append, length_links]
    omega)
  rw [Grammar.level, Goal.form, chain, List.cons_append, Grammar.expressionRule_read chained.1,
    same, Growth.grown_of_binding_le m loose]

/-- The first operand of an ordered tree grows into the whole tree. By induction on the tree: what
stands to the left of the operator on top has grown when the operator comes, and what stands to its
right is read one level deeper, with the operator as its floor. -/
theorem grown (ordered : tree.Ordered) (chained : IsChain tree.first tree.others)
    (plain : setting.inSwitch = false) (tighter : tree.AtLeast (floor.rank + 1))
    (enough : Power.unary.rank ≤ room + 1 + floor.rank)
    (loose : tree.AtLeast (ahead eof after 0).binding) {n : Nat}
    (fuel : tree.others.length ≤ n) :
    ∃ m, n ≤ m + tree.others.length ∧
      Reading.grown (Growth.added eof (Grammar.level eof room) Grammar.nothing floor setting) n
          [.node none tree.first.operand] (links tree.others ++ after)
        = Reading.grown (Growth.added eof (Grammar.level eof room) Grammar.nothing floor setting) m
          [.node none tree.node] after := by
  induction tree generalizing room floor after n with
  | operand token => exact ⟨n, Nat.le_refl n, rfl⟩
  | binary left operator right ihl ihr =>
    obtain ⟨leans, tight, ordered, ordered'⟩ := ordered
    obtain ⟨first, chained⟩ := chained
    rw [others, List.forall_mem_append, List.forall_mem_cons] at chained
    obtain ⟨chained, ⟨⟨power, binds, joins⟩, next⟩, chained'⟩ := chained
    have binding : operator.binding = power.rank := Padded.binding_of_power? binds
    rw [others, List.length_append, List.length_cons] at fuel ⊢
    obtain ⟨m, left_fuel, same⟩ := @ihl floor (operator :: chain right.first right.others ++ after)
      room ordered ⟨first, chained⟩ (leans.mono tighter) enough leans n (by omega)
    obtain ⟨m, rfl⟩ : ∃ k, m = k + 1 := ⟨m - 1, by omega⟩
    have tighter' : floor.rank < power.rank := binding ▸ tighter
    have loose' : (ahead eof after 0).binding ≤ power.rank := binding ▸ loose
    obtain ⟨room, rfl⟩ : ∃ k, room = k + 1 := ⟨room - 1, by omega⟩
    have behind : Grammar.level eof (room + 1) (.expression power) setting
        (chain right.first right.others ++ after) = .done [.node none right.node] after := by
      refine level_read ⟨next, chained'⟩ (fun n fuel => ?_) loose'
      obtain ⟨m, -, same⟩ := @ihr power after room ordered' ⟨next, chained'⟩ (binding ▸ tight)
        (by omega) (tight.mono (by omega)) n fuel
      exact ⟨m, same⟩
    refine ⟨m, by omega, ?_⟩
    rw [links_append, links_cons, List.append_assoc]
    refine same.trans ?_
    rw [List.cons_append, Reading.grown, Growth.added_joined plain binds joins tighter' behind]
    rfl

/-- An ordered tree is what an expression makes of its tokens, where ten levels may be opened. -/
theorem expression_read (ordered : tree.Ordered) (chained : IsChain tree.first tree.others)
    (plain : setting.inSwitch = false) (enough : Power.unary.rank ≤ room)
    (loose : (ahead eof after 0).token.kind.power? = none) :
    Grammar.read eof room Grammar.expression setting (tree.tokens ++ after)
      = .done [.node none tree.node] after := by
  have binds_none : (ahead eof after 0).binding = 0 := by
    rw [Padded.binding, loose]
    rfl
  have any_tree : tree.AtLeast (Power.default.rank + 1) := by
    cases tree with
    | operand token => trivial
    | binary left operator right =>
      obtain ⟨⟨power, binds, -⟩, -⟩ := chained.2 (operator, right.first) (by simp [others])
      rw [AtLeast, Padded.binding_of_power? binds]
      exact TokenKind.rank_pos binds
  obtain ⟨room, rfl⟩ : ∃ k, room = k + 1 := ⟨room - 1, by
    have : Power.unary.rank = 10 := rfl
    omega⟩
  rw [tokens_eq_chain]
  refine level_read chained (fun n fuel => ?_) binds_none.le
  obtain ⟨m, -, same⟩ := grown ordered chained plain any_tree (Nat.le_add_right_of_le enough)
    (binds_none ▸ any_tree.mono (Nat.zero_le _)) fuel
  exact ⟨m, same⟩

end OperatorTree

/-- From a chain of single operands on, with a token behind it that binds nothing, an expression
takes exactly the chain and makes the only ordered tree over it: the operators to the right of an
operator bind tighter than it, those to its left at least as tightly. Ten levels are enough for
chains of any length. -/
theorem Cursor.read_chain (cursor : Cursor) (first : Padded) (others : List (Padded × Padded))
    (after : List Padded) (ahead_eq : cursor.rest = chain first others ++ after)
    (chained : IsChain first others)
    (loose : (ahead cursor.eof after 0).token.kind.power? = none)
    (plain : cursor.inSwitch = false) (shallow : cursor.depth ≤ Grammar.maxNesting - 10) :
    ∃ tree : OperatorTree, tree.tokens = chain first others ∧ tree.Ordered
      ∧ (∀ other : OperatorTree, other.tokens = chain first others → other.Ordered → other = tree)
      ∧ cursor.read Grammar.expression = (.ok [.node none tree.node],
          { cursor with position := cursor.position + (2 * others.length + 1) }) := by
  obtain ⟨tree, ⟨same, ordered⟩, unique⟩ := OperatorTree.existsUnique_ordered first others
  refine ⟨tree, same, ordered, fun other same ordered => unique other ⟨same, ordered⟩, ?_⟩
  obtain ⟨rfl, rfl⟩ := chain_inj (tree.tokens_eq_chain.symm.trans same)
  have enough : Power.unary.rank ≤ Grammar.maxNesting - cursor.depth := by
    change 10 ≤ _
    rw [Grammar.maxNesting] at shallow ⊢
    omega
  have taken : cursor.rest.length - after.length = 2 * tree.others.length + 1 := by
    rw [ahead_eq, List.length_append, Nat.add_sub_cancel, chain, List.length_cons, length_links]
  have bare : cursor.setting.inSwitch = false := plain
  have read := OperatorTree.expression_read ordered chained bare enough loose
  rw [Cursor.read, ahead_eq, ← same, read]
  dsimp only
  rw [leaving, taken]

/-- A chain whose second operator binds tighter than its first. -/
theorem Cursor.read_chain_mixed : ∃ first others after, ∃ tree : OperatorTree,
    (Cursor.ofText "a+b*2;").rest = chain first others ++ after ∧ IsChain first others
      ∧ others.length = 2 ∧ tree.tokens = chain first others ∧ tree.Ordered
      ∧ (Cursor.ofText "a+b*2;").read Grammar.expression
        = (.ok [.node none tree.node], { Cursor.ofText "a+b*2;" with position := 5 }) := by
  let first : Padded := ⟨[], ⟨⟨.identifier, "a"⟩, 0, none⟩⟩
  let others : List (Padded × Padded) :=
    [(⟨[], ⟨⟨.plus, "+"⟩, 1, none⟩⟩, ⟨[], ⟨⟨.identifier, "b"⟩, 2, none⟩⟩),
     (⟨[], ⟨⟨.star, "*"⟩, 3, none⟩⟩, ⟨[], ⟨⟨.number, "2"⟩, 4, none⟩⟩)]
  let after : List Padded := [⟨[], ⟨⟨.semicolon, ";"⟩, 5, none⟩⟩]
  have ahead_eq : (Cursor.ofText "a+b*2;").rest = chain first others ++ after := by
    decide +kernel
  have chained : IsChain first others := by
    refine ⟨.inr ⟨rfl, by decide⟩, ?_⟩
    rw [List.forall_mem_cons, List.forall_mem_singleton]
    exact ⟨⟨⟨_, rfl, by decide⟩, .inr ⟨rfl, by decide⟩⟩, ⟨_, rfl, by decide⟩, .inl rfl⟩
  obtain ⟨tree, same, ordered, -, read⟩ := Cursor.read_chain (.ofText "a+b*2;") first others after
    ahead_eq chained rfl rfl (by decide)
  exact ⟨first, others, after, tree, ahead_eq, chained, rfl, same, ordered, read⟩

end JaiTree
