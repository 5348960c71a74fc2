import Mathlib.Data.List.Induction
import Mathlib.Logic.ExistsUnique
import JaiTree.Proofs.Tree.Ordered

/-!
Chains of operands with operators between them, and the trees over them. A chain has exactly one
tree in which what binds tighter stands deeper and operators that bind alike lean to the left.

Main statements: `OperatorTree.ofChain_ordered`, `OperatorTree.eq_ofChain`.
-/

namespace JaiTree

/-- How tightly the token binds the operands at its sides; zero for what binds none. -/
def Padded.binding (padded : Padded) : Nat := (padded.token.kind.power?.map Power.rank).getD 0

/-- Operators with an operand behind each. -/
def links (others : List (Padded × Padded)) : List Padded :=
  others.flatMap fun next => [next.1, next.2]

/-- An operand, and then operators with an operand behind each. -/
def chain (first : Padded) (others : List (Padded × Padded)) : List Padded := first :: links others

theorem links_append (others more : List (Padded × Padded)) :
    links (others ++ more) = links others ++ links more := List.flatMap_append

theorem links_cons (next : Padded × Padded) (others : List (Padded × Padded)) :
    links (next :: others) = next.1 :: chain next.2 others := List.flatMap_cons

theorem length_links (others : List (Padded × Padded)) :
    (links others).length = 2 * others.length := by
  induction others with
  | nil => rfl
  | cons next more ih =>
    rw [links_cons, chain, List.length_cons, List.length_cons, List.length_cons, ih]
    omega

/-- What becomes of a chain of operands: every operator with what stands at its sides. -/
inductive OperatorTree where
  | operand (token : Padded)
  | binary (left : OperatorTree) (operator : Padded) (right : OperatorTree)

namespace OperatorTree

/-- The leftmost operand. -/
def first : OperatorTree → Padded
  | .operand token => token
  | .binary left _ _ => left.first

/-- The operators in order of the text, each with the operand right behind it. -/
def others : OperatorTree → List (Padded × Padded)
  | .operand _ => []
  | .binary left operator right => left.others ++ (operator, right.first) :: right.others

/-- The operands and the operators in order of the text. -/
def tokens : OperatorTree → List Padded
  | .operand token => [token]
  | .binary left operator right => left.tokens ++ operator :: right.tokens

/-- Whether the operator on top, if there is one, binds at least as tightly as a bound. -/
def AtLeast (bound : Nat) : OperatorTree → Prop
  | .operand _ => True
  | .binary _ operator _ => bound ≤ operator.binding

/-- To the left of every operator stands what binds at least as tightly as it does, to its right
what binds tighter. -/
def Ordered : OperatorTree → Prop
  | .operand _ => True
  | .binary left operator right =>
    left.AtLeast operator.binding ∧ right.AtLeast (operator.binding + 1)
      ∧ left.Ordered ∧ right.Ordered

/-- The tree with another operator and its right operand at the end. The operator takes over the
last operands up to where something binds less tightly. -/
def push : OperatorTree → Padded × Padded → OperatorTree
  | .operand token, next => .binary (.operand token) next.1 (.operand next.2)
  | .binary left operator right, next =>
    if operator.binding < next.1.binding then
      .binary left operator (right.push next)
    else
      .binary (.binary left operator right) next.1 (.operand next.2)

/-- The tree over a chain, from its first operand on. -/
def ofChain (first : Padded) (others : List (Padded × Padded)) : OperatorTree :=
  others.foldl push (.operand first)

variable {tree left right : OperatorTree} {operator : Padded} {next : Padded × Padded}
  {bound lower : Nat}

theorem AtLeast.mono (h : tree.AtLeast bound) (le : lower ≤ bound) : tree.AtLeast lower := by
  cases tree with
  | operand token => trivial
  | binary left operator right => exact Nat.le_trans le h

theorem tokens_eq_chain (tree : OperatorTree) : tree.tokens = chain tree.first tree.others := by
  induction tree with
  | operand token => rfl
  | binary left operator right ihl ihr =>
    rw [tokens, ihl, ihr, first, others, chain.eq_1 left.first, chain.eq_1 left.first,
      links_append, links_cons, List.cons_append]

theorem push_first : (tree.push next).first = tree.first := by
  cases tree with
  | operand token => rfl
  | binary left operator right =>
    rw [push]
    split
    all_goals rfl

theorem push_others : (tree.push next).others = tree.others ++ [next] := by
  induction tree with
  | operand token => rfl
  | binary left operator right _ ihr =>
    rw [push]
    split
    · rw [others, others, ihr, push_first, List.append_assoc, List.cons_append]
    · rfl

theorem push_atLeast (h : tree.AtLeast bound) (le : bound ≤ next.1.binding) :
    (tree.push next).AtLeast bound := by
  cases tree with
  | operand token => exact le
  | binary left operator right =>
    rw [push]
    split
    · exact h
    · exact le

/-- What is pushed on an ordered tree finds its place in it. -/
theorem push_ordered (h : tree.Ordered) : (tree.push next).Ordered := by
  induction tree with
  | operand token => exact ⟨trivial, trivial, trivial, trivial⟩
  | binary left operator right _ ihr =>
    obtain ⟨loose, tight, ordered, ordered'⟩ := h
    rw [push]
    split
    · next tighter => exact ⟨loose, push_atLeast tight tighter, ordered, ihr ordered'⟩
    · next looser =>
      exact ⟨Nat.le_of_not_lt looser, trivial, ⟨loose, tight, ordered, ordered'⟩, trivial⟩

/-- An operator that binds no tighter than the one on top takes over the whole tree. -/
theorem push_of_atLeast (h : tree.AtLeast next.1.binding) :
    tree.push next = .binary tree next.1 (.operand next.2) := by
  cases tree with
  | operand token => rfl
  | binary left operator right => exact if_neg (Nat.not_lt.mpr h)

/-- Operators that bind tighter than the one on top go to the right of it. -/
theorem foldl_push_right {others : List (Padded × Padded)}
    (tighter : ∀ next ∈ others, operator.binding < next.1.binding) :
    others.foldl push (.binary left operator right)
      = .binary left operator (others.foldl push right) := by
  induction others generalizing right with
  | nil => rfl
  | cons next more ih =>
    rw [List.forall_mem_cons] at tighter
    rw [List.foldl_cons, push, if_pos tighter.1, ih tighter.2, List.foldl_cons]

theorem ofChain_append (first : Padded) (others : List (Padded × Padded)) :
    ofChain first (others ++ [next]) = (ofChain first others).push next := by
  rw [ofChain, List.foldl_append]
  rfl

theorem ofChain_ordered (first : Padded) (others : List (Padded × Padded)) :
    (ofChain first others).Ordered :=
  List.foldlRecOn others push trivial fun _ ordered _ _ => push_ordered ordered

theorem ofChain_first (first : Padded) (others : List (Padded × Padded)) :
    (ofChain first others).first = first := by
  induction others using List.reverseRecOn with
  | nil => rfl
  | append_singleton others next ih => rw [ofChain_append, push_first, ih]

theorem ofChain_others (first : Padded) (others : List (Padded × Padded)) :
    (ofChain first others).others = others := by
  induction others using List.reverseRecOn with
  | nil => rfl
  | append_singleton others next ih => rw [ofChain_append, push_others, ih]

/-- In an ordered tree all operators bind at least as tightly as the one on top. -/
theorem Ordered.others_ge (h : tree.Ordered) (atLeast : tree.AtLeast bound) :
    ∀ next ∈ tree.others, bound ≤ next.1.binding := by
  induction tree generalizing bound with
  | operand token => exact List.forall_mem_nil _
  | binary left operator right ihl ihr =>
    obtain ⟨loose, tight, ordered, ordered'⟩ := h
    rw [others, List.forall_mem_append, List.forall_mem_cons]
    exact ⟨ihl ordered (loose.mono atLeast), atLeast,
      ihr ordered' (tight.mono (Nat.le_succ_of_le atLeast))⟩

/-- An ordered tree is the one that its chain is made into: whatever stands to the left of an
operator is there when the operator comes, and whatever follows goes to its right. -/
theorem eq_ofChain (h : tree.Ordered) : tree = ofChain tree.first tree.others := by
  induction tree with
  | operand token => rfl
  | binary left operator right ihl ihr =>
    obtain ⟨loose, tight, ordered, ordered'⟩ := h
    rw [first, others, ofChain, List.foldl_append, ← ofChain, ← ihl ordered, List.foldl_cons,
      push_of_atLeast loose, foldl_push_right (ordered'.others_ge tight), ← ofChain,
      ← ihr ordered']

end OperatorTree

theorem chain_inj {first first' : Padded} {others others' : List (Padded × Padded)}
    (same : chain first others = chain first' others') : first = first' ∧ others = others' := by
  rw [chain, chain, List.cons.injEq] at same
  refine ⟨same.1, ?_⟩
  replace same := same.2
  induction others generalizing others' with
  | nil =>
    cases others' with
    | nil => rfl
    | cons next more => cases same
  | cons next more ih =>
    cases others' with
    | nil => cases same
    | cons next' more' =>
      rw [links_cons, links_cons, chain, chain, List.cons.injEq, List.cons.injEq] at same
      obtain ⟨operator, operand, same⟩ := same
      rw [ih same, Prod.ext operator operand]

namespace OperatorTree

/-- A chain has exactly one ordered tree. -/
theorem existsUnique_ordered (first : Padded) (others : List (Padded × Padded)) :
    ∃! tree : OperatorTree, tree.tokens = chain first others ∧ tree.Ordered := by
  refine ⟨ofChain first others, ⟨?_, ofChain_ordered first others⟩, ?_⟩
  · rw [tokens_eq_chain, ofChain_first, ofChain_others]
  · rintro tree ⟨same, ordered⟩
    rw [tokens_eq_chain] at same
    obtain ⟨rfl, rfl⟩ := chain_inj same
    exact eq_ofChain ordered

end OperatorTree

end JaiTree
