import JaiTree.Tree.Basic

/-!
Nodes below a node: their leaves are leaves of it, in a row, and it has no other leaves but those
that are children of it or of one of them. Where no node below it is empty its first and last leaf
are where it begins and ends.
-/

namespace JaiTree

mutual

theorem Node.infix_of_mem {n : Node} :
    (root : Node) → n ∈ root.descendants → n.leaves <:+: root.leaves
  | .mk kind children error, member => by
    rw [Node.descendants, List.mem_cons] at member
    rcases member with rfl | member
    · exact List.infix_rfl
    · rw [Node.leaves]
      exact infix_of_mem_descendantsOf children member

theorem Child.infix_of_mem {n : Node} :
    (c : Child) → n ∈ c.descendants → n.leaves <:+: c.leaves
  | .leaf _ _, member => by
    rw [Child.descendants] at member
    cases member
  | .node _ root, member => by
    rw [Child.descendants] at member
    rw [Child.leaves]
    exact Node.infix_of_mem root member

theorem infix_of_mem_descendantsOf {n : Node} :
    (cs : List Child) → n ∈ descendantsOf cs → n.leaves <:+: leavesOf cs
  | [], member => by
    rw [descendantsOf] at member
    cases member
  | c :: cs, member => by
    rw [descendantsOf, List.mem_append] at member
    rw [leavesOf]
    rcases member with member | member
    · exact (Child.infix_of_mem c member).trans (List.prefix_append _ _).isInfix
    · exact (infix_of_mem_descendantsOf cs member).trans (List.suffix_append _ _).isInfix

end

mutual

theorem Node.subset_of_mem {n : Node} :
    (root : Node) → n ∈ root.descendants → n.descendants ⊆ root.descendants
  | .mk kind children error, member => by
    rw [Node.descendants, List.mem_cons] at member
    rcases member with rfl | member
    · exact List.Subset.refl _
    · rw [Node.descendants]
      exact List.Subset.trans (subset_of_mem_descendantsOf children member)
        (List.subset_cons_self _ _)

theorem Child.subset_of_mem {n : Node} :
    (c : Child) → n ∈ c.descendants → n.descendants ⊆ c.descendants
  | .leaf _ _, member => by
    rw [Child.descendants] at member
    cases member
  | .node _ root, member => by
    rw [Child.descendants] at member ⊢
    exact Node.subset_of_mem root member

theorem subset_of_mem_descendantsOf {n : Node} :
    (cs : List Child) → n ∈ descendantsOf cs → n.descendants ⊆ descendantsOf cs
  | [], member => by
    rw [descendantsOf] at member
    cases member
  | c :: cs, member => by
    rw [descendantsOf, List.mem_append] at member
    rw [descendantsOf]
    rcases member with member | member
    · exact List.Subset.trans (Child.subset_of_mem c member) (List.subset_append_left _ _)
    · exact List.Subset.trans (subset_of_mem_descendantsOf cs member)
        (List.subset_append_right _ _)

end

mutual

/-- Every leaf is a child of some node. -/
theorem Node.parent_of_mem_leaves {t : Token} :
    (n : Node) → t ∈ n.leaves → ∃ m ∈ n.descendants, ∃ field, .leaf field t ∈ m.children
  | .mk kind children error, member => by
    rw [Node.leaves] at member
    rw [Node.descendants]
    rcases parent_of_mem_leavesOf children member with ⟨field, child⟩ | ⟨m, below, child⟩
    · exact ⟨_, List.mem_cons_self, field, child⟩
    · exact ⟨m, List.mem_cons_of_mem _ below, child⟩

theorem parent_of_mem_leavesOf {t : Token} :
    (cs : List Child) → t ∈ leavesOf cs →
      (∃ field, .leaf field t ∈ cs) ∨ ∃ m ∈ descendantsOf cs, ∃ field, .leaf field t ∈ m.children
  | [], member => by
    rw [leavesOf] at member
    cases member
  | .leaf field u :: cs, member => by
    rw [leavesOf, Child.leaves, List.singleton_append, List.mem_cons] at member
    rcases member with rfl | member
    · exact .inl ⟨field, List.mem_cons_self⟩
    · rw [descendantsOf, Child.descendants, List.nil_append]
      refine (parent_of_mem_leavesOf cs member).imp ?_ id
      rintro ⟨other, child⟩
      exact ⟨other, List.mem_cons_of_mem _ child⟩
  | .node _ n :: cs, member => by
    rw [leavesOf, Child.leaves, List.mem_append] at member
    rw [descendantsOf, Child.descendants]
    rcases member with member | member
    · obtain ⟨m, below, child⟩ := n.parent_of_mem_leaves member
      exact .inr ⟨m, List.mem_append_left _ below, child⟩
    · rcases parent_of_mem_leavesOf cs member with ⟨field, child⟩ | ⟨m, below, child⟩
      · exact .inl ⟨field, List.mem_cons_of_mem _ child⟩
      · exact .inr ⟨m, List.mem_append_right _ below, child⟩

end

theorem leaves_subset {c : Child} {cs : List Child} (member : c ∈ cs) : c.leaves ⊆ leavesOf cs := by
  obtain ⟨before, after, rfl⟩ := List.append_of_mem member
  rw [leavesOf_append, leavesOf]
  exact fun t leaf => List.mem_append_right _ (List.mem_append_left _ leaf)

/-- No node among these is put around nothing. -/
def AllFull (nodes : List Node) : Prop := ∀ n ∈ nodes, n.children ≠ []

mutual

theorem Node.head_leaves : (n : Node) → AllFull n.descendants →
    n.leaves.head?.map Token.start = some n.start
  | .mk kind [] error, full => by
    have some_child := full (.mk kind [] error) (by simp [Node.descendants])
    exact absurd rfl some_child
  | .mk kind (c :: cs) error, full => by
    have first : c.leaves.head?.map Token.start = some c.start := by
      refine Child.head_leaves c fun n member => full n ?_
      simp [Node.descendants, descendantsOf, member]
    obtain ⟨t, found, begins⟩ := Option.map_eq_some_iff.mp first
    rw [Node.leaves, leavesOf, List.head?_append, found, Node.start, ← begins]
    rfl

theorem Child.head_leaves : (c : Child) → AllFull c.descendants →
    c.leaves.head?.map Token.start = some c.start
  | .leaf _ token, _ => rfl
  | .node _ n, full => by
    rw [Child.descendants] at full
    rw [Child.leaves, Child.start]
    exact Node.head_leaves n full

end

mutual

theorem Node.getLast_leaves : (n : Node) → AllFull n.descendants →
    n.leaves.getLast?.map Token.stop = some n.stop
  | .mk kind children error, full => by
    have some_child : children ≠ [] := full (.mk kind children error) (by simp [Node.descendants])
    rw [Node.leaves, Node.stop]
    refine getLast_leavesOf children some_child fun n member => full n ?_
    simp [Node.descendants, member]

theorem Child.getLast_leaves : (c : Child) → AllFull c.descendants →
    c.leaves.getLast?.map Token.stop = some c.stop
  | .leaf _ token, _ => rfl
  | .node _ n, full => by
    rw [Child.descendants] at full
    rw [Child.leaves, Child.stop]
    exact Node.getLast_leaves n full

theorem getLast_leavesOf : (cs : List Child) → cs ≠ [] → AllFull (descendantsOf cs) →
    (leavesOf cs).getLast?.map Token.stop = some (stopOfLast cs)
  | [], some_child, _ => absurd rfl some_child
  | [c], _, full => by
    have last : c.leaves.getLast?.map Token.stop = some c.stop :=
      Child.getLast_leaves c fun n member => full n (by simp [descendantsOf, member])
    simpa [leavesOf, stopOfLast] using last
  | c :: d :: ds, _, full => by
    have last : (leavesOf (d :: ds)).getLast?.map Token.stop = some (stopOfLast (d :: ds)) := by
      refine getLast_leavesOf (d :: ds) (List.cons_ne_nil d ds) fun n member => full n ?_
      rw [descendantsOf]
      exact List.mem_append_right _ member
    obtain ⟨t, found, ends⟩ := Option.map_eq_some_iff.mp last
    rw [leavesOf, List.getLast?_append, found, stopOfLast, ← ends]
    · rfl
    · simp

end

end JaiTree
