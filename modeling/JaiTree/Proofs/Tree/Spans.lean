import JaiTree.Proofs.Tree.Below
import JaiTree.Proofs.Tree.Lossless

/-!
Spans: a node reaches from its first child to its last over all of the text between, without a
gap. Main statement: `parse_spans`.
-/

namespace JaiTree

/-- Children whose leaves lie side by side lie side by side. -/
theorem isChain_of_leaves {cs : List Child} (full : AllFull (descendantsOf cs))
    (chain : (leavesOf cs).IsChain fun a b => a.stop = b.start) :
    cs.IsChain fun a b => a.stop = b.start := by
  induction cs with
  | nil => exact .nil
  | cons c cs ih =>
    cases cs with
    | nil => exact .singleton c
    | cons d ds =>
      rw [descendantsOf] at full
      rw [leavesOf, List.isChain_append] at chain
      obtain ⟨-, later, meet⟩ := chain
      have fullLater : AllFull (descendantsOf (d :: ds)) :=
        fun n member => full n (List.mem_append_right _ member)
      refine .cons_cons ?_ (ih fullLater later)
      have last := Child.getLast_leaves c fun n member => full n (List.mem_append_left _ member)
      have first := Child.head_leaves d fun n member =>
        fullLater n (by rw [descendantsOf]; exact List.mem_append_left _ member)
      obtain ⟨t, foundLast, ends⟩ := Option.map_eq_some_iff.mp last
      obtain ⟨u, foundFirst, begins⟩ := Option.map_eq_some_iff.mp first
      rw [← ends, ← begins]
      refine meet t (by rw [foundLast]; rfl) u ?_
      rw [leavesOf, List.head?_append, foundFirst]
      rfl

theorem start_of_children {n : Node} (some_child : n.children ≠ []) :
    n.children.head?.map Child.start = some n.start := by
  obtain ⟨kind, children, error⟩ := n
  cases children with
  | nil => exact absurd rfl some_child
  | cons c cs => rfl

theorem stopOfLast_eq (cs : List Child) (some_child : cs ≠ []) :
    cs.getLast?.map Child.stop = some (stopOfLast cs) := by
  induction cs with
  | nil => exact absurd rfl some_child
  | cons c cs ih =>
    cases cs with
    | nil => rfl
    | cons d ds =>
      rw [stopOfLast, ← ih (List.cons_ne_nil d ds), List.getLast?_cons_cons]
      simp

theorem stop_of_children {n : Node} (some_child : n.children ≠ []) :
    n.children.getLast?.map Child.stop = some n.stop := by
  obtain ⟨kind, children, error⟩ := n
  rw [Node.stop]
  exact stopOfLast_eq children some_child

/-- No node of a tree is put around nothing. -/
theorem full_parse (text : String) : AllFull (parse text).root.descendants := by
  obtain ⟨body, root, built, -⟩ := parse_built text
  intro n member
  rw [root, descendants_sound_ofPadded, List.mem_cons] at member
  rcases member with rfl | member
  · exact List.append_ne_nil_of_right_ne_nil body (ofPadded_ne_nil none _)
  · exact built.children_ne_nil member

theorem full_of_mem_children {text : String} {c : Child} (member : c ∈ (parse text).root.children) :
    AllFull c.descendants := by
  obtain ⟨before, after, parts⟩ := List.append_of_mem member
  have full := full_parse text
  generalize (parse text).root = root at parts full
  obtain ⟨kind, children, error⟩ := root
  intro n below
  refine full n ?_
  rw [Node.descendants, show children = before ++ c :: after from parts, descendantsOf_append,
    descendantsOf]
  exact List.mem_cons_of_mem _ (List.mem_append_right _ (List.mem_append_left _ below))

section

variable {text : String} {n : Node} (member : n ∈ (parse text).root.descendants)
include member

theorem full_of_mem_parse : AllFull n.descendants := fun m below =>
  full_parse text m (Node.subset_of_mem _ member below)

/-- The text of a node is the slice of the text from its start to its stop. -/
theorem slice?_of_mem_parse : Text.slice? text n.start n.stop = some n.text := by
  have full := full_of_mem_parse member
  obtain ⟨first, foundFirst, begins⟩ := Option.map_eq_some_iff.mp (n.head_leaves full)
  obtain ⟨last, foundLast, ends⟩ := Option.map_eq_some_iff.mp (n.getLast_leaves full)
  obtain ⟨before, after, parts⟩ := Node.infix_of_mem _ member
  have tiles := tokenize_tiles text
  rw [← leaves_parse, ← parts] at tiles
  have some_leaf : n.leaves ≠ [] := by
    intro none
    rw [none] at foundFirst
    cases foundFirst
  have slice := tiles.slice? some_leaf
  rw [(List.head_eq_iff_head?_eq_some some_leaf).mpr foundFirst,
    (List.getLast_eq_iff_getLast?_eq_some some_leaf).mpr foundLast, begins, ends] at slice
  exact slice

theorem leaves_infix_tokenize : n.leaves <:+: tokenize text := by
  rw [← leaves_parse]
  exact Node.infix_of_mem _ member

theorem exists_first_leaf : ∃ t later, n.leaves = t :: later ∧ t.start = n.start := by
  obtain ⟨t, found, begins⟩ := Option.map_eq_some_iff.mp (n.head_leaves (full_of_mem_parse member))
  obtain ⟨later, parts⟩ := List.head?_eq_some_iff.mp found
  exact ⟨t, later, parts, begins⟩

theorem exists_last_leaf : ∃ earlier t, n.leaves = earlier ++ [t] ∧ t.stop = n.stop := by
  obtain ⟨t, found, ends⟩ := Option.map_eq_some_iff.mp (n.getLast_leaves (full_of_mem_parse member))
  obtain ⟨earlier, parts⟩ := List.getLast?_eq_some_iff.mp found
  exact ⟨earlier, t, parts, ends⟩

/-- The tokens of a node lie between its start and its stop. -/
theorem bounds_of_mem_leaves {t : Token} (leaf : t ∈ n.leaves) :
    n.start ≤ t.start ∧ t.stop ≤ n.stop := by
  obtain ⟨first, later, begin_parts, begins⟩ := exists_first_leaf member
  obtain ⟨earlier, last, end_parts, ends⟩ := exists_last_leaf member
  have ordered := (tokenize_tiles text).pairwise.sublist (leaves_infix_tokenize member).sublist
  rw [← begins, ← ends]
  constructor
  · rw [begin_parts] at leaf ordered
    rcases List.mem_cons.mp leaf with rfl | leaf
    · exact Nat.le_refl _
    · have before := (List.pairwise_cons.mp ordered).1 t leaf
      exact Nat.le_trans first.start_le_stop before
  · rw [end_parts] at leaf ordered
    rcases List.mem_append.mp leaf with leaf | leaf
    · have before := (List.pairwise_append.mp ordered).2.2 t leaf last List.mem_cons_self
      exact Nat.le_trans before last.start_le_stop
    · rw [List.mem_singleton.mp leaf]

theorem isChain_of_mem_parse : n.children.IsChain fun a b => a.stop = b.start := by
  obtain ⟨before, after, parts⟩ := Node.infix_of_mem _ member
  have chain := (tokenize_tiles text).isChain
  rw [← leaves_parse, ← parts, List.append_assoc, List.isChain_append, List.isChain_append] at chain
  have full := full_of_mem_parse member
  obtain ⟨kind, children, error⟩ := n
  rw [Node.descendants] at full
  refine isChain_of_leaves (fun m below => full m (List.mem_cons_of_mem _ below)) ?_
  exact chain.2.1.1

end

/-- Every node of a tree has a child, begins where the first of them begins and ends where the last
of them ends. Each child ends where the next begins, and the text of the node is the slice of the
whole text over its span. The root spans all of it. -/
theorem parse_spans (text : String) :
    (∀ n ∈ (parse text).root.descendants,
      n.children ≠ []
      ∧ n.children.head?.map Child.start = some n.start
      ∧ n.children.getLast?.map Child.stop = some n.stop
      ∧ (n.children.IsChain fun a b => a.stop = b.start)
      ∧ n.start ≤ n.stop
      ∧ Text.slice? text n.start n.stop = some n.text)
    ∧ (parse text).root.start = 0
    ∧ (parse text).root.stop = text.utf8ByteSize := by
  refine ⟨fun n member => ?_, ?_, ?_⟩
  · have some_child := full_parse text n member
    have slice := slice?_of_mem_parse member
    have ordered : n.start ≤ n.stop := Text.le_of_slice? slice
    exact ⟨some_child, start_of_children some_child, stop_of_children some_child,
      isChain_of_mem_parse member, ordered, slice⟩
  · have first := Node.head_leaves _ (full_parse text)
    rw [leaves_parse, List.head?_eq_some_head (tokenize_ne_nil text), Option.map_some,
      (tokenize_tiles text).head_start] at first
    exact (Option.some.inj first).symm
  · have last := Node.getLast_leaves _ (full_parse text)
    rw [leaves_parse, List.getLast?_eq_some_getLast (tokenize_ne_nil text), Option.map_some,
      (tokenize_tiles text).getLast_stop, Nat.zero_add, ← Text.utf8ByteSize_ofList,
      String.ofList_toList] at last
    exact (Option.some.inj last).symm

end JaiTree
