import JaiTree.Proofs.Grammar.Calls
import JaiTree.Proofs.Tree.Remains
import JaiTree.Proofs.Tree.Spans

/-!
Groups stay whole: a string or an assembly block that is cut off in one step is one node of the tree
or stands right below one error node, and nothing begins or ends inside it. Main statement:
`parse_whole`.
-/

namespace JaiTree

/-- At the beginning of a text all of its groups remain. -/
theorem remains_ofText (text : String) :
    Remains (Cursor.ofText text).eof (Lexer.groups 0 0 text.toList)
      (Cursor.ofText text).tokens := by
  obtain ⟨-, ends, whole⟩ := Cursor.ofText_parts text
  refine ⟨fun _ => Lexer.entire_of_mem_groups, by rw [ends]; rfl, [], List.forall_mem_nil _, ?_⟩
  rw [whole, Padded.ofTokens, Lexer.tokenize_eq_flatten, ends]

section Tree

variable {text : String} {group : List Token} (member : group ∈ Lexer.groups 0 0 text.toList)
include member

/-- A group that is cut off together is held whole by a node of the tree. -/
theorem exists_holds (isGroup : IsGrouped group) :
    ∃ n ∈ (parse text).root.descendants,
      (n.kind = .ofGroup ((Token.significant group).map fun t => t.kind)
        ∧ Token.significant n.leaves = Token.significant group)
      ∨ (n.kind = .error ∧ ∀ t ∈ Token.significant group, .leaf none t ∈ n.children) := by
  obtain ⟨body, root, built, -⟩ := parse_built text
  have remains := remains_ofText text
  rw [← List.append_nil (Cursor.ofText text).tokens] at remains
  obtain ⟨used, left, parts, later, held⟩ := built.keeps rfl remains
  rw [parts, List.mem_append] at member
  rcases member with member | member
  · obtain ⟨n, below, holds⟩ := held group member isGroup
    refine ⟨n, ?_, holds⟩
    rw [root, descendants_sound_ofPadded]
    exact List.mem_cons_of_mem _ below
  · have two := isGroup.two_le
    have none := length_significant_le member
    rw [later.tokens] at none
    exact absurd (two.trans none) (by decide)

theorem mem_leaves_parse {t : Token} (seen : t ∈ Token.significant group) :
    t ∈ (parse text).root.leaves := by
  rw [leaves_parse, Lexer.tokenize_eq_flatten]
  have among := Token.significant_subset_flatten member seen
  exact List.mem_append_left _ (Token.mem_significant.mp among).1

/-- No node but a part of a string or of an assembly block begins or ends inside a group. -/
theorem apart_of_mem_parse {n : Node} (below : n ∈ (parse text).root.descendants)
    (whole : n.kind.isFragment = false) :
    (∀ t ∈ Token.significant group, t ∈ n.leaves)
      ∨ (∀ t ∈ Token.significant group, t.stop ≤ n.start)
      ∨ ∀ t ∈ Token.significant group, n.stop ≤ t.start := by
  obtain ⟨body, root, built, -⟩ := parse_built text
  have all := below
  rw [root, descendants_sound_ofPadded, List.mem_cons] at all
  rcases all with rfl | inner
  · refine .inl fun t seen => ?_
    rw [← root]
    exact mem_leaves_parse member seen
  have remains := remains_ofText text
  have whole_text : tokenize text = (Cursor.ofText text).tokens.flatMap Padded.tokens
      ++ (Cursor.ofText text).eof.tokens := by
    rw [← leaves_parse, root, Node.sound, Node.leaves, leavesOf_append, built.leaves,
      leavesOf_ofPadded]
  have groupwise := built.groupwise rfl (by rwa [List.append_nil]) inner whole
  obtain ⟨before, later, tokens, apart⟩ := groupwise.apart remains.tokens
  have ordered := (tokenize_tiles text).pairwise
  rw [whole_text, tokens] at ordered
  obtain ⟨inside, -, -⟩ := List.pairwise_append.mp ordered
  obtain ⟨front, -, last⟩ := List.pairwise_append.mp inside
  obtain ⟨-, -, first⟩ := List.pairwise_append.mp front
  rcases apart group member with earlier | among | behind
  · refine .inr (.inl fun t seen => ?_)
    obtain ⟨u, _, parts, begins⟩ := exists_first_leaf below
    rw [← begins]
    exact first t (earlier seen) u (by rw [parts]; exact List.mem_cons_self)
  · exact .inl fun t seen => among seen
  · refine .inr (.inr fun t seen => ?_)
    obtain ⟨_, u, parts, ends⟩ := exists_last_leaf below
    rw [← ends]
    exact last u (by rw [parts]; simp) t (behind seen)

end Tree

/-- The call that a whole text is read with. -/
def Call.ofText (text : String) : Call where
  around := ⟨Grammar.maxNesting, .empty, 0⟩
  work := .read Grammar.sourceFile
  setting := (Cursor.ofText text).setting
  rest := (Cursor.ofText text).tokens

theorem Call.sound_ofText (text : String) :
    Sound (Cursor.ofText text).eof
      (Reached (Cursor.ofText text).eof (Lexer.groups 0 0 text.toList)) (ofText text) := by
  rw [ofText, Grammar.sourceFile_eq]
  exact .ofAll (.inl rfl) .sourceFile ⟨[], _, rfl, remains_ofText text⟩

/-- What is cut off in one step and makes a string or an assembly block stays whole in the tree: but
for trivia its tokens are all that is in one node for a string or an assembly block, or all of them
stand right below one error node. A node that is no name, no escape and no placeholder, and so every
statement and every region that stands for what could not be read, has all of them in it, begins
behind them or ends before them. And however deep down a string between quotes is read, if it
begins with a quote its reading is done. -/
theorem parse_whole (text : String) :
    (∀ group ∈ Lexer.groups 0 0 text.toList, IsGrouped group →
      (∃ n ∈ (parse text).root.descendants,
        (n.kind = .ofGroup ((Token.significant group).map fun t => t.kind)
          ∧ Token.significant n.leaves = Token.significant group)
        ∨ (n.kind = .error ∧ ∀ t ∈ Token.significant group, .leaf none t ∈ n.children))
      ∧ ∀ n ∈ (parse text).root.descendants, n.kind.isFragment = false →
        (∀ t ∈ Token.significant group, t ∈ n.leaves)
          ∨ (∀ t ∈ Token.significant group, t.stop ≤ n.start)
          ∨ ∀ t ∈ Token.significant group, n.stop ≤ t.start)
    ∧ ∀ around setting rest,
      Call.Leads (Cursor.ofText text).eof (.ofText text)
        ⟨around, .read Grammar.quotedString, setting, rest⟩ →
      (ahead (Cursor.ofText text).eof rest 0).token.kind = .doubleQuote →
      ∃ children after, around.read (Cursor.ofText text).eof Grammar.quotedString setting rest
        = .done children after := by
  constructor
  · exact fun group member isGroup =>
      ⟨exists_holds member isGroup, fun n below => apart_of_mem_parse member below⟩
  · intro around setting rest leads opening
    have isEnd := Cursor.isEnd_ofText text
    have sound := (Call.sound_ofText text).leads isEnd strides_reached leads
    exact sound.quotedString_done isEnd strides_reached opening

/-- A string with a semicolon in it, behind a token that no statement begins with. -/
theorem parse_whole_region :
    ∃ group ∈ Lexer.groups 0 0 ") \"a;b\";".toList, IsGrouped group
      ∧ ∃ n ∈ (parse ") \"a;b\";").root.descendants,
        n.kind = .error ∧ ∀ t ∈ Token.significant group, .leaf none t ∈ n.children := by
  have found : ((Lexer.groups 0 0 ") \"a;b\";".toList).any fun group =>
      ((Token.significant group).map fun t => t.kind)
        = [.doubleQuote, .stringContent, .doubleQuote]) = true := by decide +kernel
  have none : ((parse ") \"a;b\";").root.descendants.all fun n => n.kind ≠ .stringLiteral) = true :=
    by decide +kernel
  obtain ⟨group, member, same⟩ := List.any_eq_true.mp found
  have kinds := of_decide_eq_true same
  have isGroup : IsGrouped group := by
    rw [IsGrouped, kinds]
    exact @Grouped.quotedString [.stringContent] (by decide)
  refine ⟨group, member, isGroup, ?_⟩
  obtain ⟨⟨n, below, string | region⟩, -⟩ := (parse_whole ") \"a;b\";").1 group member isGroup
  · rw [kinds] at string
    exact absurd string.1 (of_decide_eq_true (List.all_eq_true.mp none n below))
  · exact ⟨n, below, region⟩

end JaiTree
