import JaiTree.Parse
import JaiTree.Proofs.Token.Place
import JaiTree.Proofs.Tree.Listing

/-!
Parsing loses nothing: the leaves of a tree are the tokens of its text. Main statement:
`parse_lossless`.
-/

namespace JaiTree

namespace Grammar

variable {eof : Padded} {rest : List Padded}

/-- A whole text is read as one node over all of its tokens, its end among them. -/
theorem read_sourceFile (isEnd : eof.token.kind = .eof) (room : Nat) (setting : Setting)
    (no_end : ∀ p ∈ rest, p.token.kind ≠ .eof) :
    ∃ body, Listed eof room setting rest body
      ∧ read eof room sourceFile setting rest
        = .done (Child.under .sourceFile (body ++ Child.ofPadded none eof)) [] := by
  obtain ⟨body, listed, ended⟩ := statements_listed isEnd room setting no_end
  refine ⟨body, listed, ?_⟩
  change Outcome.map _ (Outcome.andThen (read eof room (statements .endOfInput) setting rest) _) = _
  rw [ended]
  rfl

end Grammar

/-- Reading a whole text comes to its tree, over what is listed of its statements. -/
theorem parse_listed (text : String) :
    ∃ body, (parse text).root
        = .sound .sourceFile (body ++ Child.ofPadded none (Cursor.ofText text).eof)
      ∧ Listed (Cursor.ofText text).eof Grammar.maxNesting (Cursor.ofText text).setting
        (Cursor.ofText text).tokens body
      ∧ Grammar.read (Cursor.ofText text).eof Grammar.maxNesting Grammar.sourceFile
        (Cursor.ofText text).setting (Cursor.ofText text).tokens
        = .done [.node none (parse text).root] [] := by
  obtain ⟨no_end, -, -⟩ := Cursor.ofText_seen text
  obtain ⟨body, listed, ended⟩ := Grammar.read_sourceFile (Cursor.isEnd_ofText text)
    Grammar.maxNesting (Cursor.ofText text).setting no_end
  have root : (parse text).root
      = .sound .sourceFile (body ++ Child.ofPadded none (Cursor.ofText text).eof) := by
    have whole : (Cursor.ofText text).rest = (Cursor.ofText text).tokens := rfl
    have room : Grammar.maxNesting - (Cursor.ofText text).depth = Grammar.maxNesting := rfl
    rw [parse, parseTokens, Cursor.read, whole, room, ended]
    rfl
  refine ⟨body, root, listed, ?_⟩
  rw [ended, root]
  rfl

/-- The tree of a text lies over all of its tokens. -/
theorem parse_built (text : String) :
    ∃ body, (parse text).root
        = .sound .sourceFile (body ++ Child.ofPadded none (Cursor.ofText text).eof)
      ∧ Built (Cursor.ofText text).eof (Cursor.ofText text).tokens [] body
      ∧ Grammar.read (Cursor.ofText text).eof Grammar.maxNesting Grammar.sourceFile
        (Cursor.ofText text).setting (Cursor.ofText text).tokens
        = .done [.node none (parse text).root] [] := by
  obtain ⟨body, root, listed, ended⟩ := parse_listed text
  exact ⟨body, root, listed.built, ended⟩

theorem leaves_parse (text : String) : (parse text).root.leaves = tokenize text := by
  obtain ⟨body, root, built, -⟩ := parse_built text
  rw [root, Node.sound, Node.leaves, leavesOf_append, built.leaves, leavesOf_ofPadded,
    ← (Cursor.ofText_seen text).2.2, List.flatMap_append, List.flatMap_singleton]

theorem text_parse (text : String) : (parse text).root.text = text := by
  rw [Node.text, leaves_parse, (tokenize_tiles text).join_text, String.ofList_toList]

/-- The leaves of a tree are the tokens of its text, each once and in order, and the end of the
text is the last. This comes of what every rule does wherever it is read: its leaves are the tokens
that it moves past. Where a rule fails, the leaves of the region that stands for it are its tokens,
and nothing is lost between them and what follows. -/
theorem parse_lossless (text : String) :
    (parse text).root.leaves = tokenize text
    ∧ (∃ body, (parse text).root.leaves = body ++ [.eofAt text.utf8ByteSize]
      ∧ ∀ t ∈ body, t.kind ≠ .eof)
    ∧ (parse text).root.text = text
    ∧ (∀ cursor : Cursor, cursor.In text → ∀ goal children next,
      cursor.read (.enter goal) = (.ok children, next) →
        ∃ taken, cursor.rest = taken ++ next.rest
          ∧ next.position = cursor.position + taken.length
          ∧ leavesOf children = taken.flatMap Padded.tokens)
    ∧ ∀ (failure : Diagnostic) (rest : List Padded),
      (Recovery.region 0 true rest).1 ++ (Recovery.region 0 true rest).2 = rest
      ∧ (Recovery.node failure (Recovery.region 0 true rest).1).leaves
        = (Recovery.region 0 true rest).1.flatMap Padded.tokens := by
  refine ⟨leaves_parse text, ?_, text_parse text, ?_, ?_⟩
  · obtain ⟨body, found, sound⟩ := tokenize_eq_append text
    exact ⟨body, by rw [leaves_parse, found], fun t member => (sound t member).1⟩
  · intro cursor inside goal children next found
    obtain ⟨after, ended, rfl⟩ := Cursor.done_of_read found
    have covers := Grammar.read_covers inside.isEnd (.enter goal id)
      (Grammar.maxNesting - cursor.depth) cursor.setting cursor.rest
    rw [ended] at covers
    obtain ⟨taken, split, built, -, -⟩ := covers
    obtain ⟨position, rest⟩ := Cursor.leaving_append split
    exact ⟨taken, by rw [rest, split], position, built.leaves⟩
  · intro failure rest
    refine ⟨Recovery.region_append 0 true rest, ?_⟩
    rw [Recovery.node, Node.leaves, leavesOf_flatMap_ofPadded]

end JaiTree
