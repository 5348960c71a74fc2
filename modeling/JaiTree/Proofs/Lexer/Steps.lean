import JaiTree.Proofs.Lexer.Trails

/-!
Steps of the lexer: the groups that a text is cut into, each with all that is cut off in one step.
Main statements: `Lexer.tokenize_eq_flatten`, `Lexer.entire_of_mem_groups`.
-/

namespace JaiTree

/-- The tokens but for trivia. -/
def Token.significant (tokens : List Token) : List Token := tokens.filter fun t => !t.isTrivia

namespace Token

@[simp] theorem significant_append (a b : List Token) :
    significant (a ++ b) = significant a ++ significant b := List.filter_append a b

theorem mem_significant {t : Token} {tokens : List Token} :
    t ∈ significant tokens ↔ t ∈ tokens ∧ t.isTrivia = false := by
  rw [significant, List.mem_filter, Bool.not_eq_true']

theorem significant_eq_nil {tokens : List Token} (trivial : ∀ t ∈ tokens, t.isTrivia = true) :
    significant tokens = [] :=
  List.filter_eq_nil_iff.mpr fun t member => by simp [trivial t member]

/-- What is found among some of the groups is found among all of them. -/
theorem significant_subset_flatten {group : List Token} {groups : List (List Token)}
    (member : group ∈ groups) : significant group ⊆ significant groups.flatten := fun t among => by
  rw [mem_significant] at among ⊢
  exact ⟨List.mem_flatten.mpr ⟨group, member, among.1⟩, among.2⟩

end Token

/-- The kinds of the tokens are those of one token and all that is cut off together with it, and of
trivia behind them. -/
def Entire (group : List Token) : Prop :=
  ∃ first others, group = first ++ others ∧ Together (first.map fun t => t.kind)
    ∧ ∀ t ∈ others, t.isTrivia = true

namespace Lexer

/-- The tokens of a text past its first `skip` characters, of which the next begins at byte
`start`, in the groups that the lexer cuts off one after the other. -/
def groups : (skip start : Nat) → (text : List Char) → List (List Token)
  | _, _, [] => []
  | skip + 1, start, _ :: cs => groups skip start cs
  | 0, start, c :: cs =>
    let pieces := group (c :: cs)
    let size := Piece.total pieces
    Piece.tokens start (c :: cs) pieces
      :: groups (size - 1) (start + Text.width ((c :: cs).take size)) cs

/-- The groups and the end of the text are all that it is cut into. -/
theorem scan_eq_flatten (skip start : Nat) (text : List Char) :
    ∃ stop, scan skip start text = (groups skip start text).flatten ++ [.eofAt stop] := by
  induction text generalizing skip start with
  | nil => cases skip <;> exact ⟨start, rfl⟩
  | cons c cs ih =>
    cases skip with
    | succ skip => exact ih skip start
    | zero =>
      obtain ⟨stop, later⟩ := ih (Piece.total (group (c :: cs)) - 1)
        (start + Text.width ((c :: cs).take (Piece.total (group (c :: cs)))))
      exact ⟨stop, by rw [scan, groups, List.flatten_cons, List.append_assoc, ← later]⟩

theorem tokenize_eq_flatten (text : String) :
    tokenize text = (groups 0 0 text.toList).flatten ++ [.eofAt text.utf8ByteSize] := by
  obtain ⟨stop, scanned⟩ := scan_eq_flatten 0 0 text.toList
  obtain ⟨body, ended, -⟩ := tokenize_eq_append text
  rw [tokenize, scanned] at ended
  obtain ⟨rfl, last⟩ := List.append_inj' ended rfl
  rw [tokenize, scanned, last]

/-- What is cut off in one step belongs to one token, but for trivia behind it. -/
theorem entire_of_mem_groups {skip start : Nat} {text : List Char} {cut : List Token}
    (member : cut ∈ groups skip start text) : Entire cut := by
  induction text generalizing skip start with
  | nil => cases skip <;> cases member
  | cons c cs ih =>
    cases skip with
    | succ skip => exact ih member
    | zero =>
      rw [groups, List.mem_cons] at member
      rcases member with rfl | member
      · obtain ⟨first, others, parts, together, trivial, -⟩ := group_parts (c :: cs)
        rw [parts, Piece.tokens_append]
        refine ⟨_, _, rfl, by rwa [Piece.map_kind_tokens], fun t among => ?_⟩
        refine trivial t.kind ?_
        rw [← Piece.map_kind_tokens (start + Text.width ((c :: cs).take (Piece.total first)))
          ((c :: cs).drop (Piece.total first))]
        exact List.mem_map_of_mem among
      · exact ih member

end Lexer

end JaiTree
