import JaiTree.Proofs.Lexer.Steps
import JaiTree.Proofs.Token.Attach

/-!
Gaps: what the text holds between two tokens that the grammar sees is the trivia folded into the
second of them, and that is where a line break is looked for. Main statement:
`Padded.ofTokens_exact`.
-/

namespace JaiTree

namespace Lexer.Tiles

variable {start : Nat} {text : List Char} {tokens : List Token}

/-- Tokens side by side end where the text under them does, and where they begin if there are
none. -/
theorem stop_getLast? (tiles : Tiles start text tokens) :
    (tokens.getLast?.map Token.stop).getD start = start + Text.width text := by
  by_cases none : tokens = []
  · subst none
    have empty : text = [] := tiles
    rw [empty]
    rfl
  · rw [List.getLast?_eq_some_getLast none]
    exact tiles.getLast_stop none

/-- Some tokens in a row, if any, are what the text holds from the end of the one before them up to
the one after them. -/
theorem slice?_between {text : String} {before middle after : List Token} {t : Token}
    (tiles : Tiles 0 text.toList (before ++ (middle ++ t :: after))) :
    Text.slice? text ((before.getLast?.map Token.stop).getD 0) t.start
      = some (String.join (middle.map fun t => t.text)) := by
  obtain ⟨first, rest, whole, left, tiles⟩ := tiles.split
  obtain ⟨part, last, rfl, inner, right⟩ := tiles.split
  have begins : t.start = Text.width first + Text.width part := by
    rw [right.1, Nat.zero_add]
  have ends := left.stop_getLast?
  rw [Nat.zero_add] at ends
  have slice := Text.slice?_middle first part last
  rw [List.append_assoc, ← whole, String.ofList_toList] at slice
  rw [ends, begins, slice, inner.join_text]

end Lexer.Tiles

namespace Padded

/-- Of some tokens those that are seen are all but the trivia. -/
theorem map_token_attach (leading tokens : List Token) :
    (attach leading tokens).map (fun p => p.token) = Token.significant tokens := by
  induction tokens generalizing leading with
  | nil => rfl
  | cons t ts ih =>
    rw [attach, Token.significant, List.filter_cons]
    cases t.isTrivia with
    | true => exact ih _
    | false => exact congrArg (t :: ·) (ih _)

theorem getLast?_flatMap_tokens (before : List Padded) :
    (before.flatMap tokens).getLast? = before.getLast?.map fun p => p.token := by
  cases last : before.getLast? with
  | none =>
    rw [List.getLast?_eq_none_iff.mp last]
    rfl
  | some p =>
    obtain ⟨others, rfl⟩ := List.getLast?_eq_some_iff.mp last
    rw [List.flatMap_append, List.flatMap_singleton, tokens, ← List.append_assoc,
      List.getLast?_concat]
    rfl

/-- A token starts a line when the trivia before it, read as one text, has a newline. -/
theorem startsLine_iff (padded : Padded) :
    padded.startsLine = true
      ↔ '\n' ∈ (String.join (padded.leading.map fun t => t.text)).toList := by
  rw [startsLine, List.any_eq_true, String.toList_join, List.mem_flatMap]
  constructor
  · intro ⟨t, member, broken⟩
    exact ⟨t.text, List.mem_map_of_mem member, List.contains_iff_mem.mp broken⟩
  · intro ⟨part, member, broken⟩
    obtain ⟨t, among, rfl⟩ := List.mem_map.mp member
    exact ⟨t, among, List.contains_iff_mem.mpr broken⟩

/-- The trivia before a token is what the text holds between it and the token seen before it. -/
theorem slice?_leading {text : String} {before after : List Padded} {p : Padded}
    (seen : ofTokens (tokenize text) = before ++ p :: after) :
    Text.slice? text ((before.getLast?.map fun q => q.token.stop).getD 0) p.token.start
      = some (String.join (p.leading.map fun t => t.text)) := by
  have tiles := tokenize_tiles text
  have flat := flatMap_attach_scan 0 text.toList
  rw [← ofTokens, ← tokenize, seen, List.flatMap_append, List.flatMap_cons, tokens,
    List.append_assoc, List.singleton_append] at flat
  rw [← flat] at tiles
  have slice := tiles.slice?_between
  rwa [getLast?_flatMap_tokens, Option.map_map] at slice

/-- The tokens that the grammar sees of a text are all that it is cut into but the trivia, in order,
with its end as the last and nowhere else; each with the trivia before it they are all that it is
cut into. The trivia of a token makes up what the text holds from the end of the token seen before
it, or from the first byte on, up to its own start, and the token starts a line just when a newline
stands there. Where positions are kept in 32 bits, this is said of texts of fewer than 2^32 bytes
(`stop_lt_of_mem_tokenize`). -/
theorem ofTokens_exact (text : String) :
    (ofTokens (tokenize text)).map (fun p => p.token)
      = (tokenize text).filter (fun t => !t.isTrivia)
    ∧ (∃ others last, ofTokens (tokenize text) = others ++ [last]
      ∧ last.token = .eofAt text.utf8ByteSize ∧ ∀ p ∈ others, p.token.kind ≠ .eof)
    ∧ (ofTokens (tokenize text)).flatMap tokens = tokenize text
    ∧ ∀ before p after, ofTokens (tokenize text) = before ++ p :: after →
      ∃ gap, Text.slice? text ((before.getLast?.map fun q => q.token.stop).getD 0) p.token.start
          = some gap
        ∧ String.join (p.leading.map fun t => t.text) = gap
        ∧ (p.startsLine = true ↔ '\n' ∈ gap.toList) := by
  obtain ⟨others, eof, whole⟩ := Cursor.ofText_parts text
  refine ⟨map_token_attach [] (tokenize text), ?_, flatMap_attach_scan 0 text.toList, ?_⟩
  · exact ⟨(Cursor.ofText text).tokens, (Cursor.ofText text).eof, whole.symm, eof, others⟩
  · intro before p after seen
    exact ⟨_, slice?_leading seen, rfl, startsLine_iff p⟩

/-- A block comment with a line break in it, between two names. -/
theorem ofTokens_exact_comment :
    ofTokens (tokenize "a /*\n*/ b") = [⟨[], ⟨⟨.identifier, "a"⟩, 0, none⟩⟩,
        ⟨[⟨⟨.whitespace, " "⟩, 1, none⟩, ⟨⟨.commentBlock, "/*\n*/"⟩, 2, none⟩,
          ⟨⟨.whitespace, " "⟩, 7, none⟩], ⟨⟨.identifier, "b"⟩, 8, none⟩⟩,
        ⟨[], .eofAt 9⟩]
      ∧ ∃ gap, Text.slice? "a /*\n*/ b" 1 8 = some gap ∧ gap = " /*\n*/ " ∧ '\n' ∈ gap.toList := by
  have seen : ofTokens (tokenize "a /*\n*/ b") = [⟨[], ⟨⟨.identifier, "a"⟩, 0, none⟩⟩,
      ⟨[⟨⟨.whitespace, " "⟩, 1, none⟩, ⟨⟨.commentBlock, "/*\n*/"⟩, 2, none⟩,
        ⟨⟨.whitespace, " "⟩, 7, none⟩], ⟨⟨.identifier, "b"⟩, 8, none⟩⟩,
      ⟨[], .eofAt 9⟩] := by
    decide +kernel
  obtain ⟨gap, slice, joined, broken⟩ := (ofTokens_exact "a /*\n*/ b").2.2.2
    [⟨[], ⟨⟨.identifier, "a"⟩, 0, none⟩⟩] _ _ seen
  refine ⟨seen, gap, slice, ?_, broken.mp (by decide)⟩
  rw [← joined]
  decide +kernel

end Padded

end JaiTree
