import JaiTree.Proofs.Lexer.Features
import JaiTree.Proofs.Tree.Shift

/-!
What the grammar sees of a text: the kinds and the texts of its tokens but for trivia, without their
places. Main statement: `Lexer.seen_iff`.
-/

namespace JaiTree

open Text

/-- What the grammar sees of tokens: the kinds and the texts of those that are no trivia. -/
def significant (tokens : List Token) : List Lexeme :=
  (tokens.filter fun t => !t.isTrivia).map Token.toLexeme

theorem significant_append (a b : List Token) :
    significant (a ++ b) = significant a ++ significant b := by
  rw [significant, List.filter_append, List.map_append]
  rfl

theorem significant_cons {t : Token} (ts : List Token) (seen : t.isTrivia = false) :
    significant (t :: ts) = t.toLexeme :: significant ts := by
  rw [significant, List.filter_cons_of_pos (by simp [seen])]
  rfl

theorem significant_trivia {t : Token} (ts : List Token) (trivial : t.isTrivia = true) :
    significant (t :: ts) = significant ts := by
  rw [significant, List.filter_cons_of_neg (by simp [trivial])]
  rfl

theorem significant_shift (bytes : Nat) (tokens : List Token) :
    significant (tokens.map (Token.shift bytes)) = significant tokens := by
  induction tokens with
  | nil => rfl
  | cons t ts ih =>
    have same : (t.shift bytes).isTrivia = t.isTrivia := rfl
    cases trivial : t.isTrivia with
    | true =>
      rw [List.map_cons, significant_trivia _ (same.trans trivial), ih,
        significant_trivia _ trivial]
    | false =>
      rw [List.map_cons, significant_cons _ (same.trans trivial), ih, significant_cons _ trivial]
      rfl

/-- What is seen at a place is a token there, behind tokens of which the rest is seen. -/
theorem exists_of_significant {tokens : List Token} {first later : List Lexeme} {l : Lexeme}
    (h : significant tokens = first ++ l :: later) :
    ∃ before t after, tokens = before ++ t :: after ∧ significant before = first
      ∧ t.toLexeme = l := by
  induction tokens generalizing first with
  | nil => simp [significant] at h
  | cons t ts ih =>
    cases trivial : t.isTrivia with
    | true =>
      rw [significant_trivia ts trivial] at h
      obtain ⟨before, u, after, rfl, seen, lexeme⟩ := ih h
      exact ⟨t :: before, u, after, rfl, by rw [significant_trivia _ trivial, seen], lexeme⟩
    | false =>
      rw [significant_cons ts trivial] at h
      cases first with
      | nil =>
        obtain ⟨lexeme, -⟩ := List.cons.inj h
        exact ⟨[], t, ts, rfl, rfl, lexeme⟩
      | cons k ks =>
        obtain ⟨rfl, behind⟩ := List.cons.inj h
        obtain ⟨before, u, after, rfl, seen, lexeme⟩ := ih behind
        exact ⟨t :: before, u, after, rfl, by rw [significant_cons _ trivial, seen], lexeme⟩

theorem mem_significant {tokens : List Token} {t : Token} (member : t ∈ tokens)
    (seen : t.isTrivia = false) : t.toLexeme ∈ significant tokens :=
  List.mem_map_of_mem (List.mem_filter.mpr ⟨member, by simp [seen]⟩)

namespace Lexer

/-- What the grammar sees of a text. -/
def seen (text : List Char) : List Lexeme := significant (scan 0 0 text)

theorem significant_scan (start : Nat) (text : List Char) :
    significant (scan 0 start text) = seen text := by
  rw [seen, ← significant_shift start (scan 0 0 text), ← scan_shift, Nat.zero_add]

theorem Cuts.seen {text : List Char} {pieces : List Piece} (cuts : Cuts text pieces) :
    seen text = significant (Piece.tokens 0 text pieces)
      ++ seen (text.drop (Piece.total pieces)) := by
  rw [Lexer.seen, cuts 0, significant_append, significant_scan]

theorem Piece.tokens_ahead {start : Nat} {a : List Char} {pieces : List Piece}
    (within : total pieces ≤ a.length) (x y : List Char) :
    tokens start (a ++ y) pieces = tokens start (a ++ x) pieces := by
  induction pieces generalizing start a with
  | nil => rfl
  | cons p ps ih =>
    rw [total_cons] at within
    have short : p.size ≤ a.length := by omega
    have rest : total ps ≤ (a.drop p.size).length := by
      rw [List.length_drop]
      omega
    rw [tokens, tokens, List.take_append_of_le_length short, List.take_append_of_le_length short,
      List.drop_append_of_le_length short, List.drop_append_of_le_length short, ih rest]

/-- Behind the same pieces two texts are seen alike just when their rests are. -/
theorem seen_iff {a x y : List Char} {pieces : List Piece} (first : Cuts (a ++ x) pieces)
    (second : Cuts (a ++ y) pieces) (within : Piece.total pieces ≤ a.length) :
    seen (a ++ y) = seen (a ++ x)
      ↔ seen (a.drop (Piece.total pieces) ++ y) = seen (a.drop (Piece.total pieces) ++ x) := by
  rw [first.seen, second.seen, Piece.tokens_ahead within x y, List.append_cancel_left_eq,
    List.drop_append_of_le_length within, List.drop_append_of_le_length within]

theorem seen_blanks {blanks x : List Char} (some_blank : blanks ≠ [])
    (blank : ∀ c ∈ blanks, isBlank c = true) (stop : ∀ c ∈ x.head?, isBlank c = false) :
    seen (blanks ++ x) = seen x := by
  have run := takeWhile_isBlank blank stop
  obtain ⟨c, cs, rfl⟩ := List.exists_cons_of_ne_nil some_blank
  have cuts : Cuts (c :: cs ++ x) (group (c :: cs ++ x)) := .group (List.cons_ne_nil _ _)
  rw [List.cons_append] at run cuts
  rw [group_blank (blank c List.mem_cons_self), run] at cuts
  rw [List.cons_append, cuts.seen]
  simp [Piece.tokens, significant, Token.isTrivia, TokenKind.isTrivia]

theorem seen_comment (x : List Char) : seen (Comment.empty ++ x) = seen x := by
  have cuts : Cuts (Comment.empty ++ x) (group (Comment.empty ++ x)) :=
    .group (List.cons_ne_nil _ _)
  have alone : group (Comment.empty ++ x) = [{ kind := .commentBlock, size := 4 }] := rfl
  rw [alone] at cuts
  rw [cuts.seen]
  simp [Piece.tokens, significant, Token.isTrivia, TokenKind.isTrivia, Comment.empty]

end Lexer

end JaiTree
