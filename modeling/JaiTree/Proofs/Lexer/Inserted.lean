import JaiTree.Proofs.Lexer.Ahead
import JaiTree.Proofs.Lexer.Lone

/-!
A comment behind a group: what is cut off a text first does not depend on a comment among blanks
behind it. Main statement: `Lexer.group_comment`.
-/

namespace JaiTree.Lexer

open Text

section

variable {blanks post a : List Char} (some_blank : blanks ≠ [])
  (stop : ∀ c ∈ post.head?, isBlank c = false) (blank : ∀ c ∈ blanks, isBlank c = true)
  (some_char : a ≠ [])
include some_blank stop blank some_char

theorem hash_comment (within : Piece.total (hash (a ++ (blanks ++ post))) ≤ a.length)
    (free : post = [] → '\n' ∉ blanks →
      (∃ p ∈ hash (a ++ (blanks ++ post)), ∃ delimiter found,
        p.error = some (.mismatchedHereString delimiter found)) →
      ∃ c ∈ a.drop (Piece.total (hash (a ++ (blanks ++ post)))), isBlank c = false) :
    hash (a ++ (blanks ++ (Comment.empty ++ (blanks ++ post)))) = hash (a ++ (blanks ++ post)) := by
  obtain ⟨c, cs, rfl⟩ := List.exists_cons_of_ne_nil some_blank
  have space := blank c List.mem_cons_self
  have string := beginsWith_ahead space .string a (cs ++ post)
    (cs ++ (Comment.empty ++ (c :: cs ++ post)))
  have asm := beginsWith_ahead space .asm a (cs ++ post)
    (cs ++ (Comment.empty ++ (c :: cs ++ post)))
  rw [List.cons_append, hash] at within free ⊢
  rw [List.cons_append] at string asm ⊢
  rw [hash, string, asm]
  by_cases quoted : beginsWith .string (a ++ c :: (cs ++ post)) = true
  · rw [if_pos quoted] at within free ⊢
    rw [if_pos quoted]
    rw [beginsWith, Bool.and_eq_true] at quoted
    have out := not_mem_spelling space .string
    obtain ⟨rest, rfl⟩ : Directive.string.spelling.toList <+: a :=
      List.prefix_of_prefix_length_le (List.isPrefixOf_iff_prefix.mp quoted.1)
        (List.prefix_append a _) (length_le_of_isPrefixOf out quoted.1)
    have same := @HereString.pieces_comment (c :: cs) post some_blank stop blank
      Directive.string.spelling.toList rest
    simp only [List.append_assoc, List.cons_append, List.length_append,
      String.length_toList] at same within free ⊢
    exact same within free
  rw [if_neg quoted] at within free ⊢
  rw [if_neg quoted]
  by_cases assembly : beginsWith .asm (a ++ c :: (cs ++ post)) = true
  · rw [if_pos assembly, Assembly.pieces, Piece.total_cons] at within
    rw [if_pos assembly, if_pos assembly, Assembly.pieces, Assembly.pieces]
    dsimp only at within
    rw [List.drop_append_of_le_length (by omega)] at within ⊢
    rw [List.drop_append_of_le_length (by omega), Assembly.features_ahead space]
    rw [List.length_drop]
    omega
  · rw [if_neg assembly, if_neg assembly, directive_ahead space some_char]

theorem recognise_comment (within : Piece.total (recognise (a ++ (blanks ++ post))) ≤ a.length)
    (free : post = [] → '\n' ∉ blanks →
      (∃ p ∈ recognise (a ++ (blanks ++ post)), ∃ delimiter found,
        p.error = some (.mismatchedHereString delimiter found)) →
      ∃ c ∈ a.drop (Piece.total (recognise (a ++ (blanks ++ post)))), isBlank c = false) :
    recognise (a ++ (blanks ++ (Comment.empty ++ (blanks ++ post))))
      = recognise (a ++ (blanks ++ post)) := by
  have hashed := hash_comment some_blank stop blank some_char
  obtain ⟨c, cs, rfl⟩ := List.exists_cons_of_ne_nil some_blank
  obtain ⟨d, ds, rfl⟩ := List.exists_cons_of_ne_nil some_char
  have space := blank c List.mem_cons_self
  have slash : c ≠ '/' := ne_of_isBlank space (by decide)
  have star : c ≠ '*' := ne_of_isBlank space (by decide)
  simp only [List.cons_append] at hashed within free ⊢
  generalize cs ++ (Comment.empty ++ c :: (cs ++ post)) = y at hashed ⊢
  generalize behind : cs ++ post = x at hashed within free ⊢
  have line := @isPrefixOf_ahead c ['/', '/'] (by simp [slash]) (d :: ds) x y
  have block := @isPrefixOf_ahead c ['/', '*'] (by simp [slash, star]) (d :: ds) x y
  simp only [List.cons_append] at line block
  rw [recognise] at within free ⊢
  rw [recognise, line, block]
  by_cases first : isBlank d = true
  · rw [if_pos first, Piece.total_cons, Piece.total_nil] at within
    have run := takeWhile_ahead (a := d :: ds) y within
    simp only [List.cons_append] at run
    rw [if_pos first, if_pos first, run]
  rw [if_neg first] at within free ⊢
  rw [if_neg first]
  by_cases toEnd : ['/', '/'].isPrefixOf (d :: (ds ++ c :: x)) = true
  · rw [if_pos toEnd, Comment.line, Piece.total_cons, Piece.total_nil] at within
    have run := takeWhile_ahead (a := d :: ds) y within
    simp only [List.cons_append] at run
    rw [if_pos toEnd, if_pos toEnd, Comment.line, Comment.line, run]
  rw [if_neg toEnd] at within free ⊢
  rw [if_neg toEnd]
  by_cases marked : ['/', '*'].isPrefixOf (d :: (ds ++ c :: x)) = true
  · rw [if_pos marked] at within
    rw [if_pos marked, if_pos marked]
    exact Comment.block_ahead space (a := d :: ds) marked within y
  rw [if_neg marked] at within free ⊢
  rw [if_neg marked]
  by_cases hashes : d = '#'
  · rw [if_pos hashes] at within free ⊢
    rw [if_pos hashes]
    exact hashed within free
  rw [if_neg hashes] at within ⊢
  rw [if_neg hashes]
  by_cases starts : isNameStart d = true
  · have named := name_ahead (not_isNameChar_of_isBlank space) (d :: ds) x y
    simp only [List.cons_append] at named
    rw [if_pos starts, if_pos starts, named]
  rw [if_neg starts] at within ⊢
  rw [if_neg starts]
  by_cases digit : d.isDigit = true
  · have size := Number.size_ahead space (d :: ds) x y
    simp only [List.cons_append] at size
    rw [if_pos digit, if_pos digit, size]
  rw [if_neg digit] at within ⊢
  rw [if_neg digit]
  by_cases quote : d = '"'
  · rw [if_pos quote] at within
    rw [if_pos quote, if_pos quote]
    exact Quotation.string_ahead some_char within y
  · rw [if_neg quote, if_neg quote]
    exact operator_ahead space (d :: ds) x y

/-- What is cut off a text first does not depend on a comment among blanks behind it, unless that
stands on the line of what is taken for a wrong closing name of a here-string. -/
theorem group_comment (within : Piece.total (group (a ++ (blanks ++ post))) ≤ a.length)
    (free : post = [] → '\n' ∉ blanks →
      (∃ p ∈ group (a ++ (blanks ++ post)), ∃ delimiter found,
        p.error = some (.mismatchedHereString delimiter found)) →
      ∃ c ∈ a.drop (Piece.total (group (a ++ (blanks ++ post)))), isBlank c = false) :
    group (a ++ (blanks ++ (Comment.empty ++ (blanks ++ post))))
      = group (a ++ (blanks ++ post)) := by
  have opened : 1 ≤ a.length := List.length_pos_iff.mpr some_char
  have first (x : List Char) : (a ++ x).take 1 = a.take 1 := List.take_append_of_le_length opened
  have recognised := recognise_comment some_blank stop blank some_char
  rw [group, first] at within free ⊢
  rw [group, first]
  cases pieces : recognise (a ++ (blanks ++ post)) with
  | nil =>
    rw [pieces] at recognised
    rw [recognised (Nat.zero_le _) (by simp)]
  | cons p ps =>
    rw [pieces] at recognised within free
    rw [recognised within free]

end

end JaiTree.Lexer
