import JaiTree.Cursor
import JaiTree.Proofs.Lexer.Lossless

/-!
Attached trivia: flattened again, the tokens that the grammar sees are the tokens of the text.
-/

namespace JaiTree

namespace Padded

theorem attach_trivia {t : Token} (trivial : t.isTrivia = true) (leading ts : List Token) :
    attach leading (t :: ts) = attach (leading ++ [t]) ts := by
  rw [attach, if_pos trivial]

theorem attach_seen {t : Token} (seen : t.isTrivia = false) (leading ts : List Token) :
    attach leading (t :: ts) = ⟨leading, t⟩ :: attach [] ts := by
  rw [attach, if_neg (ne_true_of_eq_false seen)]

/-- Folding trivia into the tokens after them loses none of them where the last is no trivia. -/
theorem flatMap_attach (leading body : List Token) (last : Token) (h : last.isTrivia = false) :
    (attach leading (body ++ [last])).flatMap tokens = leading ++ body ++ [last] := by
  induction body generalizing leading with
  | nil => simp [attach, h, tokens]
  | cons t ts ih =>
    rw [List.cons_append, attach]
    split
    · rw [ih]
      simp
    · rw [List.flatMap_cons, ih]
      simp [tokens]

/-- The tokens that are seen, with the trivia before them, are all that a text is cut into. -/
theorem flatMap_attach_scan (start : Nat) (text : List Char) :
    (attach [] (Lexer.scan 0 start text)).flatMap tokens = Lexer.scan 0 start text := by
  obtain ⟨body, found, -⟩ := Lexer.scan_eq_append start text
  rw [found, flatMap_attach [] body _ rfl, List.nil_append]

theorem attach_append (leading body : List Token) (last : Token) (h : last.isTrivia = false) :
    ∃ before trivia, attach leading (body ++ [last]) = before ++ [⟨trivia, last⟩]
      ∧ ∀ p ∈ before, p.token ∈ body := by
  induction body generalizing leading with
  | nil => exact ⟨[], leading, by simp [attach, h], by simp⟩
  | cons t ts ih =>
    rw [List.cons_append, attach]
    split
    · obtain ⟨before, trivia, found, among⟩ := ih (leading ++ [t])
      exact ⟨before, trivia, found, fun p member => List.mem_cons_of_mem t (among p member)⟩
    · obtain ⟨before, trivia, found, among⟩ := ih []
      refine ⟨⟨leading, t⟩ :: before, trivia, by rw [found, List.cons_append], ?_⟩
      intro p member
      rcases List.mem_cons.mp member with rfl | member
      · exact List.mem_cons_self
      · exact List.mem_cons_of_mem t (among p member)

/-- Only trivia is folded into a token. -/
theorem isTrivia_of_mem_attach {leading tokens : List Token} {p : Padded}
    (folded : ∀ t ∈ leading, t.isTrivia = true) (member : p ∈ attach leading tokens) :
    ∀ t ∈ p.leading, t.isTrivia = true := by
  induction tokens generalizing leading with
  | nil => cases member
  | cons t ts ih =>
    rw [attach] at member
    split at member
    · next trivial =>
      refine ih (fun u among => ?_) member
      rcases List.mem_append.mp among with among | among
      · exact folded u among
      · rwa [List.mem_singleton.mp among]
    · rcases List.mem_cons.mp member with rfl | member
      · exact folded
      · exact ih (by simp) member

theorem token_of_mem_attach {leading tokens : List Token} {p : Padded}
    (member : p ∈ attach leading tokens) : p.token.isTrivia = false := by
  induction tokens generalizing leading with
  | nil => cases member
  | cons t ts ih =>
    rw [attach] at member
    split at member
    · exact ih member
    · next significant =>
      rcases List.mem_cons.mp member with rfl | member
      · exact Bool.eq_false_iff.mpr significant
      · exact ih member

/-- Of a token and the trivia before it only the token may be wrong, and it says so just when it
is: that the text cannot be cut there. -/
structure Sound (padded : Padded) : Prop where
  leading : ∀ t ∈ padded.leading, t.kind ≠ .error
  error_iff : padded.token.error.isSome = true ↔ padded.token.kind = .error
  lexical : ∀ cause ∈ padded.token.error, cause.isLexical = true

end Padded

namespace Cursor

/-- Where one token is the end and comes last, it is what the grammar sees behind all others. -/
theorem ofPadded_append (before : List Padded) (last : Padded)
    (others : ∀ p ∈ before, p.token.kind ≠ .eof) (isEnd_last : last.token.kind = .eof) :
    (ofPadded (before ++ [last])).tokens = before ∧ (ofPadded (before ++ [last])).eof = last := by
  have inner : ∀ p ∈ before, (!isEnd p) = true := fun p member => by
    simpa [isEnd] using others p member
  constructor
  · rw [ofPadded, List.takeWhile_append_of_pos inner, List.takeWhile_cons_of_neg, List.append_nil]
    simp [isEnd, isEnd_last]
  · have none : before.find? isEnd = none :=
      List.find?_eq_none.mpr fun p member => by simpa [isEnd] using others p member
    simp [ofPadded, none, isEnd, isEnd_last]

/-- A cursor at the first token of a text has all that the grammar sees before it. -/
theorem ofText_parts (text : String) :
    (∀ p ∈ (ofText text).tokens, p.token.kind ≠ .eof)
      ∧ (ofText text).eof.token = .eofAt text.utf8ByteSize
      ∧ (ofText text).tokens ++ [(ofText text).eof] = Padded.ofTokens (tokenize text) := by
  obtain ⟨body, found, sound⟩ := tokenize_eq_append text
  obtain ⟨before, trivia, attached, among⟩ :=
    Padded.attach_append [] body (.eofAt text.utf8ByteSize) rfl
  have others (p : Padded) (member : p ∈ before) : p.token.kind ≠ .eof :=
    (sound p.token (among p member)).1
  obtain ⟨tokens, eof⟩ := ofPadded_append before ⟨trivia, .eofAt text.utf8ByteSize⟩ others rfl
  have seen : ofText text = ofPadded (before ++ [⟨trivia, .eofAt text.utf8ByteSize⟩]) := by
    rw [ofText, Padded.ofTokens, found, attached]
  rw [seen, tokens, eof, Padded.ofTokens, found, attached]
  exact ⟨others, rfl, rfl⟩

/-- What the grammar sees of a text: tokens that are not its end, and its end. -/
theorem ofText_seen (text : String) :
    (∀ p ∈ (ofText text).tokens, p.token.kind ≠ .eof)
      ∧ (ofText text).eof.token = .eofAt text.utf8ByteSize
      ∧ ((ofText text).tokens ++ [(ofText text).eof]).flatMap Padded.tokens = tokenize text := by
  obtain ⟨others, eof, whole⟩ := ofText_parts text
  refine ⟨others, eof, ?_⟩
  rw [whole, Padded.ofTokens, tokenize, Padded.flatMap_attach_scan]

/-- What the grammar sees are the tokens of the text but for trivia. -/
theorem token_of_mem_ofText {text : String} {p : Padded}
    (member : p ∈ (ofText text).tokens ++ [(ofText text).eof]) :
    p.token ∈ tokenize text ∧ p.token.isTrivia = false := by
  constructor
  · rw [← (ofText_seen text).2.2]
    exact List.mem_flatMap.mpr ⟨p, member, List.mem_append_right _ List.mem_cons_self⟩
  · rw [(ofText_parts text).2.2] at member
    exact Padded.token_of_mem_attach member

theorem folded_of_mem_ofText {text : String} {p : Padded}
    (member : p ∈ (ofText text).tokens ++ [(ofText text).eof]) :
    ∀ t ∈ p.leading, t.isTrivia = true := by
  rw [(ofText_parts text).2.2] at member
  exact Padded.isTrivia_of_mem_attach (by simp) member

/-- Every token of a text but trivia is one that the grammar sees. -/
theorem exists_of_mem_tokenize {text : String} {t : Token} (member : t ∈ tokenize text)
    (significant : t.isTrivia = false) :
    ∃ p ∈ (ofText text).tokens ++ [(ofText text).eof], p.token = t := by
  obtain ⟨-, -, seen⟩ := ofText_seen text
  rw [← seen] at member
  obtain ⟨p, among, own⟩ := List.mem_flatMap.mp member
  refine ⟨p, among, ?_⟩
  rw [Padded.tokens, List.mem_append, List.mem_singleton] at own
  rcases own with leading | rfl
  · have trivial := folded_of_mem_ofText among t leading
    rw [significant] at trivial
    cases trivial
  · rfl

/-- What the grammar sees of a text is sound but for tokens that are wrong in themselves. -/
theorem sound_of_mem_ofText {text : String} {p : Padded}
    (member : p ∈ (ofText text).tokens ++ [(ofText text).eof]) : p.Sound := by
  have among := (token_of_mem_ofText member).1
  constructor
  · intro t leading kind
    have trivial := folded_of_mem_ofText member t leading
    rw [Token.isTrivia, kind] at trivial
    cases trivial
  · exact error_iff_of_mem_tokenize among
  · intro cause found
    exact lexical_of_mem_tokenize among found

theorem isEnd_ofText (text : String) : (ofText text).eof.token.kind = .eof := by
  rw [(ofText_seen text).2.1]
  rfl

end Cursor

end JaiTree
