import JaiTree.Proofs.Lexer.Tiling

/-!
Lexing loses nothing: a lexer ends, and the tokens it hands out are the slices of the text one
after the other, with its end as the last. Main statement: `tokenize_lossless`.
-/

namespace JaiTree

namespace Lexer

/-- What a lexer hands out up to where it has nothing more. -/
inductive HandsOut : Lexer → List Token → Prop where
  | nothing {lexer : Lexer} : lexer.next?.1 = none → HandsOut lexer []
  | token {lexer : Lexer} {t : Token} {ts : List Token} :
      lexer.next?.1 = some t → HandsOut lexer.next?.2 ts → HandsOut lexer (t :: ts)

theorem cut_forward (lexer : Lexer) (h : lexer.rest ≠ []) :
    lexer.position < lexer.cut.position ∧ lexer.cut.rest.length < lexer.rest.length := by
  obtain ⟨fit, pos⟩ := group_fit h
  have below := fit.total_le
  constructor
  · rw [cut, Nat.lt_add_right_iff_pos]
    cases rest : lexer.rest with
    | nil => exact absurd rest h
    | cons c cs =>
      rw [rest] at pos
      rw [List.take_cons pos, Text.width_cons]
      have some := c.utf8Size_pos
      omega
  · rw [cut, List.length_drop]
    omega

/-- A group that is cut hands out at least one token. -/
theorem cut_tokens_ne_nil (start : Nat) {text : List Char} (h : text ≠ []) :
    Piece.tokens start text (group text) ≠ [] := by
  have pos := (group_fit h).2
  cases pieces : group text with
  | nil => simp [pieces] at pos
  | cons p ps => simp [Piece.tokens]

/-- A lexer hands out what waits and then the tokens of what it has not cut yet. -/
theorem handsOut_scan (lexer : Lexer) (unfinished : lexer.finished = false)
    (waiting : ∀ t ∈ lexer.pending, t.kind ≠ .eof) :
    HandsOut lexer (lexer.pending ++ scan 0 lexer.position lexer.rest) := by
  -- What is not cut yet gets shorter with each group, and within a group what waits does.
  induction length : lexer.rest.length using Nat.strongRecOn generalizing lexer with
  | _ n ih =>
    obtain ⟨rest, position, pending, finished⟩ := lexer
    simp only at unfinished waiting length ⊢
    subst unfinished
    induction pending with
    | cons t ts later =>
      have notEnd := waiting t (by simp)
      refine .token (by simp [next?, next]) ?_
      simpa [next?, next, notEnd] using later fun u hu => waiting u (by simp [hu])
    | nil =>
      rw [List.nil_append]
      by_cases h : rest = []
      · subst h
        exact .token (by simp [next?, next]) (.nothing (by simp [next?, next, Token.eofAt]))
      · have some := cut_tokens_ne_nil position h
        have forward := (cut_forward ⟨rest, position, [], false⟩ h).2
        rw [scan_group position h]
        cases cutTokens : Piece.tokens position rest (group rest) with
        | nil => exact absurd cutTokens some
        | cons t ts =>
          have sound (u : Token) (hu : u ∈ t :: ts) : u.kind ≠ .eof :=
            (Piece.mem_tokens (group_fit h).1 (cutTokens ▸ hu)).1
          have after := ih _ (length ▸ forward)
            { Lexer.cut ⟨rest, position, [], false⟩ with pending := ts } rfl
            (fun u hu => sound u (by simp [hu])) rfl
          have handed : Lexer.next ⟨rest, position, [], false⟩
              = (t, { Lexer.cut ⟨rest, position, [], false⟩ with pending := ts }) := by
            cases rest with
            | nil => exact absurd rfl h
            | cons c cs => simp [next, cut, cutTokens]
          refine .token (by simp [next?, handed]) ?_
          simpa [next?, handed, sound t (by simp), cut] using after

end Lexer

/-- The end comes last and nowhere else, and all before it are some text. -/
theorem Lexer.scan_eq_append (start : Nat) (text : List Char) :
    ∃ body, scan 0 start text = body ++ [.eofAt (start + Text.width text)]
      ∧ ∀ t ∈ body, t.kind ≠ .eof ∧ t.text ≠ "" ∧ (t.error.isSome = true ↔ t.kind = .error) := by
  induction start, text using scan_induction with
  | nil start => exact ⟨[], rfl, by simp⟩
  | group start text h ih =>
    obtain ⟨body, found, sound⟩ := ih
    refine ⟨Piece.tokens start text (group text) ++ body, ?_, ?_⟩
    · rw [found, List.append_assoc, Nat.add_assoc, ← Text.width_append, List.take_append_drop]
    · intro t member
      rcases List.mem_append.mp member with member | member
      · exact Piece.mem_tokens (group_fit h).1 member
      · exact sound t member

theorem tokenize_eq_append (text : String) :
    ∃ body, tokenize text = body ++ [.eofAt text.utf8ByteSize]
      ∧ ∀ t ∈ body, t.kind ≠ .eof ∧ t.text ≠ "" ∧ (t.error.isSome = true ↔ t.kind = .error) := by
  obtain ⟨body, found, sound⟩ := Lexer.scan_eq_append 0 text.toList
  refine ⟨body, ?_, sound⟩
  rw [tokenize, found, Nat.zero_add, Text.width_toList]

theorem tokenize_tiles (text : String) : Lexer.Tiles 0 text.toList (tokenize text) :=
  Lexer.scan_tiles 0 text.toList

theorem tokenize_ne_nil (text : String) : tokenize text ≠ [] := by
  obtain ⟨body, found, -⟩ := tokenize_eq_append text
  simp [found]

/-- Where the tokens of a text go on as those of another, the text does. -/
theorem tokenize_split {source : String} {before : List Token} {start : Nat} {text : List Char}
    (whole : tokenize source = before ++ Lexer.scan 0 start text) :
    ∃ head, source.toList = head ++ text ∧ start = Text.width head ∧ Lexer.Tiles 0 head before
      ∧ ∀ t ∈ before, t.kind ≠ .eof := by
  have tiles := tokenize_tiles source
  rw [whole] at tiles
  obtain ⟨head, tail, parts, left, right⟩ := tiles.split
  have scanned := Lexer.scan_tiles start text
  obtain ⟨body, found, -⟩ := Lexer.scan_eq_append start text
  have some_token : Lexer.scan 0 start text ≠ [] := by simp [found]
  refine ⟨head, ?_, ?_, left, fun t member => ?_⟩
  · rw [parts, ← right.flatMap_text, scanned.flatMap_text]
  · rw [← scanned.head_start some_token, right.head_start some_token, Nat.zero_add]
  · obtain ⟨all, ended, sound⟩ := tokenize_eq_append source
    rw [whole, found, ← List.append_assoc] at ended
    obtain ⟨rfl, -⟩ := List.append_inj' ended rfl
    exact (sound t (List.mem_append_left body member)).1

/-- A token of a text begins where a character does, or at the end. -/
theorem exists_split_of_mem_tokenize {text : String} {t : Token} (member : t ∈ tokenize text) :
    ∃ head tail, text.toList = head ++ tail ∧ t.start = Text.width head := by
  obtain ⟨before, after, parts⟩ := List.append_of_mem member
  have tiles := tokenize_tiles text
  rw [parts] at tiles
  obtain ⟨head, tail, whole, -, right⟩ := tiles.split
  exact ⟨head, tail, whole, by rw [right.1, Nat.zero_add]⟩

theorem start_lt_stop_of_mem_tokenize {text : String} {t : Token} (h : t ∈ tokenize text)
    (ne_eof : t.kind ≠ .eof) : t.start < t.stop := by
  obtain ⟨body, found, sound⟩ := tokenize_eq_append text
  rw [found, List.mem_append, List.mem_singleton] at h
  rcases h with h | rfl
  · have size : t.text.utf8ByteSize ≠ 0 := by
      rw [Ne, String.utf8ByteSize_eq_zero_iff]
      exact (sound t h).2.1
    rw [Token.stop]
    omega
  · exact absurd rfl ne_eof

/-- The positions of the tokens fit in 32 bits where the text has fewer than 2^32 bytes. -/
theorem stop_lt_of_mem_tokenize {text : String} {t : Token} (h : t ∈ tokenize text)
    (short : text.utf8ByteSize < 2 ^ 32) : t.stop < 2 ^ 32 := by
  have inside := (tokenize_tiles text).stop_le h
  rw [Nat.zero_add, Text.width_toList] at inside
  exact Nat.lt_of_le_of_lt inside short

theorem error_iff_of_mem_tokenize {text : String} {t : Token} (h : t ∈ tokenize text) :
    t.error.isSome = true ↔ t.kind = .error := by
  obtain ⟨body, found, sound⟩ := tokenize_eq_append text
  rw [found, List.mem_append, List.mem_singleton] at h
  rcases h with h | rfl
  · exact (sound t h).2.2
  · simp [Token.eofAt]

/-- What a token says of itself is that the text cannot be cut there. -/
theorem lexical_of_mem_tokenize {text : String} {t : Token} (h : t ∈ tokenize text) {cause : Cause}
    (found : cause ∈ t.error) : cause.isLexical = true := by
  have scanned (start : Nat) (cs : List Char) :
      t ∈ Lexer.scan 0 start cs → cause.isLexical = true := by
    induction start, cs using Lexer.scan_induction with
    | nil start =>
      intro member
      rw [List.mem_singleton.mp member] at found
      cases found
    | group start cs some_char ih =>
      intro member
      rcases List.mem_append.mp member with member | member
      · exact Lexer.Piece.lexical_of_mem_tokens (Lexer.group_fit some_char).1.sound member found
      · exact ih member
  exact scanned 0 text.toList h

theorem slice?_of_mem_tokenize {text : String} {t : Token} (h : t ∈ tokenize text) :
    Text.slice? text t.start t.stop = some t.text := by
  obtain ⟨before, after, parts⟩ := List.append_of_mem h
  have tiles := tokenize_tiles text
  rw [parts, List.append_cons] at tiles
  simpa using tiles.slice? (List.cons_ne_nil t [])

/-- A lexer moves on with each group that it cuts, so it ends. What it hands out are the slices of
the text from its first byte on, each beginning where the one before it ends and none of them empty
but the end of the text, which comes last. -/
theorem tokenize_lossless (text : String) :
    (∀ lexer : Lexer, lexer.rest ≠ [] →
      lexer.position < lexer.cut.position ∧ lexer.cut.rest.length < lexer.rest.length)
    ∧ Lexer.HandsOut (.ofText text) (tokenize text)
    ∧ (∃ body, tokenize text = body ++ [.eofAt text.utf8ByteSize]
      ∧ ∀ t ∈ body, t.kind ≠ .eof ∧ t.text ≠ "")
    ∧ (tokenize text).head?.map Token.start = some 0
    ∧ ((tokenize text).IsChain fun a b => a.stop = b.start)
    ∧ (∀ t ∈ tokenize text, Text.slice? text t.start t.stop = some t.text)
    ∧ ∀ t ∈ tokenize text, t.error.isSome = true ↔ t.kind = .error := by
  have tiles := tokenize_tiles text
  have some := tokenize_ne_nil text
  obtain ⟨body, found, sound⟩ := tokenize_eq_append text
  refine ⟨Lexer.cut_forward, Lexer.handsOut_scan (.ofText text) rfl (by simp [Lexer.ofText]),
    ⟨body, found, fun t member => ⟨(sound t member).1, (sound t member).2.1⟩⟩, ?_,
    tiles.isChain, fun t => slice?_of_mem_tokenize, fun t => error_iff_of_mem_tokenize⟩
  rw [List.head?_eq_some_head some, Option.map_some, tiles.head_start some]

end JaiTree
