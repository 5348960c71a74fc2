import JaiTree.Proofs.Lexer.Enclosed

/-!
Strings: what the lexer cuts off where a quote opens one. The string goes up to the first quote
that no backslash takes, and all between the quotes is cut into escapes, placeholders and plain
runs; where there is no such quote, the rest of the text is cut off as one wrong token. Main
statement: `Lexer.cut_string`.
-/

namespace JaiTree.Lexer

open Text

namespace Quotation

/-- Where the first quote stands past the first `skip` characters, when each backslash is gone past
together with the character behind it. -/
def closing : (skip : Nat) → List Char → Option Nat
  | _, [] => none
  | skip + 1, _ :: cs => (closing skip cs).map (· + 1)
  | 0, c :: cs =>
    if c = '"' then some 0
    else if c = '\\' then (closing 1 cs).map (· + 1)
    else (closing 0 cs).map (· + 1)

/-- Tokens from byte `start` on that are pieces of a string with `after` behind them: escapes of two
characters, placeholders with all the digits that stand there, and plain runs, of which no two are
side by side. -/
inductive Inside (after : List Char) : (start : Nat) → List Token → Prop where
  | nothing {start : Nat} : Inside after start []
  | escape {start : Nat} {c : Char} {ts : List Token} : Inside after (start + width ['\\', c]) ts →
      Inside after start
        ({ kind := .escapeSequence, text := String.ofList ['\\', c], start } :: ts)
  | placeholder {start : Nat} {digits : List Char} {ts : List Token} :
      (∀ d ∈ digits, d.isDigit = true) →
      (∀ d ∈ (charsOf ts ++ after).head?, d.isDigit = false) →
      Inside after (start + width ('%' :: digits)) ts →
      Inside after start
        ({ kind := .stringPlaceholder, text := String.ofList ('%' :: digits), start } :: ts)
  | content {start : Nat} {plain : List Char} {ts : List Token} : plain ≠ [] →
      (∀ c ∈ plain, c ≠ '"' ∧ c ≠ '\\' ∧ c ≠ '%') →
      (∀ t ∈ ts.head?, t.kind ≠ .stringContent) →
      Inside after (start + width plain) ts →
      Inside after start
        ({ kind := .stringContent, text := String.ofList plain, start } :: ts)

theorem isPlain_iff {c : Char} : isPlain c = true ↔ c ≠ '"' ∧ c ≠ '\\' ∧ c ≠ '%' := by
  simp [isPlain, and_assoc]

/-- What holds of a text when it holds of what a string ends with, and of each piece of a string
with a text behind it when it holds of that text. -/
theorem inside_induction {motive : List Char → Prop} (nothing : motive [])
    (quote : ∀ cs, motive ('"' :: cs)) (lone : motive ['\\'])
    (escape : ∀ c cs, motive cs → motive ('\\' :: c :: cs))
    (placeholder : ∀ digits cs, (∀ d ∈ digits, d.isDigit = true) →
      (∀ d ∈ cs.head?, d.isDigit = false) → motive cs → motive ('%' :: digits ++ cs))
    (content : ∀ plain cs, plain ≠ [] → (∀ c ∈ plain, isPlain c = true) →
      (∀ c ∈ cs.head?, isPlain c = false) → motive cs → motive (plain ++ cs))
    (text : List Char) : motive text := by
  induction length : text.length using Nat.strongRecOn generalizing text with
  | _ n ih =>
    have stops (p : Char → Bool) (cs : List Char) : ∀ c ∈ (cs.dropWhile p).head?, p c = false := by
      intro c ends
      have stop := List.head?_dropWhile_not p cs
      rwa [Option.mem_def.mp ends] at stop
    have shorter (p : Char → Bool) (cs : List Char) : (cs.dropWhile p).length ≤ cs.length :=
      (List.dropWhile_sublist p).length_le
    cases text with
    | nil => exact nothing
    | cons c cs =>
      rw [List.length_cons] at length
      by_cases quoted : c = '"'
      · exact quoted ▸ quote cs
      by_cases escaped : c = '\\'
      · subst escaped
        cases cs with
        | nil => exact lone
        | cons d ds =>
          rw [List.length_cons] at length
          exact escape d ds (ih _ (by omega) ds rfl)
      by_cases placed : c = '%'
      · subst placed
        have below := shorter Char.isDigit cs
        rw [← List.takeWhile_append_dropWhile (p := Char.isDigit) (l := cs)]
        exact placeholder _ _ (List.all_eq_true.mp List.all_takeWhile) (stops Char.isDigit cs)
          (ih _ (by omega) _ rfl)
      · have plain : isPlain c = true := isPlain_iff.mpr ⟨quoted, escaped, placed⟩
        have below := shorter isPlain cs
        rw [← List.takeWhile_append_dropWhile (p := isPlain) (l := cs), ← List.cons_append]
        refine content _ _ (List.cons_ne_nil c _) ?_ (stops isPlain cs) (ih _ (by omega) _ rfl)
        exact List.forall_mem_cons.mpr ⟨plain, List.all_eq_true.mp List.all_takeWhile⟩

section

variable {digits plain cs : List Char}

theorem closing_skip (skip : Nat) (text : List Char) :
    closing skip text = (closing 0 (text.drop skip)).map (· + skip) := by
  induction text generalizing skip with
  | nil => cases skip <;> rfl
  | cons c cs ih =>
    cases skip with
    | zero => simp
    | succ skip =>
      rw [closing, ih, List.drop_succ_cons, Option.map_map]
      rfl

theorem closing_escape (c : Char) (cs : List Char) :
    closing 0 ('\\' :: c :: cs) = (closing 0 cs).map (· + 2) := by
  rw [closing, if_neg (by decide), if_pos rfl, closing_skip, Option.map_map]
  rfl

/-- No quote and no backslash stands in what is gone past character by character. -/
theorem closing_append (past : ∀ c ∈ plain, c ≠ '"' ∧ c ≠ '\\') (cs : List Char) :
    closing 0 (plain ++ cs) = (closing 0 cs).map (· + plain.length) := by
  induction plain with
  | nil => simp
  | cons c plain ih =>
    obtain ⟨⟨unquoted, unescaped⟩, past⟩ := List.forall_mem_cons.mp past
    rw [List.cons_append, closing, if_neg unquoted, if_neg unescaped, ih past, Option.map_map]
    rfl

theorem past_placeholder (run : ∀ d ∈ digits, d.isDigit = true) :
    ∀ c ∈ '%' :: digits, c ≠ '"' ∧ c ≠ '\\' := by
  refine List.forall_mem_cons.mpr ⟨by decide, fun d member => ?_⟩
  have digit := run d member
  constructor
  all_goals
    rintro rfl
    cases digit

theorem past_content (run : ∀ c ∈ plain, isPlain c = true) :
    ∀ c ∈ plain, c ≠ '"' ∧ c ≠ '\\' := by
  intro c member
  have own := isPlain_iff.mp (run c member)
  exact ⟨own.1, own.2.1⟩

theorem pieces_escape (c : Char) (cs : List Char) :
    pieces 0 ('\\' :: c :: cs)
      = (pieces 0 cs).map ({ kind := .escapeSequence, size := 2 } :: ·) := by
  rw [pieces, if_neg (by decide), if_pos rfl, pieces_skip]
  rfl

theorem pieces_placeholder (run : ∀ d ∈ digits, d.isDigit = true)
    (stop : ∀ d ∈ cs.head?, d.isDigit = false) :
    pieces 0 ('%' :: digits ++ cs)
      = (pieces 0 cs).map
        ({ kind := .stringPlaceholder, size := ('%' :: digits).length } :: ·) := by
  rw [List.cons_append, pieces, if_neg (by decide), if_neg (by decide), if_pos rfl,
    takeWhile_run run stop]
  dsimp only
  rw [pieces_skip digits.length, List.drop_left, List.length_cons, Nat.add_comm]

theorem pieces_content (some_char : plain ≠ []) (run : ∀ c ∈ plain, isPlain c = true)
    (stop : ∀ c ∈ cs.head?, isPlain c = false) :
    pieces 0 (plain ++ cs)
      = (pieces 0 cs).map ({ kind := .stringContent, size := plain.length } :: ·) := by
  obtain ⟨c, plain, rfl⟩ := List.exists_cons_of_ne_nil some_char
  obtain ⟨first, run⟩ := List.forall_mem_cons.mp run
  obtain ⟨unquoted, unescaped, unplaced⟩ := isPlain_iff.mp first
  rw [List.cons_append, pieces, if_neg unquoted, if_neg unescaped, if_neg unplaced,
    takeWhile_run run stop]
  dsimp only
  rw [pieces_skip plain.length, List.drop_left, List.length_cons, Nat.add_comm]

end

/-- A string that no quote closes has no pieces. -/
theorem pieces_unclosed {text : List Char} (unclosed : closing 0 text = none) :
    pieces 0 text = none := by
  induction text using inside_induction with
  | nothing => rfl
  | quote cs => cases unclosed
  | lone => rfl
  | escape c cs ih =>
    rw [closing_escape, Option.map_eq_none_iff] at unclosed
    rw [pieces_escape, ih unclosed, Option.map_none]
  | placeholder digits cs run stop ih =>
    rw [closing_append (past_placeholder run), Option.map_eq_none_iff] at unclosed
    rw [pieces_placeholder run stop, ih unclosed, Option.map_none]
  | content plain cs some_char run stop ih =>
    rw [closing_append (past_content run), Option.map_eq_none_iff] at unclosed
    rw [pieces_content some_char run stop, ih unclosed, Option.map_none]

/-- The first `k` characters of the text are cut into the pieces of a string, which the quote behind
them closes. -/
structure Closed (text : List Char) (k : Nat) (inner : List Piece) (rest : List Char) : Prop where
  found : pieces 0 text = some (inner ++ [{ kind := .doubleQuote, size := 1 }])
  total : Piece.total inner = k
  quote : text.drop k = '"' :: rest
  inside : ∀ start, Inside ('"' :: rest) start (Piece.tokens start text inner)

namespace Closed

variable {text run rest : List Char} {k : Nat} {inner : List Piece}

theorem chars (closed : Closed text k inner rest) (start : Nat) :
    charsOf (Piece.tokens start text inner) ++ '"' :: rest = text := by
  rw [charsOf, List.flatMap_def, Piece.flatten_tokens, closed.total, ← closed.quote,
    List.take_append_drop]

/-- One piece more at the head of the text. -/
theorem cons (closed : Closed text k inner rest) {kind : TokenKind}
    (found : pieces 0 (run ++ text)
      = (pieces 0 text).map ({ kind, size := run.length } :: ·))
    (inside : ∀ start, Inside ('"' :: rest) start
      ({ kind, text := String.ofList run, start }
        :: Piece.tokens (start + width run) text inner)) :
    Closed (run ++ text) (k + run.length) ({ kind, size := run.length } :: inner) rest where
  found := by
    rw [found, closed.found]
    rfl
  total := by rw [Piece.total_cons, closed.total, Nat.add_comm]
  quote := by rw [Nat.add_comm, ← List.drop_drop, List.drop_left, closed.quote]
  inside := by
    intro start
    rw [Piece.tokens_cons]
    exact inside start

end Closed

/-- A plain run begins with a plain character. -/
theorem Inside.isPlain_of_head {after : List Char} {start : Nat} {t : Token} {ts : List Token}
    (inside : Inside after start (t :: ts)) (content : t.kind = .stringContent) :
    ∃ c ∈ (charsOf (t :: ts)).head?, isPlain c = true := by
  cases inside with
  | escape => cases content
  | placeholder => cases content
  | @content _ plain _ some_char run =>
    obtain ⟨c, cs, rfl⟩ := List.exists_cons_of_ne_nil some_char
    refine ⟨c, ?_, isPlain_iff.mpr (run c List.mem_cons_self)⟩
    rw [charsOf, List.flatMap_cons, String.toList_ofList]
    rfl

/-- Where a quote closes a string, its pieces go up to that quote. -/
theorem exists_closed {text : List Char} {k : Nat} (closes : closing 0 text = some k) :
    ∃ inner rest, Closed text k inner rest := by
  induction text using inside_induction generalizing k with
  | nothing => cases closes
  | quote cs =>
    cases closes
    exact ⟨[], cs, rfl, rfl, rfl, fun start => .nothing⟩
  | lone => cases closes
  | escape c cs ih =>
    rw [closing_escape] at closes
    obtain ⟨k, later, rfl⟩ := Option.map_eq_some_iff.mp closes
    obtain ⟨inner, rest, closed⟩ := ih later
    have escaped : Closed (['\\', c] ++ cs) (k + ['\\', c].length)
        ({ kind := .escapeSequence, size := ['\\', c].length } :: inner) rest :=
      closed.cons (pieces_escape c cs) fun start => .escape (closed.inside _)
    exact ⟨_, rest, escaped⟩
  | placeholder digits cs run stop ih =>
    rw [closing_append (past_placeholder run)] at closes
    obtain ⟨k, later, rfl⟩ := Option.map_eq_some_iff.mp closes
    obtain ⟨inner, rest, closed⟩ := ih later
    refine ⟨_, rest, closed.cons (pieces_placeholder run stop) fun start =>
      .placeholder run ?_ (closed.inside _)⟩
    rwa [closed.chars]
  | content plain cs some_char run stop ih =>
    rw [closing_append (past_content run)] at closes
    obtain ⟨k, later, rfl⟩ := Option.map_eq_some_iff.mp closes
    obtain ⟨inner, rest, closed⟩ := ih later
    refine ⟨_, rest, closed.cons (pieces_content some_char run stop) fun start =>
      .content some_char (fun c member => isPlain_iff.mp (run c member)) ?_ (closed.inside _)⟩
    intro t first content
    obtain ⟨ts, tokens⟩ := List.head?_eq_some_iff.mp first
    have inside := closed.inside (start + width plain)
    have chars := closed.chars (start + width plain)
    rw [tokens] at inside chars
    obtain ⟨c, begins, own⟩ := inside.isPlain_of_head content
    rw [← chars, List.head?_append, Option.mem_def.mp begins] at stop
    rw [stop c rfl] at own
    cases own

/-- The tokens of a string that begins at byte `start`, with its pieces between the quotes. -/
def tokens (start : Nat) (inner : List Token) : List Token :=
  { kind := .doubleQuote, text := "\"", start }
    :: (inner ++ [{ kind := .doubleQuote, text := "\"",
                    start := start + width ('"' :: charsOf inner) }])

theorem charsOf_tokens (start : Nat) (inner : List Token) :
    charsOf (tokens start inner) = '"' :: (charsOf inner ++ ['"']) := by
  simp [tokens, charsOf]

theorem group_quote (text : List Char) : group ('"' :: text) = string ('"' :: text) := by
  have first : recognise ('"' :: text) = string ('"' :: text) := rfl
  rw [group, first, string]
  cases pieces 0 (('"' :: text).drop 1) <;> rfl

variable {lexer : Lexer} {text rest : List Char} {k : Nat} {inner : List Piece}

theorem Closed.charsOf_inner (closed : Closed text k inner rest) (start : Nat) :
    charsOf (Piece.tokens start text inner) = text.take k := by
  rw [charsOf, List.flatMap_def, Piece.flatten_tokens, closed.total]

theorem Closed.group_eq (closed : Closed text k inner rest) :
    group ('"' :: text)
      = { kind := .doubleQuote, size := ['"'].length }
        :: (inner ++ [{ kind := .doubleQuote, size := ['"'].length }]) := by
  rw [group_quote, string, List.drop_succ_cons, List.drop_zero, closed.found]
  rfl

/-- A string that a quote closes is cut into its quotes and its pieces. -/
theorem Closed.tokens_group (closed : Closed text k inner rest) (start : Nat) :
    Piece.tokens start ('"' :: text) (group ('"' :: text))
      = tokens start (Piece.tokens (start + width ['"']) text inner) := by
  have first := Piece.tokens_cons start ['"'] text .doubleQuote
    (inner ++ [{ kind := .doubleQuote, size := ['"'].length }])
  have last := Piece.tokens_cons (start + width ['"'] + width (text.take k)) ['"'] rest
    .doubleQuote []
  rw [List.singleton_append] at first last
  rw [closed.group_eq, first, Piece.tokens_append, closed.total, closed.quote, last, tokens,
    closed.charsOf_inner, width_cons, width_cons, width_nil, Nat.add_zero, Nat.add_assoc]
  rfl

/-- The lexer goes on behind the quote that closes a string. -/
theorem Closed.drop_group (closed : Closed text k inner rest) :
    ('"' :: text).drop (Piece.total (group ('"' :: text))) = text.drop (k + 1) := by
  rw [closed.group_eq, Piece.total_cons, Piece.total_append, closed.total, Nat.add_comm]
  rfl

end Quotation

/-- Where a quote opens a string, the lexer cuts off all up to the first quote that no backslash
takes: a quote, the pieces of the string and a quote. Where there is no such quote, it cuts off the
rest of the text as one wrong token. -/
theorem cut_string (lexer : Lexer) (text : List Char) (opens : lexer.rest = '"' :: text) :
    (∀ k, Quotation.closing 0 text = some k →
      ∃ inner, Quotation.Inside (text.drop k) (lexer.position + 1) inner
        ∧ charsOf (Quotation.tokens lexer.position inner) = '"' :: text.take (k + 1)
        ∧ lexer.Emits (Quotation.tokens lexer.position inner) (text.drop (k + 1)))
    ∧ (Quotation.closing 0 text = none →
      lexer.Emits
        [{ kind := .error, text := String.ofList lexer.rest, start := lexer.position,
           error := some .unterminatedString }] []) := by
  have emits := Emits.group lexer (by rw [opens]; exact List.cons_ne_nil _ _)
  rw [opens] at emits ⊢
  constructor
  · intro k closes
    obtain ⟨inner, rest, closed⟩ := Quotation.exists_closed closes
    rw [closed.tokens_group, closed.drop_group] at emits
    refine ⟨_, closed.quote ▸ closed.inside _, ?_, emits⟩
    have next : text.take (k + 1) = text.take k ++ ['"'] := by
      rw [List.take_add, closed.quote]
      rfl
    rw [Quotation.charsOf_tokens, closed.charsOf_inner, next]
  · intro unclosed
    have pieces : group ('"' :: text)
        = [.faulty .unterminatedString ('"' :: text).length] := by
      rw [Quotation.group_quote, Quotation.string, List.drop_succ_cons, List.drop_zero,
        Quotation.pieces_unclosed unclosed]
    rw [pieces] at emits
    simpa [Piece.tokens, Piece.faulty] using emits

/-- A quote behind a backslash does not close a string, and a backslash at the end of the text
takes nothing. -/
theorem cut_string_escaped :
    let closed := Lexer.ofText "\"\\é%12x\\\"%\";"
    let text := "\\é%12x\\\"%\";".toList
    let unclosed := Lexer.ofText "\"%\\"
    closed.rest = '"' :: text ∧ Quotation.closing 0 text = some 9
      ∧ (∃ inner, Quotation.Inside ['"', ';'] 1 inner
        ∧ charsOf (Quotation.tokens 0 inner) = "\"\\é%12x\\\"%\"".toList
        ∧ closed.Emits (Quotation.tokens 0 inner) [';'])
      ∧ unclosed.rest = ['"', '%', '\\'] ∧ Quotation.closing 0 ['%', '\\'] = none
      ∧ unclosed.Emits
        [{ kind := .error, text := "\"%\\", start := 0, error := some .unterminatedString }] []
    := by
  intro closed text unclosed
  have opens : closed.rest = '"' :: text := by decide
  have closes : Quotation.closing 0 text = some 9 := by decide
  have opens' : unclosed.rest = ['"', '%', '\\'] := by decide
  have never : Quotation.closing 0 ['%', '\\'] = none := by decide
  exact ⟨opens, closes, (cut_string closed text opens).1 9 closes, opens', never,
    (cut_string unclosed _ opens').2 never⟩

end JaiTree.Lexer
