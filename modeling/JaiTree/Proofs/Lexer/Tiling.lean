import JaiTree.Lexer
import JaiTree.Proofs.Lexer.Fit
import JaiTree.Proofs.Text.Slice
import Mathlib.Data.List.Chain

/-!
Tilings: the tokens of a text lie side by side over all of it. Main statement: `scan_tiles`.
-/

namespace JaiTree

/-- Of two lists in a row either the second holds an element or the first does. -/
theorem split_at {α : Type} {before after first later : List α} {x : α}
    (parts : before ++ x :: after = first ++ later) :
    (∃ more, before = first ++ more ∧ later = more ++ x :: after)
      ∨ ∃ more, first = before ++ x :: more ∧ after = more ++ later := by
  rcases List.append_eq_append_iff.mp parts with ⟨more, rfl, rest⟩ | ⟨more, rfl, rest⟩
  · cases more with
    | nil => exact .inl ⟨[], by simp, rest.symm⟩
    | cons c cs =>
      obtain ⟨rfl, rfl⟩ := List.cons.inj rest
      exact .inr ⟨cs, rfl, rfl⟩
  · exact .inl ⟨more, rfl, rest⟩

namespace Lexer

/-- The tokens lie side by side over a text that begins at byte `start`. -/
def Tiles : (start : Nat) → (text : List Char) → List Token → Prop
  | _, text, [] => text = []
  | start, text, t :: ts =>
    t.start = start ∧ ∃ rest, text = t.text.toList ++ rest ∧ Tiles t.stop rest ts

theorem stop_eq_width (t : Token) : t.stop = t.start + Text.width t.text.toList := by
  rw [Token.stop, ← Text.utf8ByteSize_ofList, String.ofList_toList]

namespace Tiles

variable {start : Nat} {text : List Char} {tokens : List Token}

theorem append {first second : List Char} {a b : List Token} (left : Tiles start first a)
    (right : Tiles (start + Text.width first) second b) :
    Tiles start (first ++ second) (a ++ b) := by
  induction a generalizing start first with
  | nil =>
    have empty : first = [] := left
    subst empty
    simpa using right
  | cons t ts ih =>
    obtain ⟨begins, rest, rfl, tiles⟩ := left
    refine ⟨begins, rest ++ second, List.append_assoc _ _ _, ih tiles ?_⟩
    rw [stop_eq_width, begins, Nat.add_assoc, ← Text.width_append]
    exact right

/-- Tokens side by side part the text where they are parted. -/
theorem split {a b : List Token} (tiles : Tiles start text (a ++ b)) :
    ∃ first second, text = first ++ second ∧ Tiles start first a
      ∧ Tiles (start + Text.width first) second b := by
  induction a generalizing start text with
  | nil => exact ⟨[], text, rfl, rfl, tiles⟩
  | cons t ts ih =>
    obtain ⟨begins, rest, rfl, tiles⟩ := tiles
    obtain ⟨first, second, rfl, left, right⟩ := ih tiles
    refine ⟨t.text.toList ++ first, second, (List.append_assoc _ _ _).symm,
      ⟨begins, first, rfl, left⟩, ?_⟩
    rw [Text.width_append, ← Nat.add_assoc, ← begins, ← stop_eq_width]
    exact right

theorem flatMap_text (tiles : Tiles start text tokens) :
    tokens.flatMap (fun t => t.text.toList) = text := by
  induction tokens generalizing start text with
  | nil => exact Eq.symm tiles
  | cons t ts ih =>
    obtain ⟨-, rest, rfl, tiles⟩ := tiles
    rw [List.flatMap_cons, ih tiles]

theorem join_text (tiles : Tiles start text tokens) :
    String.join (tokens.map fun t => t.text) = String.ofList text := by
  rw [← String.toList_inj, String.toList_join, String.toList_ofList, List.flatMap_map]
  exact tiles.flatMap_text

theorem head_start (tiles : Tiles start text tokens) (h : tokens ≠ []) :
    (tokens.head h).start = start := by
  cases tokens with
  | nil => exact absurd rfl h
  | cons t ts => exact tiles.1

theorem getLast_stop (tiles : Tiles start text tokens) (h : tokens ≠ []) :
    (tokens.getLast h).stop = start + Text.width text := by
  induction tokens generalizing start text with
  | nil => exact absurd rfl h
  | cons t ts ih =>
    obtain ⟨begins, rest, rfl, tiles⟩ := tiles
    rw [Text.width_append, ← Nat.add_assoc, ← begins, ← stop_eq_width]
    cases ts with
    | nil =>
      have empty : rest = [] := tiles
      simp [empty]
    | cons u us =>
      rw [List.getLast_cons (List.cons_ne_nil u us)]
      exact ih tiles (List.cons_ne_nil u us)

theorem isChain (tiles : Tiles start text tokens) :
    tokens.IsChain fun a b => a.stop = b.start := by
  induction tokens generalizing start text with
  | nil => exact .nil
  | cons t ts ih =>
    obtain ⟨-, rest, -, tiles⟩ := tiles
    cases ts with
    | nil => exact .singleton t
    | cons u us => exact .cons_cons tiles.1.symm (ih tiles)

theorem start_le (tiles : Tiles start text tokens) {t : Token} (member : t ∈ tokens) :
    start ≤ t.start := by
  induction tokens generalizing start text with
  | nil => cases member
  | cons u us ih =>
    obtain ⟨begins, rest, -, tiles⟩ := tiles
    rcases List.mem_cons.mp member with rfl | member
    · exact Nat.le_of_eq begins.symm
    · have later := ih tiles member
      rw [stop_eq_width, begins] at later
      omega

theorem stop_le (tiles : Tiles start text tokens) {t : Token} (member : t ∈ tokens) :
    t.stop ≤ start + Text.width text := by
  induction tokens generalizing start text with
  | nil => cases member
  | cons u us ih =>
    obtain ⟨begins, rest, rfl, tiles⟩ := tiles
    have next := stop_eq_width u
    rw [begins] at next
    rw [Text.width_append, ← Nat.add_assoc, ← next]
    rcases List.mem_cons.mp member with rfl | member
    · exact Nat.le_add_right _ _
    · exact ih tiles member

theorem pairwise (tiles : Tiles start text tokens) :
    tokens.Pairwise fun a b => a.stop ≤ b.start := by
  induction tokens generalizing start text with
  | nil => exact .nil
  | cons t ts ih =>
    obtain ⟨-, rest, -, tiles⟩ := tiles
    exact .cons (fun u member => tiles.start_le member) (ih tiles)

/-- Some tokens in a row are what the text holds from the first to the last of them. -/
theorem slice? {text : String} {before middle after : List Token}
    (tiles : Tiles 0 text.toList (before ++ middle ++ after)) (h : middle ≠ []) :
    Text.slice? text (middle.head h).start (middle.getLast h).stop
      = some (String.join (middle.map fun t => t.text)) := by
  obtain ⟨whole, last, parts, tiles, -⟩ := tiles.split
  obtain ⟨first, part, rfl, -, tiles⟩ := tiles.split
  rw [Nat.zero_add] at tiles
  rw [tiles.head_start h, tiles.getLast_stop h, tiles.join_text,
    ← Text.slice?_middle first part last, ← parts, String.ofList_toList]

end Tiles

namespace Piece

/-- Pieces that fit cut tokens that lie side by side over the characters they take. -/
theorem tokens_tiles (start : Nat) {text : List Char} {pieces : List Piece}
    (h : total pieces ≤ text.length) :
    Tiles start (text.take (total pieces)) (tokens start text pieces) := by
  induction pieces generalizing start text with
  | nil => simp [tokens, Tiles]
  | cons p ps ih =>
    rw [total_cons] at h
    refine ⟨rfl, (text.drop p.size).take (total ps), ?_, ih _ ?_⟩
    · rw [total_cons, List.take_add, String.toList_ofList]
    · rw [List.length_drop]
      omega

theorem mem_tokens {start : Nat} {text : List Char} {pieces : List Piece} {t : Token}
    (fit : Fit text.length pieces) (member : t ∈ tokens start text pieces) :
    t.kind ≠ .eof ∧ t.text ≠ "" ∧ (t.error.isSome = true ↔ t.kind = .error) := by
  induction pieces generalizing start text with
  | nil => simp [tokens] at member
  | cons p ps ih =>
    have sound := fit.sound p (by simp)
    have below := fit.total_le
    rw [total_cons] at below
    rcases List.mem_cons.mp member with rfl | member
    · refine ⟨sound.ne_eof, ?_, sound.error_iff⟩
      intro empty
      have none := congrArg (fun s => s.toList.length) empty
      have pos := sound.pos
      simp only [String.toList_ofList, List.length_take, String.toList_empty,
        List.length_nil] at none
      omega
    · refine ih ⟨fun q hq => fit.sound q (by simp [hq]), ?_⟩ member
      rw [List.length_drop]
      omega

theorem lexical_of_mem_tokens {start : Nat} {text : List Char} {pieces : List Piece} {t : Token}
    (sound : ∀ piece ∈ pieces, piece.Sound) (member : t ∈ tokens start text pieces) {cause : Cause}
    (found : cause ∈ t.error) : cause.isLexical = true := by
  induction pieces generalizing start text with
  | nil => simp [tokens] at member
  | cons p ps ih =>
    rcases List.mem_cons.mp member with rfl | member
    · exact (sound p List.mem_cons_self).lexical cause found
    · exact ih (fun q among => sound q (List.mem_cons_of_mem p among)) member

end Piece

theorem scan_skip {skip start : Nat} {text : List Char} (h : skip ≤ text.length) :
    scan skip start text = scan 0 start (text.drop skip) := by
  induction text generalizing skip with
  | nil =>
    have none : skip = 0 := by simpa using h
    rw [none, List.drop_zero]
  | cons c cs ih =>
    cases skip with
    | zero => rw [List.drop_zero]
    | succ skip =>
      rw [scan, List.drop_succ_cons]
      exact ih (by simpa using h)

/-- The tokens of the first group come first, and then those of what follows it. -/
theorem scan_group (start : Nat) {text : List Char} (h : text ≠ []) :
    scan 0 start text =
      Piece.tokens start text (group text)
        ++ scan 0 (start + Text.width (text.take (Piece.total (group text))))
          (text.drop (Piece.total (group text))) := by
  cases text with
  | nil => exact absurd rfl h
  | cons c cs =>
    obtain ⟨fit, pos⟩ := group_fit h
    have below := fit.total_le
    rw [List.length_cons] at below
    rw [scan, scan_skip (by omega)]
    congr 2
    rw [← List.drop_succ_cons (a := c)]
    congr 1
    omega

/-- What holds of the tokens of a text when it holds of its end, and of a text whenever it holds
past its first group. -/
theorem scan_induction {motive : Nat → List Char → List Token → Prop}
    (nil : ∀ start, motive start [] [.eofAt start])
    (group : ∀ start text, text ≠ [] →
      motive (start + Text.width (text.take (Piece.total (Lexer.group text))))
        (text.drop (Piece.total (Lexer.group text)))
        (scan 0 (start + Text.width (text.take (Piece.total (Lexer.group text))))
          (text.drop (Piece.total (Lexer.group text)))) →
      motive start text
        (Piece.tokens start text (Lexer.group text)
          ++ scan 0 (start + Text.width (text.take (Piece.total (Lexer.group text))))
            (text.drop (Piece.total (Lexer.group text)))))
    (start : Nat) (text : List Char) : motive start text (scan 0 start text) := by
  induction length : text.length using Nat.strongRecOn generalizing start text with
  | _ n ih =>
    by_cases h : text = []
    · subst h
      exact nil start
    · rw [scan_group start h]
      apply group start text h
      apply ih _ _ _ _ rfl
      obtain ⟨fit, pos⟩ := group_fit h
      have below := fit.total_le
      rw [List.length_drop]
      omega

theorem scan_tiles (start : Nat) (text : List Char) : Tiles start text (scan 0 start text) := by
  induction start, text using scan_induction with
  | nil start => exact ⟨rfl, [], rfl, rfl⟩
  | group start text h ih =>
    have first := Piece.tokens_tiles start (group_fit h).1.total_le
    have whole := first.append ih
    rwa [List.take_append_drop] at whole

/-- A token of a text, but for its end, is cut off with the group at the head of some rest of it. -/
theorem exists_group {start : Nat} {text : List Char} {before after : List Token} {t : Token}
    (split : scan 0 start text = before ++ t :: after) (other : ∀ position, t ≠ .eofAt position) :
    ∃ earlier mine position rest inner, before = earlier ++ mine
      ∧ text = earlier.flatMap (fun t => t.text.toList) ++ rest ∧ rest ≠ []
      ∧ Piece.tokens position rest (group rest) = mine ++ t :: inner
      ∧ ∃ next, after = inner ++ scan 0 next (rest.drop (Piece.total (group rest))) := by
  induction start, text using scan_induction generalizing before with
  | nil start =>
    have member : t ∈ [Token.eofAt start] := split ▸ by simp
    exact absurd (List.mem_singleton.mp member) (other start)
  | group start text some_char ih =>
    rcases split_at split.symm with ⟨more, rfl, later⟩ | ⟨inner, own, behind⟩
    · obtain ⟨earlier, mine, position, rest, inner, rfl, whole, found⟩ := ih later
      have tiles := Piece.tokens_tiles start (group_fit some_char).1.total_le
      refine ⟨_ ++ earlier, mine, position, rest, inner, (List.append_assoc ..).symm, ?_, found⟩
      rw [List.flatMap_append, tiles.flatMap_text, List.append_assoc, ← whole,
        List.take_append_drop]
    · exact ⟨[], before, start, text, inner, rfl, rfl, some_char, own, _, behind⟩

end Lexer

end JaiTree
