import JaiTree.Proofs.Grammar.Delimiters
import JaiTree.Proofs.Lexer.Lossless

/-!
Trails: what is cut off together with a token, behind it. Where a trail ends a text is cut as if it
began there. Main statement: `Lexer.exists_cuts`.
-/

namespace JaiTree

/-- The kinds of what is cut off together with a token of a kind, behind it, but for trivia. -/
inductive Trails : TokenKind → List TokenKind → Prop where
  | nothing {kind : TokenKind} : kind ≠ .doubleQuote → Trails kind []
  | quotedString {pieces : List TokenKind} : (∀ kind ∈ pieces, kind.isStringPiece = true) →
      Trails .doubleQuote (pieces ++ [.doubleQuote])
  | hereString {content : List TokenKind} : (content = [] ∨ content = [.hereStringContent]) →
      Trails (.directive .string) (.identifier :: (content ++ [.identifier]))
  | asm {features : List TokenKind} : (∀ kind ∈ features, kind = .identifier ∨ kind = .comma) →
      Trails (.directive .asm) features
  | openAsm {features : List TokenKind} :
      (∀ kind ∈ features, kind = .identifier ∨ kind = .comma) →
      Trails (.directive .asm) (features ++ [.error])
  | asmBlock {features content : List TokenKind} :
      (∀ kind ∈ features, kind = .identifier ∨ kind = .comma) →
      (content = [] ∨ content = [.asmContent]) →
      Trails (.directive .asm) (features ++ .openCurly :: (content ++ [.closeCurly]))

/-- What an assembly block may ask for stands before anything else behind its directive. -/
theorem Trails.feature {kind : TokenKind} {kinds : List TokenKind}
    (h : Trails (.directive .asm) kinds) (isFeature : kind = .identifier ∨ kind = .comma) :
    Trails (.directive .asm) (kind :: kinds) := by
  have among {features : List TokenKind}
      (sound : ∀ kind ∈ features, kind = .identifier ∨ kind = .comma) :
      ∀ k ∈ kind :: features, k = .identifier ∨ k = .comma :=
    List.forall_mem_cons.mpr ⟨isFeature, sound⟩
  cases h with
  | nothing => exact .asm (among fun _ none => nomatch none)
  | asm sound => exact .asm (among sound)
  | openAsm sound => exact .openAsm (among sound)
  | asmBlock sound held => exact .asmBlock (among sound) held

/-- The kinds that are no trivia. -/
def seenOf (kinds : List TokenKind) : List TokenKind := kinds.filter fun kind => !kind.isTrivia

/-- No trivia stands last. -/
def EndsSeen (kinds : List TokenKind) : Prop := ∀ last ∈ kinds.getLast?, last.isTrivia = false

theorem EndsSeen.cons {kind : TokenKind} {kinds : List TokenKind} (h : EndsSeen kinds)
    (seen : kind.isTrivia = false ∨ kinds ≠ []) : EndsSeen (kind :: kinds) := by
  cases kinds with
  | nil =>
    rintro last found
    cases found
    exact seen.resolve_right fun ne => ne rfl
  | cons k ks =>
    rw [EndsSeen, List.getLast?_cons_cons]
    exact h

theorem EndsSeen.tail {kind : TokenKind} {kinds : List TokenKind} (h : EndsSeen (kind :: kinds)) :
    EndsSeen kinds := by
  cases kinds with
  | nil => exact nofun
  | cons k ks => rwa [EndsSeen, List.getLast?_cons_cons] at h

/-- The kinds of a token and of all that is cut off together with it: trivia is cut off alone. -/
inductive Together : List TokenKind → Prop where
  | trivia {kind : TokenKind} : kind.isTrivia = true → Together [kind]
  | seen {kind : TokenKind} {trail : List TokenKind} : kind.isTrivia = false →
      Trails kind (seenOf trail) → EndsSeen trail → Together (kind :: trail)

theorem Together.single {kind : TokenKind} (h : kind ≠ .doubleQuote) : Together [kind] := by
  cases trivial : kind.isTrivia with
  | true => exact .trivia trivial
  | false => exact .seen trivial (.nothing h) fun _ none => nomatch none

namespace Lexer

namespace Piece

/-- The kinds of the pieces. -/
def kindsOf (pieces : List Piece) : List TokenKind := pieces.map Piece.kind

theorem map_kind_tokens (start : Nat) (text : List Char) (pieces : List Piece) :
    (tokens start text pieces).map (fun t => t.kind) = kindsOf pieces := by
  induction pieces generalizing start text with
  | nil => rfl
  | cons p ps ih =>
    rw [tokens, List.map_cons, ih]
    rfl

theorem tokens_append (start : Nat) (text : List Char) (a b : List Piece) :
    tokens start text (a ++ b) = tokens start text a
      ++ tokens (start + Text.width (text.take (total a))) (text.drop (total a)) b := by
  induction a generalizing start text with
  | nil => simp [tokens]
  | cons p ps ih =>
    rw [List.cons_append, tokens, tokens, ih, List.cons_append, stop_eq_width,
      String.toList_ofList, total_cons, List.take_add, Text.width_append, Nat.add_assoc,
      List.drop_drop]

end Piece

/-- These pieces are cut off the text first, and then what follows them. -/
def Cuts (text : List Char) (pieces : List Piece) : Prop :=
  ∀ start, scan 0 start text = Piece.tokens start text pieces
    ++ scan 0 (start + Text.width (text.take (Piece.total pieces)))
      (text.drop (Piece.total pieces))

namespace Cuts

variable {text : List Char} {a b : List Piece}

theorem nothing (text : List Char) : Cuts text [] := fun start => by simp [Piece.tokens]

theorem group (h : text ≠ []) : Cuts text (Lexer.group text) := fun start => scan_group start h

theorem iff_left (h : Cuts (text.drop (Piece.total a)) b) : Cuts text (a ++ b) ↔ Cuts text a := by
  refine forall_congr' fun start => ?_
  rw [h, Piece.tokens_append, List.append_assoc, Piece.total_append, List.take_add,
    Text.width_append, Nat.add_assoc, List.drop_drop]

end Cuts

/-- The first of the pieces are of kinds like these, and the others are trivia that is cut in the
same way by itself. -/
def Parts (whole : List TokenKind → Prop) (text : List Char) (pieces : List Piece) : Prop :=
  ∃ first others, pieces = first ++ others ∧ whole (Piece.kindsOf first)
    ∧ (∀ kind ∈ Piece.kindsOf others, kind.isTrivia = true)
    ∧ Cuts (text.drop (Piece.total first)) others

namespace Parts

variable {whole whole' : List TokenKind → Prop} {text : List Char} {piece : Piece}
  {pieces : List Piece}

theorem all (h : whole (Piece.kindsOf pieces)) : Parts whole text pieces :=
  ⟨pieces, [], (List.append_nil pieces).symm, h, List.forall_mem_nil _, .nothing _⟩

theorem single (h : (piece.kind != .doubleQuote) = true) : Parts Together text [piece] :=
  all (.single (bne_iff_ne.mp h))

theorem cons (h : Parts whole (text.drop piece.size) pieces)
    (more : ∀ kinds, whole kinds → whole' (piece.kind :: kinds)) :
    Parts whole' text (piece :: pieces) := by
  obtain ⟨first, others, rfl, holds, trivial, again⟩ := h
  refine ⟨piece :: first, others, rfl, more _ holds, trivial, ?_⟩
  rwa [Piece.total_cons, ← List.drop_drop]

end Parts

namespace Quotation

theorem pieces_kinds {skip : Nat} {text : List Char} {ps : List Piece}
    (h : pieces skip text = some ps) :
    ∃ inner, Piece.kindsOf ps = inner ++ [.doubleQuote]
      ∧ ∀ kind ∈ inner, kind.isStringPiece = true := by
  induction text generalizing skip ps with
  | nil => cases skip <;> simp [pieces] at h
  | cons c cs ih =>
    have piece {skip : Nat} {p : Piece} (isPiece : p.kind.isStringPiece = true)
        (found : (pieces skip cs).map (p :: ·) = some ps) :
        ∃ inner, Piece.kindsOf ps = inner ++ [.doubleQuote]
          ∧ ∀ kind ∈ inner, kind.isStringPiece = true := by
      obtain ⟨rest, later, rfl⟩ := Option.map_eq_some_iff.mp found
      obtain ⟨inner, kinds, sound⟩ := ih later
      refine ⟨p.kind :: inner, ?_, List.forall_mem_cons.mpr ⟨isPiece, sound⟩⟩
      rw [List.cons_append, ← kinds]
      rfl
    cases skip with
    | succ skip => exact ih h
    | zero =>
      rw [pieces] at h
      split at h
      · cases h
        exact ⟨[], rfl, List.forall_mem_nil _⟩
      split at h
      · exact piece rfl h
      split at h
      · exact piece rfl h
      · exact piece rfl h

theorem string_parts (text : List Char) : Parts Together text (string text) := by
  rw [string]
  split
  · next ps found =>
    obtain ⟨inner, kinds, sound⟩ := pieces_kinds found
    refine .all (.seen rfl ?_ ?_)
    · change Trails _ (seenOf (Piece.kindsOf ps))
      have seen : seenOf inner = inner := by
        refine List.filter_eq_self.mpr fun kind member => ?_
        have isPiece := sound kind member
        cases kind
        all_goals first | rfl | cases isPiece
      rw [kinds, seenOf, List.filter_append]
      change Trails _ (seenOf inner ++ [.doubleQuote])
      rw [seen]
      exact .quotedString sound
    · change EndsSeen (Piece.kindsOf ps)
      rw [kinds, EndsSeen, List.getLast?_concat]
      rintro _ ⟨⟩
      rfl
  · exact .single rfl

end Quotation

namespace HereString

theorem pieces_parts {mark : Nat} (pos : 0 < mark) (text : List Char) :
    Parts Together text (pieces mark text) := by
  rw [pieces]
  generalize (List.takeWhile Text.isIndent _).length = gap
  generalize Text.name _ = delimiter
  dsimp only
  split
  · exact .single rfl
  · next named =>
    have some_name : delimiter.length ≠ 0 := by simpa using named
    have some_mark : mark ≠ 0 := Nat.pos_iff_ne_zero.mp pos
    split
    · next content found =>
      refine .all ?_
      by_cases gaps : gap = 0
      all_goals by_cases empty : content = 0
      all_goals simp only [List.filter_cons, List.filter_nil, bne_iff_ne, ne_eq, some_mark,
        some_name, gaps, empty, not_true_eq_false, not_false_eq_true, if_true, if_false,
        Piece.kindsOf, List.map_cons, List.map_nil]
      · exact .seen rfl (.hereString (.inl rfl)) (by rintro _ ⟨⟩; rfl)
      · exact .seen rfl (.hereString (.inr rfl)) (by rintro _ ⟨⟩; rfl)
      · exact .seen rfl (.hereString (.inl rfl)) (by rintro _ ⟨⟩; rfl)
      · exact .seen rfl (.hereString (.inr rfl)) (by rintro _ ⟨⟩; rfl)
    · exact .single rfl

end HereString

namespace Assembly

/-- What stands behind the directive of an assembly block. -/
structure Asked (kinds : List TokenKind) : Prop where
  trails : Trails (.directive .asm) (seenOf kinds)
  ends : EndsSeen kinds

theorem Asked.nothing : Asked [] := ⟨.nothing (by decide), nofun⟩

theorem Asked.feature {kind : TokenKind} {kinds : List TokenKind}
    (isFeature : kind = .identifier ∨ kind = .comma) (h : Asked kinds) : Asked (kind :: kinds) := by
  have seen : kind.isTrivia = false := by rcases isFeature with rfl | rfl <;> rfl
  refine ⟨?_, h.ends.cons (.inl seen)⟩
  rw [seenOf, List.filter_cons_of_pos (by rw [seen]; rfl)]
  exact h.trails.feature isFeature

theorem Asked.blank {kinds : List TokenKind} (some_kind : kinds ≠ []) (h : Asked kinds) :
    Asked (.whitespace :: kinds) := ⟨h.trails, h.ends.cons (.inr some_kind)⟩

theorem asked_body (text : List Char) : Asked (Piece.kindsOf (body text)) := by
  rw [body]
  split
  · generalize (List.takeWhile _ _).length = inner
    by_cases empty : inner = 0
    · rw [empty]
      exact ⟨@Trails.asmBlock [] [] (List.forall_mem_nil _) (.inl rfl), by rintro _ ⟨⟩; rfl⟩
    · have kinds : Piece.kindsOf (List.filter (fun p => p.size != 0)
          [{ kind := .openCurly, size := 1 }, { kind := .asmContent, size := inner },
           { kind := .closeCurly, size := 1 }]) = [.openCurly, .asmContent, .closeCurly] := by
        simp [empty, Piece.kindsOf]
      rw [kinds]
      exact ⟨@Trails.asmBlock [] [.asmContent] (List.forall_mem_nil _) (.inr rfl),
        by rintro _ ⟨⟩; rfl⟩
  · exact ⟨@Trails.openAsm [] (List.forall_mem_nil _), by rintro _ ⟨⟩; rfl⟩

/-- Blanks behind which nothing more is asked for are cut in the same way by themselves. -/
theorem Asked.parts_blank {text : List Char} {piece : Piece} {pieces : List Piece}
    (some_char : text ≠ []) (alone : group text = [piece]) (blank : piece.kind = .whitespace)
    (h : Parts Asked (text.drop piece.size) pieces) : Parts Asked text (piece :: pieces) := by
  obtain ⟨first, others, rfl, asked, trivial, again⟩ := h
  cases first with
  | nil =>
    refine ⟨[], piece :: others, rfl, .nothing, ?_, ?_⟩
    · exact List.forall_mem_cons.mpr ⟨by rw [blank]; rfl, trivial⟩
    rw [← List.singleton_append, ← alone]
    refine (Cuts.iff_left ?_).mpr (.group some_char)
    rw [alone]
    exact again
  | cons p ps =>
    refine ⟨piece :: p :: ps, others, rfl, ?_, trivial, ?_⟩
    · change Asked (piece.kind :: _)
      rw [blank]
      exact asked.blank (List.cons_ne_nil _ _)
    · rwa [Piece.total_cons, ← List.drop_drop]

theorem features_parts (skip : Nat) (text : List Char) :
    Parts Asked (text.drop skip) (features skip text) := by
  induction text generalizing skip with
  | nil =>
    rw [features]
    exact .all .nothing
  | cons c cs ih =>
    cases skip with
    | succ skip => exact ih skip
    | zero =>
      have behind (size : Nat) :
          Parts Asked ((c :: cs).drop (1 + size)) (features size cs) := by
        rw [Nat.add_comm, List.drop_succ_cons]
        exact ih size
      rw [features, List.drop_zero]
      split
      · exact .all (asked_body _)
      split
      · exact (behind 0).cons fun _ => .feature (.inr rfl)
      split
      · next blank =>
        refine Asked.parts_blank (List.cons_ne_nil c cs) ?_ rfl (behind _)
        rw [group, recognise, if_pos blank, List.takeWhile_cons, if_pos blank, List.length_cons,
          Nat.add_comm]
      split
      · exact (behind _).cons fun _ => .feature (.inl rfl)
      · exact .all .nothing

theorem pieces_parts (mark : Nat) (text : List Char) : Parts Together text (pieces mark text) :=
  (features_parts 0 (text.drop mark)).cons fun _ asked => .seen rfl asked.trails asked.ends

end Assembly

theorem directive_parts (text : List Char) :
    directive text = [] ∨ Parts Together text (directive text) := by
  rw [directive]
  split
  · exact .inl rfl
  · split
    all_goals exact .inr (.single rfl)

theorem operator_parts (text : List Char) :
    operator text = [] ∨ Parts Together text (operator text) := by
  rw [operator]
  split
  · next kind found =>
    have spelled : ∀ kind ∈ operators, (kind != .doubleQuote) = true := by decide
    exact .inr (.single (spelled kind (List.mem_of_find?_eq_some found)))
  · exact .inl rfl

theorem hash_parts (text : List Char) : hash text = [] ∨ Parts Together text (hash text) := by
  rw [hash]
  split
  · exact .inr (HereString.pieces_parts (by decide) text)
  split
  · exact .inr (Assembly.pieces_parts _ text)
  · exact directive_parts text

theorem recognise_parts (text : List Char) :
    recognise text = [] ∨ Parts Together text (recognise text) := by
  cases text with
  | nil => exact .inl rfl
  | cons c cs =>
    rw [recognise]
    split
    · exact .inr (.single rfl)
    split
    · exact .inr (.single rfl)
    split
    · right
      rw [Comment.block]
      split
      · refine .single ?_
        change (Comment.blockKind _ != _) = true
        rw [Comment.blockKind]
        split
        all_goals rfl
      · exact .single rfl
    split
    · exact hash_parts _
    split
    · exact .inr (.single rfl)
    split
    · exact .inr (.single rfl)
    split
    · exact .inr (Quotation.string_parts _)
    · exact operator_parts _

theorem group_parts (text : List Char) : Parts Together text (group text) := by
  rcases recognise_parts text with none | parts
  · rw [group, none]
    exact .single rfl
  · rw [group]
    split
    · exact .single rfl
    · exact parts

/-- Some pieces that belong together are cut off a text first, and what follows them is cut as if
the text began there. -/
theorem exists_cuts {text : List Char} (h : text ≠ []) :
    ∃ pieces, Cuts text pieces ∧ Together (Piece.kindsOf pieces) ∧ 0 < Piece.total pieces := by
  obtain ⟨first, others, parts, together, -, again⟩ := group_parts text
  refine ⟨first, (Cuts.iff_left again).mp (parts ▸ .group h), together, ?_⟩
  cases first with
  | nil => cases together
  | cons p ps =>
    have sound := (group_fit h).1.sound p (by rw [parts]; exact List.mem_cons_self)
    rw [Piece.total_cons]
    exact Nat.add_pos_left sound.pos _

end Lexer

end JaiTree
