import JaiTree.Parse
import JaiTree.Proofs.Grammar.Alike

/-!
Bare trees: what is left of a tree without its blanks, its comments and all its places. The grammar
sees of trivia only whether a line starts, so nothing else of them tells in the bare tree. Main
statement: `parseTokens_bare`.
-/

namespace JaiTree

/-- The token without its place. -/
def Token.bare (token : Token) : Token := { token with start := 0 }

/-- The diagnostic without its place. -/
def Diagnostic.bare (diagnostic : Diagnostic) : Diagnostic := { diagnostic with position := 0 }

mutual

/-- The node with the bare children, and what is wrong with it without the place. -/
def Node.bare : Node → Node
  | .mk kind children error => .mk kind (bareOf children) (error.map Diagnostic.bare)

/-- The child without any place, nothing for trivia. -/
def Child.bare : Child → List Child
  | .leaf field token => if token.isTrivia then [] else [.leaf field token.bare]
  | .node field node => [.node field node.bare]

/-- The children but for the trivia, without their places. -/
def bareOf : List Child → List Child
  | [] => []
  | c :: cs => c.bare ++ bareOf cs

end

@[simp] theorem bareOf_append (a b : List Child) : bareOf (a ++ b) = bareOf a ++ bareOf b := by
  induction a with
  | nil => simp [bareOf]
  | cons c cs ih => simp [bareOf, ih]

theorem bareOf_trivia {trivia : List Token} (all : ∀ t ∈ trivia, t.isTrivia = true) :
    bareOf (trivia.map (.leaf none)) = [] := by
  induction trivia with
  | nil => simp [bareOf]
  | cons t ts ih =>
    have first : t.isTrivia = true := all t List.mem_cons_self
    have later := ih fun s member => all s (List.mem_cons_of_mem t member)
    simp [bareOf, Child.bare, first, later]

namespace Padded

/-- Two tokens that only trivia and places tell apart: they are of one kind and text, the same is
wrong with them, and both start a line or neither does. -/
structure Resembles (p q : Padded) : Prop where
  kind : p.token.kind = q.token.kind
  text : p.token.text = q.token.text
  error : p.token.error = q.token.error
  startsLine : p.startsLine = q.startsLine
  trivia : ∀ t ∈ p.leading, t.isTrivia = true
  trivia' : ∀ t ∈ q.leading, t.isTrivia = true

variable {p q : Padded}

theorem Resembles.bare (h : Resembles p q) : p.token.bare = q.token.bare := by
  have kind := h.kind
  have text := h.text
  have error := h.error
  obtain ⟨_, ⟨⟨_, _⟩, _, _⟩⟩ := p
  obtain ⟨_, ⟨⟨_, _⟩, _, _⟩⟩ := q
  subst kind text error
  rfl

/-- The end that stands behind tokens without one is the same wherever it is. -/
theorem resembles_eof (position position' : Nat) :
    Resembles ⟨[], .eofAt position⟩ ⟨[], .eofAt position'⟩ where
  kind := rfl
  text := rfl
  error := rfl
  startsLine := rfl
  trivia := by simp
  trivia' := by simp

end Padded

/-- Diagnostics of the same cause. -/
def Diagnostic.SameCause (d d' : Diagnostic) : Prop := d.cause = d'.cause

theorem Diagnostic.SameCause.bare {d d' : Diagnostic} (h : SameCause d d') : d.bare = d'.bare := by
  rw [Diagnostic.bare, Diagnostic.bare, h]

/-- No rule can tell tokens apart that resemble each other. -/
theorem unseen_resembles : Unseen Padded.Resembles Diagnostic.SameCause where
  sight := by
    intro p q h
    have lexemes : p.token.toLexeme = q.token.toLexeme := by
      have kind := h.kind
      have text := h.text
      cases same : p.token.toLexeme
      cases same' : q.token.toLexeme
      simp_all
    rw [Padded.sight, Padded.sight, lexemes, h.startsLine]
  located := fun _ _ => rfl
  carried := by
    intro p q h
    rw [Token.diagnostic?, Token.diagnostic?, h.error]
    cases q.token.error with
    | none => exact .none
    | some cause => exact .some rfl

namespace Padded.Resembles

variable {p q : Padded}

theorem bare_ofPadded (h : Resembles p q) (field : Option Field) :
    bareOf (Child.ofPadded field p) = bareOf (Child.ofPadded field q) := by
  have kinds : p.token.isTrivia = q.token.isTrivia := congrArg TokenKind.isTrivia h.kind
  have tokens := h.bare
  rw [Child.ofPadded, Child.ofPadded, bareOf_append, bareOf_append, bareOf_trivia h.trivia,
    bareOf_trivia h.trivia']
  simp [bareOf, Child.bare, kinds, tokens]

end Padded.Resembles

/-- Children over tokens that resemble each other are the same but for trivia and places. -/
theorem Alike.bare {children children' : List Child}
    (h : Alike Padded.Resembles Diagnostic.SameCause children children') :
    bareOf children = bareOf children' := by
  induction h with
  | nil => rfl
  | append _ _ ih ih' => rw [bareOf_append, bareOf_append, ih, ih']
  | padded h => exact h.bare_ofPadded _
  | @node field kind children children' error error' _ reported ih =>
    have errors : error.map Diagnostic.bare = error'.map Diagnostic.bare := by
      cases reported with
      | none => rfl
      | some same => exact congrArg some same.bare
    simp [bareOf, Child.bare, Node.bare, ih, errors]

namespace Cursor

variable {all all' : List Padded}

theorem isEnd_resembles {p q : Padded} (h : p.Resembles q) : isEnd p = isEnd q := by
  rw [isEnd, isEnd, h.kind]

theorem takeWhile_resembles (h : List.Forall₂ Padded.Resembles all all') :
    List.Forall₂ Padded.Resembles (all.takeWhile fun p => !isEnd p)
      (all'.takeWhile fun p => !isEnd p) := by
  induction h with
  | nil => exact .nil
  | @cons p q _ _ first _ ih =>
    have ends := isEnd_resembles first
    by_cases last : isEnd q = true
    · simp [ends, last]
    · simp [ends, last, first, ih]

theorem find?_resembles (h : List.Forall₂ Padded.Resembles all all') :
    (all.find? isEnd).Rel Padded.Resembles (all'.find? isEnd) := by
  induction h with
  | nil => exact .none
  | @cons p q _ _ first _ ih =>
    have ends := isEnd_resembles first
    by_cases last : isEnd q = true
    · simpa [List.find?_cons, ends, last] using Option.Rel.some first
    · simpa [List.find?_cons, ends, last] using ih

/-- Among tokens that resemble each other the end is found at the same place. -/
theorem eof_resembles (h : List.Forall₂ Padded.Resembles all all') :
    (ofPadded all).eof.Resembles (ofPadded all').eof := by
  have found := find?_resembles h
  change Padded.Resembles (Option.getD _ _) (Option.getD _ _)
  generalize all.find? isEnd = end? at found
  generalize all'.find? isEnd = end?' at found
  cases found with
  | none => exact Padded.resembles_eof _ _
  | some same => exact same

theorem isEnd_ofPadded (all : List Padded) : (ofPadded all).eof.token.kind = .eof := by
  change (Option.getD _ _ : Padded).token.kind = .eof
  cases found : all.find? isEnd with
  | none => rfl
  | some last =>
    have holds := List.find?_some found
    simpa [isEnd] using holds

end Cursor

/-- What `parseTokens` makes of a list of tokens, by how its statements and its end are read. -/
theorem parseTokens_ofPadded (all : List Padded) :
    parseTokens (.ofPadded all)
      = match Grammar.read (Cursor.ofPadded all).eof Grammar.maxNesting
          (Grammar.statements .endOfInput ++ Form.any) (Cursor.ofPadded all).setting
          (Cursor.ofPadded all).tokens with
        | .done children _ => .sound .sourceFile children
        | .failed _ _ => .sound .sourceFile [] := by
  have whole : (Cursor.ofPadded all).rest = (Cursor.ofPadded all).tokens := rfl
  have room : Grammar.maxNesting - (Cursor.ofPadded all).depth = Grammar.maxNesting := rfl
  rw [parseTokens, Cursor.read, whole, room, Grammar.sourceFile, Grammar.read, Grammar.read,
    Form.read]
  generalize Form.read _ _ _ _ _ _ = outcome
  cases outcome with
  | done children rest => rfl
  | failed error rest => rfl

/-- The grammar sees trivia only through line starts. Where two lists of tokens are as long as each
other, and each token of the one is of the same kind and text as that of the other, with the same
wrong with it, and starts a line just when the other does, they have the same tree, but for trivia
and the places of tokens and diagnostics. -/
theorem parseTokens_bare {all all' : List Padded} (h : List.Forall₂ Padded.Resembles all all') :
    (parseTokens (.ofPadded all)).bare = (parseTokens (.ofPadded all')).bare := by
  have tokens := Cursor.takeWhile_resembles h
  have ends := Cursor.eof_resembles h
  have isEnd := Cursor.isEnd_ofPadded all
  have none : Reading.Alike Padded.Resembles Diagnostic.SameCause Grammar.nothing
      Grammar.nothing := fun _ _ _ alike => .done .nil alike
  have levels := Grammar.level_alike unseen_resembles isEnd ends Grammar.maxNesting
  have read := Form.read_alike unseen_resembles isEnd ends levels
    (Grammar.statements .endOfInput ++ Form.any) none (Cursor.ofPadded all).setting _ _ tokens
  rw [parseTokens_ofPadded, parseTokens_ofPadded]
  have settings : (Cursor.ofPadded all').setting = (Cursor.ofPadded all).setting := rfl
  rw [settings]
  change Outcome.Alike _ _ (Grammar.read _ _ _ _ (Cursor.ofPadded all).tokens)
    (Grammar.read _ _ _ _ (Cursor.ofPadded all').tokens) at read
  generalize Grammar.read _ _ _ _ (Cursor.ofPadded all).tokens = outcome at read ⊢
  generalize Grammar.read _ _ _ _ (Cursor.ofPadded all').tokens = outcome' at read ⊢
  cases read with
  | failed => rfl
  | done children _ =>
    have same := children.bare
    simp [Node.sound, Node.bare, same]

/-- The tokens of two texts that differ in a comment and in blanks. -/
theorem parseTokens_bare_comment :
    List.Forall₂ Padded.Resembles
        [⟨[], ⟨⟨.identifier, "x"⟩, 0, none⟩⟩,
          ⟨[⟨⟨.whitespace, "\n"⟩, 1, none⟩], ⟨⟨.semicolon, ";"⟩, 2, none⟩⟩]
        [⟨[⟨⟨.commentBlock, "/**/"⟩, 0, none⟩], ⟨⟨.identifier, "x"⟩, 4, none⟩⟩,
          ⟨[⟨⟨.whitespace, " \n "⟩, 5, none⟩], ⟨⟨.semicolon, ";"⟩, 8, none⟩⟩]
      ∧ (parseTokens (.ofPadded
        [⟨[], ⟨⟨.identifier, "x"⟩, 0, none⟩⟩,
          ⟨[⟨⟨.whitespace, "\n"⟩, 1, none⟩], ⟨⟨.semicolon, ";"⟩, 2, none⟩⟩])).bare
        = (parseTokens (.ofPadded
          [⟨[⟨⟨.commentBlock, "/**/"⟩, 0, none⟩], ⟨⟨.identifier, "x"⟩, 4, none⟩⟩,
            ⟨[⟨⟨.whitespace, " \n "⟩, 5, none⟩], ⟨⟨.semicolon, ";"⟩, 8, none⟩⟩])).bare := by
  have name : Padded.Resembles ⟨[], ⟨⟨.identifier, "x"⟩, 0, none⟩⟩
      ⟨[⟨⟨.commentBlock, "/**/"⟩, 0, none⟩], ⟨⟨.identifier, "x"⟩, 4, none⟩⟩ := by
    constructor <;> decide
  have semicolon : Padded.Resembles
      ⟨[⟨⟨.whitespace, "\n"⟩, 1, none⟩], ⟨⟨.semicolon, ";"⟩, 2, none⟩⟩
      ⟨[⟨⟨.whitespace, " \n "⟩, 5, none⟩], ⟨⟨.semicolon, ";"⟩, 8, none⟩⟩ := by
    constructor <;> decide
  have similar := List.Forall₂.cons name (.cons semicolon .nil)
  exact ⟨similar, parseTokens_bare similar⟩

end JaiTree
