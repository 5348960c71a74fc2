import JaiTree.Lexer
import JaiTree.Proofs.Grammar.Alike

/-!
Shifts: the tokens and the children of a text, each of their places a number of bytes further on.
Main statements: `Lexer.scan_shift`, `Alike.shifted`.
-/

namespace JaiTree

/-- The token, a number of bytes further on. -/
def Token.shift (bytes : Nat) (token : Token) : Token := { token with start := token.start + bytes }

/-- The token and the trivia before it, a number of bytes further on. -/
def Padded.shift (bytes : Nat) (padded : Padded) : Padded :=
  ⟨padded.leading.map (Token.shift bytes), padded.token.shift bytes⟩

/-- The diagnostic, reported a number of bytes further on. -/
def Diagnostic.shift (bytes : Nat) (diagnostic : Diagnostic) : Diagnostic :=
  { diagnostic with position := diagnostic.position + bytes }

mutual

/-- The node, with all that is below it and what is wrong with it a number of bytes further on. -/
def Node.shift (bytes : Nat) : Node → Node
  | .mk kind children error =>
    .mk kind (shiftAll bytes children) (error.map (Diagnostic.shift bytes))

/-- The child, with all that is below it a number of bytes further on. -/
def Child.shift (bytes : Nat) : Child → Child
  | .leaf field token => .leaf field (token.shift bytes)
  | .node field node => .node field (node.shift bytes)

/-- The children, with all that is below them a number of bytes further on. -/
def shiftAll (bytes : Nat) : List Child → List Child
  | [] => []
  | c :: cs => c.shift bytes :: shiftAll bytes cs

end

variable {bytes : Nat}

theorem shiftAll_eq_map (children : List Child) :
    shiftAll bytes children = children.map (Child.shift bytes) := by
  induction children with
  | nil => rfl
  | cons c cs ih => rw [shiftAll, ih, List.map_cons]

@[simp] theorem Token.stop_shift (token : Token) : (token.shift bytes).stop = token.stop + bytes :=
  Nat.add_right_comm ..

theorem Child.map_shift_ofPadded (field : Option Field) (padded : Padded) :
    (ofPadded field padded).map (shift bytes) = ofPadded field (padded.shift bytes) := by
  simp [ofPadded, Padded.shift, shift, Function.comp_def]

/-- Further on, a text is cut in the same way. -/
theorem Lexer.Piece.tokens_shift (start : Nat) (text : List Char) (pieces : List Piece) :
    tokens (start + bytes) text pieces = (tokens start text pieces).map (Token.shift bytes) := by
  induction pieces generalizing start text with
  | nil => rfl
  | cons p ps ih =>
    rw [tokens, tokens, List.map_cons, ← ih, ← Token.stop_shift]
    rfl

theorem Lexer.scan_shift (skip start : Nat) (text : List Char) :
    scan skip (start + bytes) text = (scan skip start text).map (Token.shift bytes) := by
  induction text generalizing skip start with
  | nil =>
    rw [scan, scan]
    rfl
  | cons c cs ih =>
    cases skip with
    | succ skip => exact ih skip start
    | zero => rw [scan, scan, List.map_append, ← Piece.tokens_shift, ← ih, Nat.add_right_comm]

theorem Padded.attach_shift (leading tokens : List Token) :
    attach (leading.map (Token.shift bytes)) (tokens.map (Token.shift bytes))
      = (attach leading tokens).map (shift bytes) := by
  induction tokens generalizing leading with
  | nil => rfl
  | cons t ts ih =>
    rw [List.map_cons, attach, attach]
    change (if t.isTrivia then _ else _) = _
    split
    · rw [← ih, List.map_append]
      rfl
    · rw [List.map_cons, ← ih]
      rfl

/-- No rule can tell how far on the tokens are. -/
theorem unseen_shift (bytes : Nat) :
    Unseen (fun p q => q = p.shift bytes) (fun d e => e = d.shift bytes) where
  sight := by
    rintro p - rfl
    have breaks : (p.shift bytes).startsLine = p.startsLine := List.any_map
    rw [Padded.sight, Padded.sight, breaks]
    rfl
  located := by
    rintro p - rfl cause
    rfl
  carried := by
    rintro p - rfl
    change p.token.diagnostic?.Rel _ (p.token.shift bytes).diagnostic?
    rw [Token.diagnostic?, Token.diagnostic?, Token.shift]
    cases p.token.error with
    | none => exact .none
    | some cause => exact .some rfl

/-- Children over tokens further on are the same children further on. -/
theorem Alike.shifted {children children' : List Child}
    (h : Alike (fun p q => q = p.shift bytes) (fun d e => e = d.shift bytes) children children') :
    children' = children.map (Child.shift bytes) := by
  induction h with
  | nil => rfl
  | append _ _ ih ih' => rw [ih, ih', List.map_append]
  | padded further => rw [further, Child.map_shift_ofPadded]
  | @node field kind children children' error error' _ reported ih =>
    have errors : error' = error.map (Diagnostic.shift bytes) := by
      cases reported with
      | none => rfl
      | some further => rw [further, Option.map_some]
    rw [ih, errors, List.map_singleton, Child.shift, Node.shift, shiftAll_eq_map]

end JaiTree
