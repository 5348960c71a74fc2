import JaiTree.Lexer.Piece
import JaiTree.Text.Blank
import JaiTree.Text.Name

/-!
Assembly blocks: a list of features, then raw text between braces.
-/

namespace JaiTree.Lexer.Assembly

open Text

/-- The raw text between the brace at the head of the text and the next closing one. -/
def body (text : List Char) : List Piece :=
  let inner := (text.drop 1).takeWhile (· != '\x7d')
  if inner.length + 1 < text.length then
    List.filter (fun p => p.size != 0)
      [{ kind := .openCurly, size := 1 }, { kind := .asmContent, size := inner.length },
       { kind := .closeCurly, size := 1 }]
  else
    [.faulty .unterminatedAsm text.length]

/-- The pieces after the directive and past `skip` characters: features, commas and blanks up to
the body, or up to what can be none of them. -/
def features : (skip : Nat) → (text : List Char) → List Piece
  | _, [] => []
  | skip + 1, _ :: cs => features skip cs
  | 0, c :: cs =>
    if c = '\x7b' then
      body (c :: cs)
    else if c = ',' then
      { kind := .comma, size := 1 } :: features 0 cs
    else if isBlank c then
      let blanks := (cs.takeWhile isBlank).length
      { kind := .whitespace, size := 1 + blanks } :: features blanks cs
    else if isNameStart c then
      let rest := (cs.takeWhile isNameChar).length
      { kind := .identifier, size := 1 + rest } :: features rest cs
    else
      []

theorem features_skip (skip : Nat) (text : List Char) :
    features skip text = features 0 (text.drop skip) := by
  induction text generalizing skip with
  | nil => cases skip <;> simp [features]
  | cons c cs ih =>
    cases skip with
    | zero => simp
    | succ skip => simp only [features, List.drop_succ_cons, ih]

/-- The pieces from a directive of `mark` characters on. -/
def pieces (mark : Nat) (text : List Char) : List Piece :=
  { kind := .directive .asm, size := mark } :: features 0 (text.drop mark)

end JaiTree.Lexer.Assembly
