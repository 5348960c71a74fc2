import JaiTree.Tree.Basic

/-!
S-expressions: a tree printed by its node kinds, its fields and its comments.
-/

namespace JaiTree

/-- The name that a comment is printed by. -/
def commentName? : TokenKind → Option String
  | .commentLine => some "comment_line"
  | .commentBlock => some "comment_block"
  | .commentMarkdownBlock => some "comment_markdown_block"
  | _ => none

mutual

/-- A node in parentheses: its kind and then its children. -/
def Node.sexp : Node → String
  | .mk kind children _ => "(" ++ kind.text ++ sexpOf children ++ ")"

/-- A child after a blank: a node behind its field, a comment by its name, and no other token. -/
def Child.sexp : Child → String
  | .leaf _ token =>
    match commentName? token.kind with
    | some name => " (" ++ name ++ ")"
    | none => ""
  | .node none node => " " ++ node.sexp
  | .node (some field) node => " " ++ field.text ++ ": " ++ node.sexp

def sexpOf : List Child → String
  | [] => ""
  | c :: cs => c.sexp ++ sexpOf cs

end

end JaiTree
