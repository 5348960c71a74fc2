import JaiTree.Cursor

/-!
Parsing: every text has a tree, in which what could not be read is under error nodes.
-/

namespace JaiTree

/-- The node over a list of tokens that ends with the end of the text. -/
def parseTokens (cursor : Cursor) : Node :=
  match (cursor.read Grammar.sourceFile).1 with
  | .ok (.node _ root :: _) => root
  | _ => .sound .sourceFile []

def parse (text : String) : Tree := { source := text, root := parseTokens (.ofText text) }

end JaiTree
