import JaiTree.Grammar.Reading
import JaiTree.Grammar.Statement

/-!
The grammar: the form of every rule that counts as a level, and the levels below one another.
-/

namespace JaiTree

/-- The form of a rule that counts as a level. -/
def Goal.form : Goal → Form
  | .expression floor => Grammar.expressionRule floor
  | .type => Grammar.typeRule
  | .statement => Grammar.statementRule
  | .blockItems => .within .block (Grammar.statements .closeCurly)

namespace Grammar

/-- How many levels are followed. -/
def maxNesting : Nat := 128

/-- A whole text: its statements, and its end with the trivia before it. -/
def sourceFile : Form := .node .sourceFile (statements .endOfInput ++ Form.any)

/-- What `again` stands for where no form is around it. -/
def nothing : Reading := fun _ rest => .done [] rest

/-- The reading of a rule with room for some more levels, itself among them. -/
def level (eof : Padded) : Nat → Goal → Reading
  | 0, _, _, rest => Reading.fail eof (fun _ => .nestingTooDeep maxNesting) rest
  | room + 1, goal, setting, rest => goal.form.read eof (level eof room) nothing setting rest

/-- The reading of a form with room for some levels. -/
def read (eof : Padded) (room : Nat) (form : Form) : Reading :=
  form.read eof (level eof room) nothing

end Grammar

end JaiTree
