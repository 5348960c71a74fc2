import JaiTree.Lookahead.Glance
import JaiTree.Lookahead.Start

/-!
Patterns: runs of tokens that tell a declaration, a parameter list or a plain name from what else
could begin with the same token.
-/

namespace JaiTree

/-- Names between commas that a colon or a double colon follows. -/
structure NameList where
  names : Nat
  /-- The offset of the token after them. -/
  colonOffset : Nat
  colon : TokenKind
deriving Repr, DecidableEq

namespace Glance

/-- The names that are declared from an offset on, if any are. -/
def nameList (offset : Nat) : Glance (Option NameList) :=
  .names offset fun run => do
    if run = 0 then
      return none
    else
      let kind ← kindAt (offset + run)
      if kind = .colon || kind = .colonColon then
        return some ⟨(run + 1) / 2, offset + run, kind⟩
      else
        return none

/-- Whether the parenthesis at an offset opens a parameter list and not an expression. -/
def procedure (offset : Nat) : Glance Bool := do
  if (← kindAt offset) ≠ .openParen then
    return false
  else
    let first ← Glance.tokenAt (offset + 1)
    match first.kind with
    | .closeParen | .dollar => return true
    | .identifier =>
      -- Before a name of its own `using` marks a parameter; elsewhere it is the name.
      if first.isWord .usingWord then
        match ← kindAt (offset + 2) with
        | .identifier | .dollar => return true
        | _ => named
      else
        named
    | _ => return false
where
  /-- What the two tokens after a first name tell. -/
  named : Glance Bool := do
    match ← kindAt (offset + 2) with
    | .colon | .comma => return true
    | .closeParen =>
      -- A name alone in parentheses: only what follows them can make it a parameter.
      match ← kindAt (offset + 3) with
      | .arrow | .openCurly | .directive _ => return true
      | _ => return false
    | _ => return false

/-- Whether a procedure signature stands at an offset, behind a word on inlining or not. -/
def signature (offset : Nat) : Glance Bool := do
  if (← Glance.tokenAt offset).isInlining then procedure (offset + 1) else procedure offset

/-- Whether the keyword at an offset is declared or assigned to like any other name. -/
def actsAsName (offset : Nat) : Glance Bool := do
  let next ← kindAt (offset + 1)
  if next = .comma then
    if (← keywordAt offset) = some .usingWord then
      -- A modifier behind the comma belongs to `using`, which is then a keyword all the same.
      match ← keywordAt (offset + 2) with
      | some .mapWord | some .exceptWord | some .onlyWord => return false
      | _ => return true
    else
      return true
  else
    return next = .colon || next = .colonColon || next.isAssignment

/-- Whether nothing that could be its operand follows the keyword here, so that it is a name. -/
def lacksOperand : Glance Bool := do
  let next ← kindAt 1
  if next = .comma then
    if (← keywordAt 0) = some .castWord then
      -- The modifiers of a cast stand between it and its operand.
      match ← keywordAt 2 with
      | some .truncWord | some .noCheckWord => return false
      | _ => return true
    else
      return true
  else
    match next with
    | .colon | .colonColon | .closeParen | .closeBracket | .closeCurly | .semicolon | .dot
    | .eof => return true
    | _ => return next.isAssignment

end Glance

end JaiTree
