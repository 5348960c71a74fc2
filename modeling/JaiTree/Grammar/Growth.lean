import JaiTree.Grammar.Argument

/-!
Growth: how an operand becomes part of a larger expression by what stands after it.
-/

namespace JaiTree

namespace TokenKind

/-- How tightly a token of the kind binds the operand before it. -/
def power? : TokenKind → Option Power
  | .or => some .logicalOr
  | .and => some .logicalAnd
  | .equals | .notEquals | .less | .lessEquals | .greater | .greaterEquals => some .relational
  | .pipe => some .bitOr
  | .caret => some .bitXor
  | .ampersand => some .bitAnd
  | .shiftLeft | .shiftRight => some .shift
  | .plus | .dash => some .additive
  | .star | .slash | .percent => some .multiplicative
  | .dot | .openBracket => some .member
  | .openParen => some .call
  | _ => none

end TokenKind

/-- What an operand becomes part of. -/
inductive Growth where
  /-- An operator with another operand after it. -/
  | binary (power : Power)
  | member
  /-- A composite literal of the operand's type. -/
  | composite
  | array
  | index
  | call
deriving Repr, DecidableEq

namespace Growth

/-- The kind of the larger expression. -/
def kind : Growth → NodeKind
  | .binary _ => .binaryExpression
  | .member => .memberAccess
  | .composite => .compositeLiteral
  | .array => .arrayLiteral
  | .index => .arrayAccess
  | .call => .functionCall

/-- The part of the operand in it. -/
def field : Growth → Field
  | .binary _ => .left
  | .member => .object
  | .composite | .array => .type
  | .index => .array
  | .call => .function

/-- What a point makes of the operand before it. -/
def ofPoint : Glance Growth := do
  match ← Conflict.expressionCompositeLiteral.decide false with
  | .compositeLiteral => return .composite
  | .arrayLiteral => return .array
  | _ => return .member

/-- What the next token makes of the operand before it, if it binds tighter than the floor. -/
def next (floor : Power) (setting : Setting) : Glance (Option Growth) := do
  let kind ← Glance.kindAt 0
  match kind.power? with
  | none => return none
  | some power =>
    if power.rank ≤ floor.rank then
      return none
    else
      match kind with
      | .dot => some <$> ofPoint
      | .openBracket => return some .index
      | .openParen => return some .call
      | .equals =>
        -- In the condition of a switch an equals sign before a brace opens the cases.
        if setting.inSwitch then
          return if (← Glance.kindAt 1) = .openCurly then none else some (.binary power)
        else
          return some (.binary power)
      | _ => return some (.binary power)

end Growth

namespace Grammar

open Form

/-- An expression, or two with two points between them. -/
def range : Form :=
  .grow false expression
    (fun _ => do return if (← Glance.kindAt 0) = .dotDot then some () else none)
    (fun _ => .rangeExpression) (fun _ => some .start)
    (fun _ => any ++ .label .finish expression)

/-- A point and a name. -/
def memberBody : Form := token .dot ++ .label .member identifier

/-- What stands after the operand in the larger expression. -/
def growthBody : Growth → Form
  | .binary power => .take (some .operator) ++ .label .right (.enter (.expression power))
  | .member => memberBody
  | .composite => compositeBody
  | .array => arrayBody
  | .index =>
    token .openBracket ++ .within .index (.label .index range) ++ token .closeBracket
  | .call => .label .arguments argumentList

/-- What a form takes, growing with what stands after it, once or as long as it can. -/
def growing (again : Bool) (first : Form) (look : Setting → Glance (Option Growth)) : Form :=
  .grow again first look Growth.kind (fun growth => some growth.field) growthBody

end Grammar

end JaiTree
