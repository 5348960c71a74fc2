import JaiTree.Grammar.Directive
import JaiTree.Grammar.Growth

/-!
Types.
-/

namespace JaiTree.Grammar

open Form

/-- A pointer: stars, and the type pointed at. -/
def pointerType : Form :=
  .node .pointerType <|
    many ((fun w => w = .pointerType) <$> Conflict.pointerType.decide false) any
      ++ .label .pointee type

/-- What stands between the brackets of an array type: nothing, two points, or a size. -/
def arraySize : Form :=
  .choose
    (fun _ => do
      match ← Glance.kindAt 0 with
      | .closeBracket => return (some true)
      | .dotDot => return if (← Glance.kindAt 1) = .closeBracket then some false else none
      | _ => return none)
    fun
      | some true => .empty
      | some false => any
      | none => .label .size range

/-- An array type: its size in brackets, and the type of its elements. -/
def arrayType : Form :=
  .node .arrayType <|
    token .openBracket ++ arraySize ++ token .closeBracket ++ .label .element type

/-- A type that is left open: a dollar sign and its name. -/
def polymorphicType : Form := .node .polymorphicType (token .dollar ++ identifier)

/-- A procedure type: a signature, and on its line the directives that belong to it. -/
def procedureType : Form :=
  .node .procedureType <|
    opt Sight.isInlining any ++ signature
      ++ many
        (do
          if (← Conflict.procedureType.decide false) = .procedureType then
            return (← Conflict.directiveProcedureType.decide false) = .procedureType
          else
            return false)
        directive

/-- A name with the members and the arguments that make it a type. -/
def namedType : Form :=
  growing true identifier fun setting => do
    match ← Glance.kindAt 0 with
    | .dot =>
      if (← Glance.kindAt 1) = .identifier then some <$> Growth.ofPoint else return none
    | .openParen =>
      match ← Conflict.callMember.decide setting.inParameters with
      | .functionCall => return some .call
      | _ => return none
    | _ => return none

/-- A type that begins with a name. -/
def identifierType : Form :=
  settled .typeIdentifier fun
    | .primitiveType => .node .primitiveType any
    | _ =>
      ifelse
        (do
          if (← Glance.tokenAt 0).isInlining then Glance.procedure 1 else return false)
        procedureType namedType

def typeRule : Form :=
  onSight fun s =>
    match s.kind with
    | .identifier => identifierType
    | .star => pointerType
    | .openBracket => arrayType
    | .openParen => procedureType
    | .dollar => polymorphicType
    | .directive d =>
      if d.isExpression && d.operand != .hereString then directive else missing .expectedType
    | _ => missing .expectedType

end JaiTree.Grammar
