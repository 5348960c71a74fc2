import JaiTree.Grammar.Literal

/-!
Signatures: parameters in parentheses and what a procedure returns.
-/

namespace JaiTree.Grammar

open Form

/-- The type and the default of a parameter that has a name. -/
def parameterRest : Form :=
  opt (fun s => s.kind = .colon)
      (any ++ optToken .dotDot
        ++ opt (fun s => s.kind ≠ .assignment && s.startsType) (.label .type type))
    ++ settled .parameterExpression fun
      | .defaultValue => any ++ .label .default expression
      | _ => .empty

/-- A parameter: a name, with a type and a default if they are given, or a type alone. -/
def parameter : Form :=
  .node .parameterDeclaration <|
    (settled .parameterDeclaration fun
      | .parameterDeclaration => any
      | _ => .empty)
    ++ settled .typeParameterExpression fun
      | .polymorphicType => any ++ .label .polymorphic identifier ++ parameterRest
      | .parameterDeclaration => .label .name identifier ++ parameterRest
      | _ => .label .type type

def parameterList : Form :=
  .within .parameters (.node .parameterList (someItems .closeParen parameter))

/-- Parameters in parentheses. -/
def parameters : Form :=
  token .openParen ++ unclosed .closeParen (.label .parameters parameterList) ++ token .closeParen

/-- A type that is returned, with a name if one is given, and on its line the demand to use it. -/
def returnType : Form :=
  .node .returnType <|
    (settled .typeReturnType fun
      | .returnType => .label .name identifier ++ any
      | _ => .empty)
    ++ .label .type type
    ++ opt (fun s => s.kind = .directive .must && !s.startsLine) any

/-- Whether a parenthesis, a name and a colon lie ahead. -/
def atNamedReturns : Glance Bool := do
  if (← Glance.kindAt 0) = .openParen then
    if (← Glance.kindAt 1) = .identifier then
      return (← Glance.kindAt 2) = .colon
    else
      return false
  else
    return false

/-- Whether a comma brings another returned type; inside a parameter list it ends them. -/
def bringsReturn (setting : Setting) : Glance Bool := do
  if (← Glance.kindAt 0) = .comma then
    return (← Conflict.returnTypeList.decide setting.inParameters) = .returnTypeList
  else
    return false

/-- More returned types after the first. -/
def moreReturns : Form :=
  .fix <| .choose bringsReturn fun more => if more then any ++ returnType ++ .again else .empty

/-- The types after an arrow, in parentheses when the first has a name behind one. -/
def returnTypeList : Form :=
  .node .returnTypeList <|
    ifelse atNamedReturns
      (any ++ separated returnType ++ token .closeParen)
      (returnType ++ moreReturns)

/-- Parameters, and the types after an arrow. -/
def signature : Form :=
  parameters ++ opt (fun s => s.kind = .arrow) (any ++ .label .returnType returnTypeList)

end JaiTree.Grammar
