import JaiTree.Grammar.Expression
import JaiTree.Lookahead.Shape

/-!
Declarations: structs, enums, procedures, imports and plain values, each from its names on.
-/

namespace JaiTree

/-- The kind of node that a declaration makes. -/
def DeclarationShape.kind : DeclarationShape → NodeKind
  | .struct => .structDeclaration
  | .enum => .enumDeclaration
  | .function | .bake => .functionDeclaration
  | .foreignLibrary => .foreignLibraryStatement
  | .importing => .importStatement
  | .general => .declaration

namespace Grammar

open Form

def optSemicolon : Form := optToken .semicolon

def declaredName : Form := .label .name identifier

/-- Names between commas. -/
def declaredNames : Form := separated declaredName

/-- Items between braces, and semicolons between them. -/
def bodyItems (item : Form) : Form :=
  .fix <| onSight fun s =>
    match s.kind with
    | .closeCurly | .eof => .empty
    | .semicolon => any ++ .again
    -- An item that fails becomes an error of its own, and the rest of the body is read on.
    | _ => .guard item ++ .again

/-- A type and a default after the names of a member. -/
def memberRest : Form :=
  opt (fun s => s.kind ≠ .assignment && s.startsType) (.label .type type)
    ++ opt (fun s => s.kind = .assignment) (any ++ .label .default expression)

/-- Members of a struct, with the directives and the note on their line. -/
def structMember : Form :=
  .node .structMember <|
    declaredNames ++ token .colon ++ memberRest ++ trailingDirectives
      ++ opt (fun s => s.kind = .atSign && !s.startsLine) note
      ++ optSemicolon

/-- Whether names are declared with a single colon here. -/
def declaresMembers : Glance Bool := do
  return (← Glance.nameList 0).any fun list => list.colon = .colon

def structItem : Form :=
  onSight fun s =>
    if s.kind = .atSign then note else ifelse declaresMembers structMember statement

def structBody : Form :=
  .node .structBody (token .openCurly ++ bodyItems structItem ++ token .closeCurly)

/-- A struct or a union. -/
def structDeclaration : Form :=
  declaredName ++ token .colonColon ++ any
    ++ opt (fun s => s.kind = .openParen) parameters
    ++ trailingDirectives ++ .label .body structBody

/-- A member of an enum, with its value if one is given. -/
def enumMember : Form :=
  .node .enumMember <|
    declaredName
      ++ opt (fun s => s.kind = .assignment || s.kind = .colonColon)
        (any ++ .label .value expression)
      ++ optSemicolon

def enumItem : Form :=
  onSight fun s => if s.kind = .identifier then enumMember else statement

def enumBody : Form :=
  .node .enumBody (token .openCurly ++ bodyItems enumItem ++ token .closeCurly)

/-- An enum, of flags or not. -/
def enumDeclaration : Form :=
  declaredName ++ token .colonColon ++ any
    ++ opt (fun s => s.kind ≠ .openCurly && s.directive?.isNone && s.startsType)
      (.label .baseType type)
    ++ trailingDirectives ++ .label .body enumBody

/-- The operator that is overloaded: one token, or two brackets with or without an equals sign. -/
def overloadedOperator : Form :=
  onSight fun s =>
    if s.kind = .openBracket then
      .take (some .op) ++ .expect .closeBracket (some .op)
        ++ opt (fun s => s.kind = .assignment) (.take (some .op))
    else
      .take (some .op)

/-- Whether a directive here still belongs to the signature before it. -/
def atProcedureSuffix : Glance Bool := do
  return (← Conflict.directiveFunctionDeclaration.decide false) = .functionDeclaration

/-- A procedure from its signature on: a body, or a semicolon if there is one. -/
def procedure : Form :=
  ifelse
      (do if (← Glance.tokenAt 0).isInlining then Glance.procedure 1 else return false)
      any .empty
    ++ signature ++ many atProcedureSuffix directive
    ++ settled .functionDeclaration fun
      | .block => .label .body block
      | _ => optSemicolon

/-- A procedure, an overload, the type of a procedure, or a procedure with baked arguments. -/
def functionDeclaration : Form :=
  ifelse Glance.overload (any ++ overloadedOperator) declaredName
    ++ token .colonColon
    ++ onSight fun s =>
      match s.directive? with
      | none => procedure
      | some d =>
        if d.isBake then any ++ identifier ++ .label .arguments argumentList ++ optSemicolon
        else if d = .typeMark then any ++ procedure
        else procedure

/-- A module by its path, with the parameters on its line. -/
def importedModule : Form :=
  any ++ .label .path string
    ++ opt (fun s => s.kind = .openParen && !s.startsLine) (.label .arguments argumentList)
    ++ optSemicolon

/-- A module under a name. -/
def importDeclaration : Form :=
  .label .nameSpace identifier ++ token .colonColon ++ importedModule

/-- A foreign library under a name. -/
def foreignLibrary : Form :=
  declaredName ++ token .colonColon ++ any ++ .label .path string ++ optSemicolon

/-- Values between commas. -/
def declaredValues : Form := separated (.label .value expression)

/-- Whether values follow the names and the type of a declaration. -/
def startsValues (s : Sight) : Bool := s.kind = .assignment || s.kind = .colon

/-- Names, and a type or values or both. -/
def generalDeclaration : Form :=
  declaredNames
    ++ (onSight fun s =>
      match s.kind with
      | .colonColon => any ++ declaredValues
      | .colon =>
        any ++ opt (fun s => !startsValues s && s.startsType) (.label .type type)
          ++ opt startsValues (any ++ declaredValues)
      | _ => missing (.expectedToken ":"))
    ++ optSemicolon

/-- A declaration from its names on. -/
def declarationBody : DeclarationShape → Form
  | .struct => structDeclaration
  | .enum => enumDeclaration
  | .function | .bake => functionDeclaration
  | .foreignLibrary => foreignLibrary
  | .importing => importDeclaration
  | .general => generalDeclaration

def declaration (shape : DeclarationShape) : Form := .node shape.kind (declarationBody shape)

end Grammar

end JaiTree
