/-!
Directives: the closed set of words that begin with a hash sign.
-/

namespace JaiTree

/-- What stands after a directive. -/
inductive Operand where
  | bare
  /-- Always an expression or a block. -/
  | expression
  /-- An expression, when one starts on the same line. -/
  | optionalExpression
  /-- A string, when one starts on the same line. -/
  | optionalString
  /-- A library name and a symbol, each when it stands on the same line. -/
  | foreignName
  /-- A procedure name and its arguments. -/
  | bake
  /-- A type, when one starts on the same line. -/
  | optionalType
  /-- A block, or an expression on the same line. -/
  | codeBody
  | parameterList
  /-- The body of a here-string, which the lexer has cut already. -/
  | hereString
  /-- What its own statement says: no expression begins with such a directive. -/
  | statementOnly
deriving Repr, DecidableEq

inductive Directive where
  | importModule | importFile | importDir | importString | load | foreignLibrary
  | foreignSystemLibrary | run | assert | staticIf | staticIfx | compiler | intrinsic
  | runtimeSupport | deprecated | foreign | cCall | noContext | symmetric | must | expand | bake
  | bakeArguments | bakeConstants | addContext | align | asBase | bytes | callerCode
  | callerLocation | code | codeNull | codeTyped | compileTime | complete | dump | elsewhere
  | file | filepath | insert | insertScope | modify | moduleParameters | noAbc | noAlias
  | noPadding | noReset | place | placeholder | procedureName | procedureOfCall | programExport
  | specified | this | through | typeMark | typeIsa | typeDistinct | typeInfoNone
  | typeInfoProceduresAreVoidPointers | typeInfoNoSizeComplaint | unshared | char | asm
  | scopeExport | scopeFile | scopeModule | string
deriving Repr, DecidableEq

namespace Directive

/-- Every directive, once. -/
def all : List Directive :=
  [.importModule, .importFile, .importDir, .importString, .load, .foreignLibrary,
   .foreignSystemLibrary, .run, .assert, .staticIf, .staticIfx, .compiler, .intrinsic,
   .runtimeSupport, .deprecated, .foreign, .cCall, .noContext, .symmetric, .must, .expand, .bake,
   .bakeArguments, .bakeConstants, .addContext, .align, .asBase, .bytes, .callerCode,
   .callerLocation, .code, .codeNull, .codeTyped, .compileTime, .complete, .dump, .elsewhere,
   .file, .filepath, .insert, .insertScope, .modify, .moduleParameters, .noAbc, .noAlias,
   .noPadding, .noReset, .place, .placeholder, .procedureName, .procedureOfCall, .programExport,
   .specified, .this, .through, .typeMark, .typeIsa, .typeDistinct, .typeInfoNone,
   .typeInfoProceduresAreVoidPointers, .typeInfoNoSizeComplaint, .unshared, .char, .asm,
   .scopeExport, .scopeFile, .scopeModule, .string]

def spelling : Directive → String
  | .importModule => "#import"
  | .importFile => "#import,file"
  | .importDir => "#import,dir"
  | .importString => "#import,string"
  | .load => "#load"
  | .foreignLibrary => "#foreign_library"
  | .foreignSystemLibrary => "#foreign_system_library"
  | .run => "#run"
  | .assert => "#assert"
  | .staticIf => "#if"
  | .staticIfx => "#ifx"
  | .compiler => "#compiler"
  | .intrinsic => "#intrinsic"
  | .runtimeSupport => "#runtime_support"
  | .deprecated => "#deprecated"
  | .foreign => "#foreign"
  | .cCall => "#c_call"
  | .noContext => "#no_context"
  | .symmetric => "#symmetric"
  | .must => "#must"
  | .expand => "#expand"
  | .bake => "#bake"
  | .bakeArguments => "#bake_arguments"
  | .bakeConstants => "#bake_constants"
  | .addContext => "#add_context"
  | .align => "#align"
  | .asBase => "#as"
  | .bytes => "#bytes"
  | .callerCode => "#caller_code"
  | .callerLocation => "#caller_location"
  | .code => "#code"
  | .codeNull => "#code,null"
  | .codeTyped => "#code,typed"
  | .compileTime => "#compile_time"
  | .complete => "#complete"
  | .dump => "#dump"
  | .elsewhere => "#elsewhere"
  | .file => "#file"
  | .filepath => "#filepath"
  | .insert => "#insert"
  | .insertScope => "#insert,scope"
  | .modify => "#modify"
  | .moduleParameters => "#module_parameters"
  | .noAbc => "#no_abc"
  | .noAlias => "#no_alias"
  | .noPadding => "#no_padding"
  | .noReset => "#no_reset"
  | .place => "#place"
  | .placeholder => "#placeholder"
  | .procedureName => "#procedure_name"
  | .procedureOfCall => "#procedure_of_call"
  | .programExport => "#program_export"
  | .specified => "#specified"
  | .this => "#this"
  | .through => "#through"
  | .typeMark => "#type"
  | .typeIsa => "#type,isa"
  | .typeDistinct => "#type,distinct"
  | .typeInfoNone => "#type_info_none"
  | .typeInfoProceduresAreVoidPointers => "#type_info_procedures_are_void_pointers"
  | .typeInfoNoSizeComplaint => "#type_info_no_size_complaint"
  | .unshared => "#unshared"
  | .char => "#char"
  | .asm => "#asm"
  | .scopeExport => "#scope_export"
  | .scopeFile => "#scope_file"
  | .scopeModule => "#scope_module"
  | .string => "#string"

def ofText? (text : String) : Option Directive := all.find? (·.spelling = text)

def operand : Directive → Operand
  | .run | .assert | .staticIf | .staticIfx | .procedureOfCall => .expression
  | .align | .bytes | .complete | .elsewhere | .insert | .insertScope | .place | .placeholder
  | .procedureName => .optionalExpression
  | .deprecated | .programExport | .char => .optionalString
  | .foreign => .foreignName
  | .bake | .bakeArguments | .bakeConstants => .bake
  | .typeMark | .typeIsa | .typeDistinct => .optionalType
  | .code | .codeNull | .codeTyped | .modify => .codeBody
  | .moduleParameters => .parameterList
  | .string => .hereString
  | .importModule | .importFile | .importDir | .importString | .load | .foreignLibrary
  | .foreignSystemLibrary | .asm | .scopeExport | .scopeFile | .scopeModule => .statementOnly
  | .compiler | .intrinsic | .runtimeSupport | .cCall | .noContext | .symmetric | .must
  | .expand | .addContext | .asBase | .callerCode | .callerLocation | .compileTime | .dump
  | .file | .filepath | .noAbc | .noAlias | .noPadding | .noReset | .specified | .this
  | .through | .typeInfoNone | .typeInfoProceduresAreVoidPointers | .typeInfoNoSizeComplaint
  | .unshared => .bare

/-- Whether the directive bakes arguments into a procedure. -/
def isBake : Directive → Bool
  | .bake | .bakeArguments | .bakeConstants => true
  | _ => false

def isImport : Directive → Bool
  | .importModule | .importFile | .importDir | .importString => true
  | _ => false

/-- Whether the directive sets the scope of what follows. -/
def isScope : Directive → Bool
  | .scopeExport | .scopeFile | .scopeModule => true
  | _ => false

/-- Whether the directive may trail a procedure signature, even on a later line. -/
def isProcedureSuffix : Directive → Bool
  | .cCall | .noContext | .symmetric | .compiler | .intrinsic | .runtimeSupport | .deprecated
  | .foreign | .must | .expand | .modify | .elsewhere | .programExport | .noAlias | .noAbc
  | .dump | .compileTime => true
  | _ => false

/-- Whether an expression may begin with the directive. -/
def isExpression (directive : Directive) : Bool := directive.operand != .statementOnly

theorem mem_all (directive : Directive) : directive ∈ all := by
  cases directive <;> decide

theorem ofText?_spelling (directive : Directive) : ofText? directive.spelling = some directive := by
  cases directive <;> decide

end Directive

end JaiTree
