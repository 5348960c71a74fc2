/-!
Kinds of tree nodes and the fields that name a child's part in its parent.
-/

namespace JaiTree

inductive NodeKind where
  | sourceFile | error | importStatement | loadStatement | foreignLibraryStatement | asmBlock
  | functionDeclaration | structDeclaration | enumDeclaration | declaration | assignment
  | ifStatement | whileStatement | forStatement | returnStatement | breakStatement
  | continueStatement | deferStatement | removeStatement | usingStatement | block
  | expressionStatement | directiveStatement | caseStatement | scopeDirective | structBody
  | structMember | enumBody | enumMember | parameterList | parameterDeclaration | returnTypeList
  | returnType | argumentList | argument | compositeElement | identifier | numberLiteral
  | stringLiteral | escapeSequence | stringPlaceholder | booleanLiteral | nullLiteral
  | uninitializedLiteral | functionCall | memberAccess | arrayAccess | castExpression
  | unaryExpression | binaryExpression | parenthesizedExpression | compositeLiteral | arrayLiteral
  | rangeExpression | directiveExpression | note | pointerType | arrayType | procedureType
  | primitiveType | polymorphicType
deriving Repr, DecidableEq

/-- The kind as a tree prints it. -/
def NodeKind.text : NodeKind → String
  | .sourceFile => "source_file"
  | .error => "ERROR"
  | .importStatement => "import_statement"
  | .loadStatement => "load_statement"
  | .foreignLibraryStatement => "foreign_library_statement"
  | .asmBlock => "asm_block"
  | .functionDeclaration => "function_declaration"
  | .structDeclaration => "struct_declaration"
  | .enumDeclaration => "enum_declaration"
  | .declaration => "declaration"
  | .assignment => "assignment"
  | .ifStatement => "if_statement"
  | .whileStatement => "while_statement"
  | .forStatement => "for_statement"
  | .returnStatement => "return_statement"
  | .breakStatement => "break_statement"
  | .continueStatement => "continue_statement"
  | .deferStatement => "defer_statement"
  | .removeStatement => "remove_statement"
  | .usingStatement => "using_statement"
  | .block => "block"
  | .expressionStatement => "expression_statement"
  | .directiveStatement => "directive_statement"
  | .caseStatement => "case_statement"
  | .scopeDirective => "scope_directive"
  | .structBody => "struct_body"
  | .structMember => "struct_member"
  | .enumBody => "enum_body"
  | .enumMember => "enum_member"
  | .parameterList => "parameter_list"
  | .parameterDeclaration => "parameter_declaration"
  | .returnTypeList => "return_type_list"
  | .returnType => "return_type"
  | .argumentList => "argument_list"
  | .argument => "argument"
  | .compositeElement => "composite_element"
  | .identifier => "identifier"
  | .numberLiteral => "number_literal"
  | .stringLiteral => "string_literal"
  | .escapeSequence => "escape_sequence"
  | .stringPlaceholder => "string_placeholder"
  | .booleanLiteral => "boolean_literal"
  | .nullLiteral => "null_literal"
  | .uninitializedLiteral => "uninitialized_literal"
  | .functionCall => "function_call"
  | .memberAccess => "member_access"
  | .arrayAccess => "array_access"
  | .castExpression => "cast_expression"
  | .unaryExpression => "unary_expression"
  | .binaryExpression => "binary_expression"
  | .parenthesizedExpression => "parenthesized_expression"
  | .compositeLiteral => "composite_literal"
  | .arrayLiteral => "array_literal"
  | .rangeExpression => "range_expression"
  | .directiveExpression => "directive_expression"
  | .note => "annotation"
  | .pointerType => "pointer_type"
  | .arrayType => "array_type"
  | .procedureType => "procedure_type"
  | .primitiveType => "primitive_type"
  | .polymorphicType => "polymorphic_type"

/-- Every node kind, once. -/
def NodeKind.all : List NodeKind :=
  [.sourceFile, .error, .importStatement, .loadStatement, .foreignLibraryStatement, .asmBlock,
   .functionDeclaration, .structDeclaration, .enumDeclaration, .declaration, .assignment,
   .ifStatement, .whileStatement, .forStatement, .returnStatement, .breakStatement,
   .continueStatement, .deferStatement, .removeStatement, .usingStatement, .block,
   .expressionStatement, .directiveStatement, .caseStatement, .scopeDirective, .structBody,
   .structMember, .enumBody, .enumMember, .parameterList, .parameterDeclaration, .returnTypeList,
   .returnType, .argumentList, .argument, .compositeElement, .identifier, .numberLiteral,
   .stringLiteral, .escapeSequence, .stringPlaceholder, .booleanLiteral, .nullLiteral,
   .uninitializedLiteral, .functionCall, .memberAccess, .arrayAccess, .castExpression,
   .unaryExpression, .binaryExpression, .parenthesizedExpression, .compositeLiteral,
   .arrayLiteral, .rangeExpression, .directiveExpression, .note, .pointerType, .arrayType,
   .procedureType, .primitiveType, .polymorphicType]

/-- The part of a child in its parent. -/
inductive Field where
  | name | path | nameSpace | type | default | value | values | body | condition | consequence
  | alternative | iterator | range | parameters | returnType | left | right | operator | operand
  | function | arguments | object | member | array | index | args | delimiter | content
  | endDelimiter | features | op | statement | expression | start | finish | pointee | size
  | element | baseType | polymorphic
deriving Repr, DecidableEq

/-- The field as a tree prints it. -/
def Field.text : Field → String
  | .name => "name"
  | .path => "path"
  | .nameSpace => "namespace"
  | .type => "type"
  | .default => "default"
  | .value => "value"
  | .values => "values"
  | .body => "body"
  | .condition => "condition"
  | .consequence => "consequence"
  | .alternative => "alternative"
  | .iterator => "iterator"
  | .range => "range"
  | .parameters => "parameters"
  | .returnType => "return_type"
  | .left => "left"
  | .right => "right"
  | .operator => "operator"
  | .operand => "operand"
  | .function => "function"
  | .arguments => "arguments"
  | .object => "object"
  | .member => "member"
  | .array => "array"
  | .index => "index"
  | .args => "args"
  | .delimiter => "delimiter"
  | .content => "content"
  | .endDelimiter => "end_delimiter"
  | .features => "features"
  | .op => "op"
  | .statement => "statement"
  | .expression => "expression"
  | .start => "start"
  | .finish => "end"
  | .pointee => "pointee"
  | .size => "size"
  | .element => "element"
  | .baseType => "base_type"
  | .polymorphic => "polymorphic"

/-- Every field, once. -/
def Field.all : List Field :=
  [.name, .path, .nameSpace, .type, .default, .value, .values, .body, .condition, .consequence,
   .alternative, .iterator, .range, .parameters, .returnType, .left, .right, .operator, .operand,
   .function, .arguments, .object, .member, .array, .index, .args, .delimiter, .content,
   .endDelimiter, .features, .op, .statement, .expression, .start, .finish, .pointee, .size,
   .element, .baseType, .polymorphic]

theorem NodeKind.mem_all (kind : NodeKind) : kind ∈ all := by
  cases kind <;> decide

theorem Field.mem_all (field : Field) : field ∈ all := by
  cases field <;> decide

end JaiTree
