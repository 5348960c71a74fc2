/-!
Keywords: names that some position of the grammar reads as more than a name.
-/

namespace JaiTree

/-- A keyword. Elsewhere each of them is an ordinary name. -/
inductive Keyword where
  | ifWord | ifxWord | thenWord | elseWord | whileWord | forWord | returnWord | breakWord
  | continueWord | deferWord | removeWord | usingWord | caseWord | structWord | unionWord
  | enumWord | enumFlagsWord | castWord | xxWord | inlineWord | noInlineWord | operatorWord
  | trueWord | falseWord | nullWord | itWord | itIndexWord | contextWord | tempWord | mainWord
  | forExpansionWord | mapWord | exceptWord | onlyWord | truncWord | noCheckWord
deriving Repr, DecidableEq

namespace Keyword

/-- Every keyword, once. -/
def all : List Keyword :=
  [.ifWord, .ifxWord, .thenWord, .elseWord, .whileWord, .forWord, .returnWord, .breakWord,
   .continueWord, .deferWord, .removeWord, .usingWord, .caseWord, .structWord, .unionWord,
   .enumWord, .enumFlagsWord, .castWord, .xxWord, .inlineWord, .noInlineWord, .operatorWord,
   .trueWord, .falseWord, .nullWord, .itWord, .itIndexWord, .contextWord, .tempWord, .mainWord,
   .forExpansionWord, .mapWord, .exceptWord, .onlyWord, .truncWord, .noCheckWord]

def spelling : Keyword → String
  | .ifWord => "if"
  | .ifxWord => "ifx"
  | .thenWord => "then"
  | .elseWord => "else"
  | .whileWord => "while"
  | .forWord => "for"
  | .returnWord => "return"
  | .breakWord => "break"
  | .continueWord => "continue"
  | .deferWord => "defer"
  | .removeWord => "remove"
  | .usingWord => "using"
  | .caseWord => "case"
  | .structWord => "struct"
  | .unionWord => "union"
  | .enumWord => "enum"
  | .enumFlagsWord => "enum_flags"
  | .castWord => "cast"
  | .xxWord => "xx"
  | .inlineWord => "inline"
  | .noInlineWord => "no_inline"
  | .operatorWord => "operator"
  | .trueWord => "true"
  | .falseWord => "false"
  | .nullWord => "null"
  | .itWord => "it"
  | .itIndexWord => "it_index"
  | .contextWord => "context"
  | .tempWord => "temp"
  | .mainWord => "main"
  | .forExpansionWord => "for_expansion"
  | .mapWord => "map"
  | .exceptWord => "except"
  | .onlyWord => "only"
  | .truncWord => "trunc"
  | .noCheckWord => "no_check"

def ofText? (text : String) : Option Keyword := all.find? (·.spelling = text)

def startsStatement : Keyword → Bool
  | .ifWord | .ifxWord | .whileWord | .forWord | .returnWord | .breakWord | .continueWord
  | .deferWord | .removeWord | .usingWord | .caseWord => true
  | _ => false

/-- Whether the keyword asks for a procedure to be inlined or kept apart. -/
def isInlining : Keyword → Bool
  | .inlineWord | .noInlineWord => true
  | _ => false

theorem mem_all (keyword : Keyword) : keyword ∈ all := by
  cases keyword <;> decide

theorem ofText?_spelling (keyword : Keyword) : ofText? keyword.spelling = some keyword := by
  cases keyword <;> decide

end Keyword

end JaiTree
