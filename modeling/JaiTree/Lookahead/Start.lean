import JaiTree.Token.Trivia

/-!
Starts: the tokens that may begin an expression or a type.
-/

namespace JaiTree

namespace TokenKind

/-- Whether an expression may begin with a token of the kind. -/
def startsExpression : TokenKind → Bool
  | .identifier | .number | .uninitialized | .doubleQuote | .error | .openParen | .dot | .atSign
  | .dash | .not | .tilde | .star | .ampersand | .shiftLeft | .openBracket | .dollar => true
  | .directive d => d.isExpression
  | _ => false

/-- Whether a type may begin with a token of the kind. -/
def startsType : TokenKind → Bool
  | .identifier | .star | .openBracket | .openParen | .dollar => true
  | .directive d => d.isExpression && d.operand != .hereString
  | _ => false

end TokenKind

namespace Sight

/-- Whether the token is a name that only ever goes on a statement before it. -/
def isContinuation (sight : Sight) : Bool :=
  match sight.keyword? with
  | some .thenWord | some .elseWord | some .caseWord => true
  | _ => false

def startsExpression (sight : Sight) : Bool :=
  sight.kind.startsExpression && !sight.isContinuation

def startsType (sight : Sight) : Bool := sight.kind.startsType && !sight.isContinuation

def startsString (sight : Sight) : Bool :=
  sight.kind = .doubleQuote || sight.kind = .directive .string

/-- Whether the token asks for a procedure to be inlined or kept apart. -/
def isInlining (sight : Sight) : Bool := sight.keyword?.any Keyword.isInlining

def isWord (keyword : Keyword) (sight : Sight) : Bool := sight.keyword? = some keyword

end Sight

end JaiTree
