import JaiTree.Token.Trivia

/-!
Glances: decisions that ask for tokens ahead, one offset at a time. Running a glance gives its
answer, and its reach is the offset of the farthest token that the answer took.
-/

namespace JaiTree

/-- How many tokens make up the names at the head of a token list: a name, then a comma and a
name as often as they come. -/
def nameRun : List Padded → Nat
  | [] => 0
  | first :: rest =>
    if first.token.kind = .identifier then
      match rest with
      | comma :: second :: more =>
        if comma.token.kind = .comma && second.token.kind = .identifier then
          2 + nameRun (second :: more)
        else
          1
      | _ => 1
    else
      0

/-- A decision that looks at tokens ahead. -/
inductive Glance (α : Type) where
  | settle (answer : α)
  /-- A look at the token at an offset. -/
  | sight (offset : Nat) (next : Sight → Glance α)
  /-- A look over the names between commas that begin at an offset, to count their tokens. -/
  | names (offset : Nat) (next : Nat → Glance α)

namespace Glance

variable {α β : Type}

/-- One decision after another. -/
def bind : Glance α → (α → Glance β) → Glance β
  | .settle answer, f => f answer
  | .sight offset next, f => .sight offset fun s => (next s).bind f
  | .names offset next, f => .names offset fun n => (next n).bind f

instance : Monad Glance where
  pure := .settle
  bind := bind

/-- The token at an offset. -/
def tokenAt (offset : Nat) : Glance Sight := .sight offset .settle

def kindAt (offset : Nat) : Glance TokenKind := .sight offset fun s => .settle s.kind

def keywordAt (offset : Nat) : Glance (Option Keyword) :=
  .sight offset fun s => .settle s.keyword?

def isNext (kind : TokenKind) : Glance Bool := .sight 0 fun s => .settle (s.kind = kind)

/-- The same decision about the tokens from an offset on. -/
def after (base : Nat) : Glance α → Glance α
  | .settle answer => .settle answer
  | .sight offset next => .sight (base + offset) fun s => (next s).after base
  | .names offset next => .names (base + offset) fun n => (next n).after base

end Glance

/-- The token at an offset of what lies ahead, and the end past that. -/
def ahead (eof : Padded) (rest : List Padded) (offset : Nat) : Padded := rest[offset]?.getD eof

namespace Glance

variable {α : Type}

/-- The answer, for the tokens that lie ahead. -/
def run (eof : Padded) (rest : List Padded) : Glance α → α
  | .settle answer => answer
  | .sight offset next => (next (ahead eof rest offset).sight).run eof rest
  | .names offset next => (next (nameRun (rest.drop offset))).run eof rest

/-- The farthest offset at which a look over the names from an offset touches a token: one past
their end, or two past it when a comma stands there. -/
def nameReach (eof : Padded) (rest : List Padded) (offset : Nat) : Nat :=
  let run := nameRun (rest.drop offset)
  if run ≠ 0 ∧ (ahead eof rest (offset + run)).token.kind = .comma then offset + run + 1
  else offset + run

/-- The farthest offset at which the decision looks, for the tokens that lie ahead. -/
def reach (eof : Padded) (rest : List Padded) : Glance α → Nat
  | .settle _ => 0
  | .sight offset next => max offset ((next (ahead eof rest offset).sight).reach eof rest)
  | .names offset next =>
    max (nameReach eof rest offset) ((next (nameRun (rest.drop offset))).reach eof rest)

end Glance

end JaiTree
