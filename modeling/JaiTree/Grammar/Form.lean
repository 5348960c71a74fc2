import JaiTree.Conflict.Decide
import JaiTree.Tree.Basic

/-!
Forms: the rules of a grammar as values. A form says which tokens it takes, which nodes it puts
them under, and where it looks ahead to choose.
-/

namespace JaiTree

/-- How tightly an operator binds, from loosest to tightest. -/
inductive Power where
  | default | logicalOr | logicalAnd | relational | bitOr | bitXor | bitAnd | shift | additive
  | multiplicative | unary | member | call | primary
deriving Repr, DecidableEq

/-- The place of a power among all of them. -/
def Power.rank (power : Power) : Nat := power.ctorIdx

/-- The rules that count as a level of nesting. -/
inductive Goal where
  /-- An expression of operators that bind tighter than a power. -/
  | expression (floor : Power)
  | type
  | statement
  /-- The statements of a block, up to its closing brace. -/
  | blockItems
deriving Repr, DecidableEq

/-- What a rule has to know of the rules around it. -/
structure Setting where
  /-- Whether an equals sign before a brace opens the cases of a switch. -/
  inSwitch : Bool
  /-- Whether parameters are being declared. -/
  inParameters : Bool
deriving Repr, DecidableEq

/-- A step of a rule around a part that it calls. -/
inductive Step where
  /-- Opens a level, or fails where as many are open as are followed. -/
  | enter
  /-- Closes the level. -/
  | leave
  /-- Keeps what an equals sign before a brace means. -/
  | save
  /-- Says what it means from here on. -/
  | put (inSwitch : Bool)
  /-- Puts back what was kept. -/
  | restore
  /-- Opens a parameter list. -/
  | openList
  /-- Closes the parameter list. -/
  | closeList
  /-- Calls the part, and goes on even where it fails. -/
  | call
  /-- Fails where the part has failed. -/
  | check
deriving Repr, DecidableEq

/-- The parts of rules that are read in a setting of their own. -/
inductive Scope where
  /-- The statements of a block. -/
  | block
  /-- The expression between parentheses. -/
  | parentheses
  /-- The elements of a literal. -/
  | literal
  /-- The index behind an operand. -/
  | index
  /-- The arguments of a call. -/
  | arguments
  /-- The parameters of a procedure. -/
  | parameters
  /-- The condition of a conditional. -/
  | condition
deriving Repr, DecidableEq

/-- The steps of a rule around its part in a scope. -/
def Scope.steps : Scope → List Step
  | .block => [.save, .put false, .call, .restore]
  | .parentheses => [.save, .put false, .call, .restore, .check]
  | .literal => [.save, .put false, .call, .restore, .check]
  | .index => [.save, .put false, .call, .restore, .check]
  | .arguments => [.save, .put false, .call, .restore, .check]
  | .parameters => [.save, .put false, .openList, .call, .closeList, .restore]
  | .condition => [.save, .put true, .call, .restore, .check]

/-- What a step writes into the setting. -/
def Step.write (setting : Setting) : Step → Setting
  | .put inSwitch => { setting with inSwitch }
  | .openList => { setting with inParameters := true }
  | _ => setting

/-- The setting in a scope: what the steps before the call have written. -/
def Scope.change (scope : Scope) (setting : Setting) : Setting :=
  (scope.steps.takeWhile (· ≠ .call)).foldl Step.write setting

/-- A scope among parameters is still among them. -/
theorem Scope.inParameters_change (scope : Scope) {setting : Setting}
    (inside : setting.inParameters = true) : (scope.change setting).inParameters = true := by
  cases scope with
  | parameters => rfl
  | block | parentheses | literal | index | arguments | condition => exact inside

/-- A rule of a grammar. -/
inductive Form : Type 1 where
  /-- Takes nothing. -/
  | empty
  /-- One form after another. -/
  | seq (first second : Form)
  /-- The next token, whatever it is. The end is taken and yet still there. -/
  | take (field : Option Field)
  /-- The next token, if it is of the kind. -/
  | expect (kind : TokenKind) (field : Option Field)
  /-- No token fits here. -/
  | refuse (cause : Sight → Cause)
  /-- The next token as an error node. -/
  | faulty
  /-- What the body takes, under a node. -/
  | node (kind : NodeKind) (body : Form)
  /-- What the body takes, its nodes in a part of the node above them. -/
  | label (field : Field) (body : Form)
  /-- A rule one level deeper. -/
  | enter (goal : Goal)
  /-- A choice by what lies ahead. -/
  | choose {κ : Type} (look : Setting → Glance κ) (next : κ → Form)
  /-- The body in a scope. -/
  | within (scope : Scope) (body : Form)
  /-- The body, in which `again` stands for this form once more. -/
  | fix (body : Form)
  /-- The nearest `fix` around this form. -/
  | again
  /-- What `first` takes, put under a node with what follows it, once or as long as something
  does. -/
  | grow {κ : Type} (many : Bool) (first : Form) (look : Setting → Glance (Option κ))
      (kind : κ → NodeKind) (field : κ → Option Field) (rest : κ → Form)
  /-- What `first` takes, put at the head of a node by what follows it, or else given back and
  read as `otherwise`. -/
  | lead {κ : Type} (first : Form) (look : Setting → Glance (Option κ)) (kind : κ → NodeKind)
      (rest : κ → Form) (otherwise : Form)
  /-- What the body takes, or an error node over a region where it fails. -/
  | guard (body : Form)

namespace Form

instance : Append Form := ⟨.seq⟩

def any : Form := .take none

def token (kind : TokenKind) : Form := .expect kind none

/-- A choice by the next token. -/
def onSight (next : Sight → Form) : Form := .choose (fun _ => Glance.tokenAt 0) next

/-- A choice by how a conflict is settled. -/
def settled (conflict : Conflict) (next : Winner → Form) : Form :=
  .choose (fun setting => conflict.decide setting.inParameters) next

def ifelse (look : Glance Bool) (yes no : Form) : Form :=
  .choose (fun _ => look) fun holds => if holds then yes else no

/-- The body, when the next token allows it. -/
def opt (allowed : Sight → Bool) (body : Form) : Form :=
  onSight fun s => if allowed s then body else .empty

/-- The next token, when it is of the kind. -/
def optToken (kind : TokenKind) : Form := opt (fun s => s.kind = kind) any

/-- The body as long as the tokens ahead allow it. -/
def many (more : Glance Bool) (body : Form) : Form := .fix (ifelse more (body ++ .again) .empty)

/-- One or more items between commas. -/
def separated (item : Form) : Form := item ++ many (Glance.isNext .comma) (any ++ item)

/-- The item, unless the closing token stands there. -/
def unclosed (close : TokenKind) (item : Form) : Form := opt (fun s => s.kind ≠ close) item

/-- Items between commas up to a closing token, which a comma may come before. -/
def items (close : TokenKind) (item : Form) : Form :=
  unclosed close (item ++ many (Glance.isNext .comma) (any ++ unclosed close item))

/-- One or more items between commas up to a closing token, which a comma may come before. -/
def someItems (close : TokenKind) (item : Form) : Form :=
  item ++ many (Glance.isNext .comma) (any ++ unclosed close item)

end Form

end JaiTree
