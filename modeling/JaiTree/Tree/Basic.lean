import JaiTree.Token.Trivia
import JaiTree.Tree.Kind

/-!
Trees: nodes over all tokens of a text, blanks and comments included. The leaves of a node are the
view that its text and its span are read off.
-/

namespace JaiTree

mutual

/-- A node: its kind, its children in order of the text, and what is wrong with an error node. -/
inductive Node where
  | mk (kind : NodeKind) (children : List Child) (error : Option Diagnostic)

/-- A token or a node, with its part in its parent. -/
inductive Child where
  | leaf (field : Option Field) (token : Token)
  | node (field : Option Field) (node : Node)

end

namespace Child

/-- The part of the child in its parent. -/
def field? : Child → Option Field
  | .leaf field _ => field
  | .node field _ => field

def node? : Child → Option Node
  | .leaf _ _ => none
  | .node _ n => some n

/-- The child, if it is a node, in another part. -/
def relabel (field : Field) : Child → Child
  | .leaf old token => .leaf old token
  | .node _ n => .node (some field) n

/-- A token as leaves: the trivia before it, and then the token in its part. -/
def ofPadded (field : Option Field) (padded : Padded) : List Child :=
  padded.leading.map (.leaf none) ++ [.leaf field padded.token]

end Child

mutual

/-- The byte offset of the first leaf, zero for a node without any. -/
def Node.start : Node → Nat
  | .mk _ [] _ => 0
  | .mk _ (c :: _) _ => c.start

def Child.start : Child → Nat
  | .leaf _ token => token.start
  | .node _ node => node.start

end

mutual

/-- The byte offset just past the last leaf, zero for a node without any. -/
def Node.stop : Node → Nat
  | .mk _ children _ => stopOfLast children

def Child.stop : Child → Nat
  | .leaf _ token => token.stop
  | .node _ node => node.stop

/-- The byte offset just past the last of the children. -/
def stopOfLast : List Child → Nat
  | [] => 0
  | [c] => c.stop
  | _ :: cs => stopOfLast cs

end

mutual

/-- Every token below the node, in order of the text. -/
def Node.leaves : Node → List Token
  | .mk _ children _ => leavesOf children

def Child.leaves : Child → List Token
  | .leaf _ token => [token]
  | .node _ node => node.leaves

/-- Every token of the children, in order of the text. -/
def leavesOf : List Child → List Token
  | [] => []
  | c :: cs => c.leaves ++ leavesOf cs

end

mutual

/-- The node and all nodes below it, each before those below it. -/
def Node.descendants : Node → List Node
  | .mk kind children error => .mk kind children error :: descendantsOf children

def Child.descendants : Child → List Node
  | .leaf _ _ => []
  | .node _ node => node.descendants

/-- The nodes of the children, each before those below it. -/
def descendantsOf : List Child → List Node
  | [] => []
  | c :: cs => c.descendants ++ descendantsOf cs

end

@[simp] theorem leavesOf_append (a b : List Child) :
    leavesOf (a ++ b) = leavesOf a ++ leavesOf b := by
  induction a with
  | nil => simp [leavesOf]
  | cons c cs ih => simp [leavesOf, ih]

@[simp] theorem leavesOf_ofPadded (field : Option Field) (padded : Padded) :
    leavesOf (Child.ofPadded field padded) = padded.tokens := by
  have h (ts : List Token) : leavesOf (ts.map (.leaf none)) = ts := by
    induction ts with
    | nil => simp [leavesOf]
    | cons t ts ih => simp [leavesOf, Child.leaves, ih]
  simp [Child.ofPadded, Padded.tokens, h, leavesOf, Child.leaves]

@[simp] theorem descendantsOf_append (a b : List Child) :
    descendantsOf (a ++ b) = descendantsOf a ++ descendantsOf b := by
  induction a with
  | nil => simp [descendantsOf]
  | cons c cs ih => simp [descendantsOf, ih]

namespace Node

def kind : Node → NodeKind
  | .mk kind _ _ => kind

def children : Node → List Child
  | .mk _ children _ => children

def error? : Node → Option Diagnostic
  | .mk _ _ error => error

/-- Whether the node stands for a part that could not be read. -/
def isError (node : Node) : Bool := node.kind = .error

/-- A node that could be read. -/
def sound (kind : NodeKind) (children : List Child) : Node := .mk kind children none

/-- One token as an error node, with the diagnostic that it carries. -/
def faulty (padded : Padded) : Node :=
  .mk .error (Child.ofPadded none padded)
    (if padded.token.kind = .error then padded.token.diagnostic? else none)

/-- The text of the node, trivia included. -/
def text (node : Node) : String := String.join (node.leaves.map fun t => t.text)

/-- The first leaf that is no trivia. -/
def firstToken? (node : Node) : Option Token := node.leaves.find? fun t => !t.isTrivia

/-- The children that are nodes. -/
def nodes (node : Node) : List Node := node.children.filterMap Child.node?

/-- The children in a part. -/
def inField (field : Field) (node : Node) : List Child :=
  node.children.filter fun c => c.field? = some field

def child? (field : Field) (node : Node) : Option Child := (node.inField field).head?

/-- The first child in a part that is a node. -/
def node? (field : Field) (node : Node) : Option Node := (node.inField field).findSome? Child.node?

/-- The error nodes of the tree below and with the node. -/
def errorNodes (node : Node) : List Node := node.descendants.filter isError

/-- What is wrong, error node by error node. -/
def errors (node : Node) : List Diagnostic := node.errorNodes.filterMap error?

end Node

/-- A text and the node over all of it. -/
structure Tree where
  source : String
  /-- The node over all of the text. -/
  root : Node

namespace Tree

/-- The diagnostics of the tree, in order of its error nodes. -/
def errors (tree : Tree) : List Diagnostic := tree.root.errors

/-- Whether some part of the text could not be read. -/
def hasErrors (tree : Tree) : Bool := !tree.root.errorNodes.isEmpty

/-- Whether the leaves make up the text. -/
def isLossless (tree : Tree) : Bool := tree.root.text = tree.source

end Tree

end JaiTree
