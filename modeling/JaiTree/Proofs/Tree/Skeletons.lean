import JaiTree.Proofs.Text.Words
import JaiTree.Tree.Sexp
import Mathlib.Data.List.Nodup

/-!
Skeletons: what a printed tree says of its nodes. A tree is printed by the kinds of its nodes, their
fields and the comments among their children, and all of that can be read off the print again. Main
statement: `Node.sexp_eq_iff`.
-/

namespace JaiTree

/-- The kind of a comment. -/
inductive CommentKind where
  | line | block | markdown
deriving DecidableEq

namespace CommentKind

/-- The comment that a token of the kind is. -/
def ofToken? : TokenKind → Option CommentKind
  | .commentLine => some .line
  | .commentBlock => some .block
  | .commentMarkdownBlock => some .markdown
  | _ => none

/-- The comment as a tree prints it. -/
def text : CommentKind → String
  | .line => "comment_line"
  | .block => "comment_block"
  | .markdown => "comment_markdown_block"

/-- Every kind of comment, once. -/
def all : List CommentKind := [.line, .block, .markdown]

theorem mem_all (kind : CommentKind) : kind ∈ all := by
  cases kind <;> decide

theorem commentName?_eq (kind : TokenKind) : commentName? kind = (ofToken? kind).map text := by
  cases kind <;> rfl

end CommentKind

mutual

/-- A node without its tokens: its kind, and the parts that its children are. -/
inductive Skeleton where
  | mk (kind : NodeKind) (parts : List Skeleton.Part)

/-- A comment, or a node in its field. -/
inductive Skeleton.Part where
  | comment (kind : CommentKind)
  | node (field : Option Field) (skeleton : Skeleton)

end

mutual

/-- The node without all tokens but comments, and without what is wrong with it. -/
def Node.skeleton : Node → Skeleton
  | .mk kind children _ => .mk kind (partsOf children)

/-- The part that the child is, if it is a node or a comment. -/
def Child.part? : Child → Option Skeleton.Part
  | .leaf _ token => (CommentKind.ofToken? token.kind).map .comment
  | .node field node => some (.node field node.skeleton)

/-- The parts that the children are, in order. -/
def partsOf : List Child → List Skeleton.Part
  | [] => []
  | c :: cs => c.part?.toList ++ partsOf cs

end

/-- The print of the field that a node is in. -/
def Skeleton.mark : Option Field → List Char
  | none => []
  | some field => field.text.toList ++ [':', ' ']

mutual

/-- The print of a skeleton. -/
def Skeleton.print : Skeleton → List Char
  | .mk kind parts => '(' :: (kind.text.toList ++ (Skeleton.printOf parts ++ [')']))

/-- The print of a part, with the blank before it. -/
def Skeleton.Part.print : Skeleton.Part → List Char
  | .comment kind => ' ' :: '(' :: (kind.text.toList ++ [')'])
  | .node field skeleton => ' ' :: (Skeleton.mark field ++ skeleton.print)

/-- The prints of the parts one after another. -/
def Skeleton.printOf : List Skeleton.Part → List Char
  | [] => []
  | p :: ps => p.print ++ Skeleton.printOf ps

end

mutual

/-- What a node is printed as is the print of its skeleton. -/
theorem Node.toList_sexp : (node : Node) → node.sexp.toList = node.skeleton.print
  | .mk kind children error => by
    simp [Node.sexp, Node.skeleton, Skeleton.print, toList_sexpOf children]

theorem Child.toList_sexp : (child : Child) →
    child.sexp.toList = Skeleton.printOf child.part?.toList
  | .leaf field token => by
    rw [Child.sexp, CommentKind.commentName?_eq, Child.part?]
    cases CommentKind.ofToken? token.kind with
    | none => rfl
    | some kind => simp [Skeleton.printOf, Skeleton.Part.print]
  | .node none node => by
    simp [Child.sexp, Child.part?, Skeleton.printOf, Skeleton.Part.print, Skeleton.mark,
      node.toList_sexp]
  | .node (some field) node => by
    simp [Child.sexp, Child.part?, Skeleton.printOf, Skeleton.Part.print, Skeleton.mark,
      node.toList_sexp]

theorem toList_sexpOf : (children : List Child) →
    (sexpOf children).toList = Skeleton.printOf (partsOf children)
  | [] => rfl
  | c :: cs => by
    rw [sexpOf, String.toList_append, c.toList_sexp, toList_sexpOf cs, partsOf]
    cases c.part? with
    | none => rfl
    | some part => simp [Skeleton.printOf]

end

/-- A character of a name that a tree is printed with. -/
def isLabel (c : Char) : Bool := c != '(' && c != ')' && c != ':' && c != ' '

theorem NodeKind.isLabel_text (kind : NodeKind) : ∀ c ∈ kind.text.toList, isLabel c = true := by
  have labels : ∀ kind ∈ all, kind.text.toList.all isLabel = true := by decide +kernel
  exact List.all_eq_true.mp (labels kind (mem_all kind))

theorem CommentKind.isLabel_text (kind : CommentKind) :
    ∀ c ∈ kind.text.toList, isLabel c = true := by
  have labels : ∀ kind ∈ all, kind.text.toList.all isLabel = true := by decide +kernel
  exact List.all_eq_true.mp (labels kind (mem_all kind))

theorem Field.isLabel_text (field : Field) : ∀ c ∈ field.text.toList, isLabel c = true := by
  have labels : ∀ field ∈ all, field.text.toList.all isLabel = true := by decide +kernel
  exact List.all_eq_true.mp (labels field (mem_all field))

/-- Node kinds and comments are all printed by names of their own. -/
theorem names_nodup :
    (NodeKind.all.map NodeKind.text ++ CommentKind.all.map CommentKind.text).Nodup := by
  decide +kernel

theorem NodeKind.text_inj {a b : NodeKind} (same : a.text = b.text) : a = b :=
  List.inj_on_of_nodup_map (List.nodup_append.mp names_nodup).1 (mem_all a) (mem_all b) same

theorem CommentKind.text_inj {a b : CommentKind} (same : a.text = b.text) : a = b :=
  List.inj_on_of_nodup_map (List.nodup_append.mp names_nodup).2.1 (mem_all a) (mem_all b) same

theorem NodeKind.text_ne_comment (kind : NodeKind) (comment : CommentKind) :
    kind.text ≠ comment.text :=
  (List.nodup_append.mp names_nodup).2.2 kind.text (List.mem_map_of_mem (mem_all kind))
    comment.text (List.mem_map_of_mem (CommentKind.mem_all comment))

theorem Field.text_inj {a b : Field} (same : a.text = b.text) : a = b := by
  have nodup : (all.map text).Nodup := by decide +kernel
  exact List.inj_on_of_nodup_map nodup (mem_all a) (mem_all b) same

/-- A name ends where the first character comes that is part of none. -/
theorem label_append_inj {a b : String} {x y : List Char}
    (inside : ∀ c ∈ a.toList, isLabel c = true) (stop : ∀ c ∈ x.head?, isLabel c = false)
    (inside' : ∀ c ∈ b.toList, isLabel c = true) (stop' : ∀ c ∈ y.head?, isLabel c = false)
    (same : a.toList ++ x = b.toList ++ y) : a = b ∧ x = y := by
  have name : a.toList = b.toList := by
    rw [← Text.takeWhile_run inside stop, same, Text.takeWhile_run inside' stop']
  rw [name, List.append_cancel_left_eq] at same
  exact ⟨String.toList_inj.mp name, same⟩

namespace Skeleton

theorem Part.exists_print (part : Part) : ∃ rest, part.print = ' ' :: rest := by
  cases part with
  | comment kind => exact ⟨_, rfl⟩
  | node field skeleton => exact ⟨_, rfl⟩

/-- Behind its name the print of a node goes on with a blank or with the closing parenthesis. -/
theorem stop_printOf (parts : List Part) (x : List Char) :
    ∀ c ∈ (printOf parts ++ ')' :: x).head?, isLabel c = false := by
  cases parts with
  | nil =>
    rintro c ⟨⟩
    rfl
  | cons p ps =>
    obtain ⟨rest, begins⟩ := p.exists_print
    rw [printOf, begins]
    rintro c ⟨⟩
    rfl

theorem exists_print (skeleton : Skeleton) : ∃ rest, skeleton.print = '(' :: rest := by
  cases skeleton with
  | mk kind parts => exact ⟨_, rfl⟩

/-- A field is told by what stands before the parenthesis that opens its node. -/
theorem mark_append_inj {a b : Option Field} {x y : List Char}
    (same : mark a ++ '(' :: x = mark b ++ '(' :: y) : a = b ∧ x = y := by
  have colon (rest : List Char) : ∀ c ∈ ([':', ' '] ++ rest).head?, isLabel c = false := by
    rintro c ⟨⟩
    rfl
  have parenthesis (rest : List Char) : ∀ c ∈ ('(' :: rest).head?, isLabel c = false := by
    rintro c ⟨⟩
    rfl
  -- No field has a name of no characters, which would stand right before the parenthesis.
  have unmarked (field : Field) (rest rest' : List Char) :
      mark (some field) ++ '(' :: rest ≠ '(' :: rest' := by
    intro same
    rw [mark, List.append_assoc] at same
    obtain ⟨-, rest⟩ := @label_append_inj field.text "" _ _ field.isLabel_text (colon _)
      (List.forall_mem_nil _) (parenthesis _) same
    cases rest
  cases a with
  | none =>
    cases b with
    | none => exact ⟨rfl, (List.cons.inj same).2⟩
    | some field => exact absurd same.symm (unmarked field y x)
  | some field =>
    cases b with
    | none => exact absurd same (unmarked field x y)
    | some field' =>
      rw [mark, List.append_assoc, mark, List.append_assoc] at same
      obtain ⟨name, rest⟩ := label_append_inj field.isLabel_text (colon _) field'.isLabel_text
        (colon _) same
      exact ⟨congrArg some (Field.text_inj name), (List.cons.inj (List.append_cancel_left rest)).2⟩

theorem stop_close (x : List Char) : ∀ c ∈ (')' :: x).head?, isLabel c = false :=
  stop_printOf [] x

/-- No comment is printed as a node is. -/
theorem print_comment_ne (comment : CommentKind) (field : Option Field) (skeleton : Skeleton)
    (x y : List Char) :
    (Part.comment comment).print ++ x ≠ (Part.node field skeleton).print ++ y := by
  cases skeleton with
  | mk kind parts =>
    intro same
    simp only [Part.print, print, List.cons_append, List.append_assoc, List.nil_append,
      List.cons.injEq, true_and] at same
    obtain ⟨-, rest⟩ := @mark_append_inj none field _ _ same
    obtain ⟨name, -⟩ := label_append_inj comment.isLabel_text (stop_close x) kind.isLabel_text
      (stop_printOf parts y) rest
    exact kind.text_ne_comment comment name.symm

mutual

/-- The print of a skeleton gives the skeleton and where it ends. -/
theorem print_inj : (s t : Skeleton) → {x y : List Char} → s.print ++ x = t.print ++ y →
    s = t ∧ x = y
  | .mk kind parts, .mk kind' parts', x, y, same => by
    simp only [print, List.cons_append, List.append_assoc, List.nil_append, List.cons.injEq,
      true_and] at same
    obtain ⟨name, rest⟩ := label_append_inj kind.isLabel_text (stop_printOf parts x)
      kind'.isLabel_text (stop_printOf parts' y) same
    obtain ⟨rfl, rfl⟩ := printOf_inj parts parts' rest
    exact ⟨congrArg (mk · parts) (NodeKind.text_inj name), rfl⟩

theorem Part.print_inj : (p q : Part) → {x y : List Char} → p.print ++ x = q.print ++ y →
    p = q ∧ x = y
  | .comment kind, .comment kind', x, y, same => by
    simp only [Part.print, List.cons_append, List.append_assoc, List.nil_append,
      List.cons.injEq, true_and] at same
    obtain ⟨name, rest⟩ := label_append_inj kind.isLabel_text (stop_close x) kind'.isLabel_text
      (stop_close y) same
    exact ⟨congrArg Part.comment (CommentKind.text_inj name), (List.cons.inj rest).2⟩
  | .comment kind, .node field s, x, y, same => absurd same (print_comment_ne kind field s x y)
  | .node field s, .comment kind, x, y, same =>
    absurd same.symm (print_comment_ne kind field s y x)
  | .node field s, .node field' t, x, y, same => by
    obtain ⟨rest, begins⟩ := s.exists_print
    obtain ⟨rest', begins'⟩ := t.exists_print
    simp only [Part.print, begins, begins', List.cons_append, List.append_assoc, List.cons.injEq,
      true_and] at same
    obtain ⟨rfl, rest_same⟩ := mark_append_inj same
    have print_same : s.print ++ x = t.print ++ y := by
      rw [begins, begins', List.cons_append, List.cons_append, rest_same]
    obtain ⟨rfl, rfl⟩ := print_inj s t print_same
    exact ⟨rfl, rfl⟩

theorem printOf_inj : (ps qs : List Part) → {x y : List Char} →
    printOf ps ++ ')' :: x = printOf qs ++ ')' :: y → ps = qs ∧ x = y
  | [], [], x, y, same => ⟨rfl, (List.cons.inj same).2⟩
  | [], q :: qs, x, y, same => by
    obtain ⟨rest, begins⟩ := q.exists_print
    rw [printOf, printOf, begins] at same
    cases same
  | p :: ps, [], x, y, same => by
    obtain ⟨rest, begins⟩ := p.exists_print
    rw [printOf, printOf, begins] at same
    cases same
  | p :: ps, q :: qs, x, y, same => by
    rw [printOf, printOf, List.append_assoc, List.append_assoc] at same
    obtain ⟨rfl, rest⟩ := Part.print_inj p q same
    obtain ⟨rfl, rfl⟩ := printOf_inj ps qs rest
    exact ⟨rfl, rfl⟩

end

end Skeleton

/-- Two trees are printed alike just when they have the same skeleton. -/
theorem Node.sexp_eq_iff (a b : Node) : a.sexp = b.sexp ↔ a.skeleton = b.skeleton := by
  rw [← String.toList_inj, a.toList_sexp, b.toList_sexp]
  constructor
  · intro same
    rw [← List.append_nil a.skeleton.print, ← List.append_nil b.skeleton.print] at same
    exact (Skeleton.print_inj _ _ same).1
  · intro same
    rw [same]

end JaiTree
