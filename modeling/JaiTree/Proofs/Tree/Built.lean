import JaiTree.Grammar.Reading
import JaiTree.Proofs.Grammar.Braces
import JaiTree.Proofs.Grammar.Guarded

/-!
Children over tokens: how a reading may put them together, and what every tree put together so has
in common.
-/

namespace JaiTree

@[simp] theorem leavesOf_relabel (field : Field) (children : List Child) :
    leavesOf (children.map (Child.relabel field)) = leavesOf children := by
  induction children with
  | nil => rfl
  | cons c cs ih =>
    rw [List.map_cons, leavesOf, leavesOf, ih]
    cases c <;> rfl

@[simp] theorem descendantsOf_relabel (field : Field) (children : List Child) :
    descendantsOf (children.map (Child.relabel field)) = descendantsOf children := by
  induction children with
  | nil => rfl
  | cons c cs ih =>
    rw [List.map_cons, descendantsOf, descendantsOf, ih]
    cases c <;> rfl

@[simp] theorem leavesOf_under (kind : NodeKind) (children : List Child) :
    leavesOf (Child.under kind children) = leavesOf children := by
  simp [Child.under, leavesOf, Child.leaves, Node.sound, Node.leaves]

@[simp] theorem descendantsOf_under (kind : NodeKind) (children : List Child) :
    descendantsOf (Child.under kind children)
      = .sound kind children :: descendantsOf children := by
  simp [Child.under, descendantsOf, Child.descendants, Node.sound, Node.descendants]

theorem descendantsOf_ofPadded (field : Option Field) (padded : Padded) :
    descendantsOf (Child.ofPadded field padded) = [] := by
  have none (ts : List Token) : descendantsOf (ts.map (.leaf none)) = [] := by
    induction ts with
    | nil => rfl
    | cons t ts ih => rw [List.map_cons, descendantsOf, ih]; rfl
  rw [Child.ofPadded, descendantsOf_append, none]
  rfl

/-- Right above a token of its own a node has no other node. -/
theorem descendants_sound_ofPadded (kind : NodeKind) (children : List Child) (padded : Padded) :
    (Node.sound kind (children ++ Child.ofPadded none padded)).descendants
      = .sound kind (children ++ Child.ofPadded none padded) :: descendantsOf children := by
  rw [Node.sound, Node.descendants, descendantsOf_append, descendantsOf_ofPadded, List.append_nil]

theorem leavesOf_flatMap_ofPadded (region : List Padded) :
    leavesOf (region.flatMap (Child.ofPadded none)) = region.flatMap Padded.tokens := by
  induction region with
  | nil => rfl
  | cons t ts ih =>
    rw [List.flatMap_cons, leavesOf_append, leavesOf_ofPadded, ih, List.flatMap_cons]

theorem Recovery.node_leaves (failure : Diagnostic) (region : List Padded) :
    (Recovery.node failure region).leaves = region.flatMap Padded.tokens := by
  rw [Recovery.node, Node.leaves, leavesOf_flatMap_ofPadded]

theorem descendantsOf_flatMap_ofPadded (region : List Padded) :
    descendantsOf (region.flatMap (Child.ofPadded none)) = [] := by
  induction region with
  | nil => rfl
  | cons t ts ih =>
    rw [List.flatMap_cons, descendantsOf_append, descendantsOf_ofPadded, ih, List.append_nil]

theorem descendantsOf_faulty (padded : Padded) :
    descendantsOf [.node none (.faulty padded)] = [.faulty padded] := by
  simp [descendantsOf, Child.descendants, Node.faulty, Node.descendants, descendantsOf_ofPadded]

theorem descendantsOf_region (failure : Diagnostic) (region : List Padded) :
    descendantsOf [.node none (Recovery.node failure region)]
      = [Recovery.node failure region] := by
  simp [descendantsOf, Child.descendants, Recovery.node, Node.descendants,
    descendantsOf_flatMap_ofPadded]

theorem ofPadded_ne_nil (field : Option Field) (padded : Padded) :
    Child.ofPadded field padded ≠ [] := by
  rw [Child.ofPadded]
  exact List.append_ne_nil_of_right_ne_nil _ (List.cons_ne_nil _ _)

/-- Giving up on `rest` where `after` is left of it, at the next token. -/
structure Refusal (eof : Padded) (before : Nat) (rest after : List Padded) (error : Diagnostic) :
    Prop where
  passed : ∃ passed, rest = passed ++ after ∧ Kept before passed
  position : error.position = (ahead eof after 0).token.start
  syntactic : error.cause.isSyntactic = true

/-- What comes before a reading that gives up is passed as well. -/
theorem Refusal.behind {eof : Padded} {before opened : Nat} {taken rest after : List Padded}
    {error : Diagnostic} (h : Refusal eof opened rest after error)
    (balanced : Balanced before opened taken rest) :
    Refusal eof before (taken ++ rest) after error where
  passed := by
    obtain ⟨passed, split, kept⟩ := h.passed
    rw [split] at balanced ⊢
    exact ⟨taken ++ passed, (List.append_assoc ..).symm, balanced.kept_append kept⟩
  position := h.position
  syntactic := h.syntactic

theorem Recovery.region_ne_nil (depth : Nat) {rest : List Padded} (some_token : rest ≠ []) :
    (region depth true rest).1 ≠ [] := by
  obtain ⟨t, ts, rfl⟩ := List.exists_cons_of_ne_nil some_token
  rw [region]
  repeat' split
  all_goals simp_all

/-- Whether nodes of the kind stand inside strings and assembly blocks. -/
def NodeKind.isFragment : NodeKind → Bool
  | .identifier | .escapeSequence | .stringPlaceholder => true
  | _ => false

/-- The kind of the node that is put around tokens of such kinds where they are cut off together. -/
def NodeKind.ofGroup : List TokenKind → NodeKind
  | .directive .asm :: _ => .asmBlock
  | _ => .stringLiteral

/-- One node over tokens that are cut off together, in which only fragments stand. -/
structure Bundle (taken : List Padded) (children : List Child) : Prop where
  grouped : Grouped (taken.map fun t => t.token.kind)
  single : ∃ inner, children = Child.under (.ofGroup (taken.map fun t => t.token.kind)) inner
    ∧ ∀ n ∈ descendantsOf inner, n.kind.isFragment = true

/-- Children over the tokens that were taken for them, and the tokens that follow. Of the pairs that
the rule has opened, `before` are open before them and `opened` after them. Tokens that are cut off
together are taken together, unless the children are themselves in such a group. -/
inductive Built (eof : Padded) : (taken after : List Padded) → List Child →
    (before : List Delimiter := []) → (opened : List Delimiter := []) → (inGroup : Bool := false) →
    Prop where
  | empty {after : List Padded} {a : List Delimiter} {g : Bool} : Built eof [] after [] a a g
  | append {s t after : List Padded} {children more : List Child} {a b c : List Delimiter}
      {g : Bool} :
      Built eof s (t ++ after) children a b g → Built eof t after more b c g →
      Built eof (s ++ t) after (children ++ more) a c g
  | token {after : List Padded} {field : Option Field} {padded : Padded} {a b : List Delimiter}
      {g : Bool} :
      Takes g a padded.token.kind b →
      Built eof [padded] after (Child.ofPadded field padded) a b g
  | faulty {after : List Padded} {padded : Padded} {g : Bool} :
      padded.token.kind = .error → Built eof [padded] after [.node none (.faulty padded)] [] [] g
  | under {kind : NodeKind} {taken after : List Padded} {children : List Child} {g : Bool} :
      kind ≠ .error → taken ≠ [] → Built eof taken after children [] [] g →
      Built eof taken after (Child.under kind children) [] [] g
  | relabel {field : Field} {taken after : List Padded} {children : List Child} {g : Bool} :
      Built eof taken after children [] [] g →
      Built eof taken after (children.map (Child.relabel field)) [] [] g
  | region {failure : Diagnostic} {region after left : List Padded} {g : Bool} :
      region ≠ [] → Recovery.region 0 true (region ++ after) = (region, after) →
      Refusal eof 0 (region ++ after) left failure →
      Built eof region after [.node none (Recovery.node failure region)] [] [] g
  | inside {taken after : List Padded} {children : List Child} {a : List Delimiter} {g : Bool} :
      Built eof taken after children [] [] g → Built eof taken after children a a g
  | anywhere {taken after : List Padded} {children : List Child} {a b : List Delimiter} {g : Bool} :
      Built eof taken after children a b → Built eof taken after children a b g
  | group {taken after : List Padded} {children : List Child} :
      Bundle taken children → Built eof taken after children [] [] true →
      Built eof taken after children

namespace Built

variable {eof : Padded} {taken after : List Padded} {children : List Child}
  {a b : List Delimiter} {g : Bool}

theorem labelled {field : Option Field} (h : Built eof taken after children [] [] g) :
    Built eof taken after (Child.labelled field children) [] [] g := by
  cases field with
  | none => exact h
  | some field => exact .relabel h

/-- The region that stands for what could not be read. -/
theorem recovered {rest left : List Padded} {failure : Diagnostic} (some_token : rest ≠ [])
    (refusal : Refusal eof 0 rest left failure) :
    Built eof (Recovery.region 0 true rest).1 (Recovery.region 0 true rest).2
      [.node none (Recovery.node failure (Recovery.region 0 true rest).1)] [] [] g := by
  have whole := Recovery.region_append 0 true rest
  refine @region eof failure _ _ left _ (Recovery.region_ne_nil 0 some_token) ?_ ?_
  · rw [whole]
  · rw [whole]
    exact refusal

/-- The leaves are the tokens, each once, with the trivia before it. -/
theorem leaves (h : Built eof taken after children a b g) :
    leavesOf children = taken.flatMap Padded.tokens := by
  induction h with
  | empty => rfl
  | append _ _ ih ih' => rw [leavesOf_append, ih, ih', List.flatMap_append]
  | token _ => rw [leavesOf_ofPadded, List.flatMap_singleton]
  | faulty _ =>
    simp [leavesOf, Child.leaves, Node.faulty, Node.leaves]
  | under _ _ _ ih => rw [leavesOf_under, ih]
  | relabel _ ih => rw [leavesOf_relabel, ih]
  | region _ _ _ =>
    simp [leavesOf, Child.leaves, Recovery.node, Node.leaves, leavesOf_flatMap_ofPadded]
  | inside _ ih | anywhere _ ih | group _ _ ih => exact ih

theorem ne_nil (h : Built eof taken after children a b g) (some_token : taken ≠ []) :
    children ≠ [] := by
  rintro rfl
  have none : taken.flatMap Padded.tokens = [] := h.leaves.symm
  obtain ⟨t, ts, rfl⟩ := List.exists_cons_of_ne_nil some_token
  rw [List.flatMap_cons, Padded.tokens] at none
  simp at none

/-- No node is put around nothing. -/
theorem children_ne_nil (h : Built eof taken after children a b g) {n : Node}
    (member : n ∈ descendantsOf children) : n.children ≠ [] := by
  induction h with
  | empty => cases member
  | append _ _ ih ih' =>
    rw [descendantsOf_append, List.mem_append] at member
    exact member.elim ih ih'
  | token _ =>
    rw [descendantsOf_ofPadded] at member
    cases member
  | @faulty _ padded _ _ =>
    rw [descendantsOf_faulty, List.mem_singleton] at member
    rw [member]
    exact ofPadded_ne_nil none padded
  | under _ some_token built ih =>
    rw [descendantsOf_under, List.mem_cons] at member
    rcases member with rfl | member
    · exact built.ne_nil some_token
    · exact ih member
  | relabel _ ih =>
    rw [descendantsOf_relabel] at member
    exact ih member
  | @region failure region _ _ _ some_token _ _ =>
    rw [descendantsOf_region, List.mem_singleton] at member
    rw [member]
    obtain ⟨t, ts, rfl⟩ := List.exists_cons_of_ne_nil some_token
    exact List.append_ne_nil_of_left_ne_nil (ofPadded_ne_nil none t) _
  | inside _ ih | anywhere _ ih | group _ _ ih => exact ih member

end Built

end JaiTree
