import JaiTree.Proofs.Tree.Lossless

/-!
Nesting: where nothing is wrong, each pair is closed by the rule that opened it, and what is between
the two is nested in the same way. Main statement: `parse_wellNested`.
-/

namespace JaiTree

/-- The bracket language over all three sorts of pairs. Other tokens stand anywhere. -/
inductive WellNested : List Token → Prop where
  | nil : WellNested []
  | other {t : Token} {ts : List Token} :
      t.kind.opens? = none → t.kind.closes? = none → WellNested ts → WellNested (t :: ts)
  | pair {pair : Delimiter} {opening closing : Token} {inner rest : List Token} :
      opening.kind = pair.opening → closing.kind = pair.closing →
      WellNested inner → WellNested rest → WellNested (opening :: (inner ++ closing :: rest))

/-- The pairs that are open before some tokens and after them, the last one first. -/
inductive Nests : List Delimiter → List Token → List Delimiter → Prop where
  | nil {stack : List Delimiter} : Nests stack [] stack
  | cons {a b c : List Delimiter} {t : Token} {ts : List Token} :
      Shifts a t.kind b → Nests b ts c → Nests a (t :: ts) c

theorem TokenKind.not_delimiter_of_isTrivia {kind : TokenKind} (trivial : kind.isTrivia = true) :
    kind.opens? = none ∧ kind.closes? = none := by
  unfold isTrivia at trivial
  split at trivial
  case h_5 => cases trivial
  all_goals exact ⟨rfl, rfl⟩

theorem Shifts.under {a b : List Delimiter} {kind : TokenKind} (h : Shifts a kind b)
    (stack : List Delimiter) : Shifts (a ++ stack) kind (b ++ stack) := by
  cases h with
  | opens pair => exact .opens pair
  | closes pair => exact .closes pair
  | other opens closes => exact .other opens closes

namespace Nests

variable {a b c : List Delimiter} {ts more : List Token}

/-- What is open below what the tokens close stays open. -/
theorem under (h : Nests a ts b) (stack : List Delimiter) :
    Nests (a ++ stack) ts (b ++ stack) := by
  induction h with
  | nil => exact .nil
  | cons shifts _ ih => exact .cons (shifts.under stack) ih

theorem append (h : Nests a ts b) (h' : Nests b more c) : Nests a (ts ++ more) c := by
  induction h with
  | nil => exact h'
  | cons shifts _ ih => exact .cons shifts (ih h')

theorem trivia (trivial : ∀ t ∈ ts, t.isTrivia = true) : Nests a ts a := by
  induction ts with
  | nil => exact .nil
  | cons t ts ih =>
    obtain ⟨opens, closes⟩ := TokenKind.not_delimiter_of_isTrivia (trivial t List.mem_cons_self)
    exact .cons (.other opens closes) (ih fun u among => trivial u (List.mem_cons_of_mem t among))

theorem padded {p : Padded} (trivial : ∀ t ∈ p.leading, t.isTrivia = true)
    (shifts : Shifts a p.token.kind b) : Nests a p.tokens b :=
  (trivia trivial).append (.cons shifts .nil)

end Nests

theorem WellNested.append {ts more : List Token} (h : WellNested ts) (h' : WellNested more) :
    WellNested (ts ++ more) := by
  induction h with
  | nil => exact h'
  | other opens closes _ ih => exact .other opens closes ih
  | pair opening closing inner _ _ ih =>
    rw [List.cons_append, List.append_assoc, List.cons_append]
    exact .pair opening closing inner ih

/-- The tokens close the pairs that are open before them, and are well nested in between. -/
inductive Closing : List Delimiter → List Token → Prop where
  | none {ts : List Token} : WellNested ts → Closing [] ts
  | one {pair : Delimiter} {stack : List Delimiter} {closing : Token} {inner rest : List Token} :
      WellNested inner → closing.kind = pair.closing → Closing stack rest →
      Closing (pair :: stack) (inner ++ closing :: rest)

namespace Closing

variable {stack : List Delimiter} {ts more : List Token}

theorem behind (h : WellNested ts) (h' : Closing stack more) : Closing stack (ts ++ more) := by
  cases h' with
  | none nested => exact .none (h.append nested)
  | one inner closing rest =>
    rw [← List.append_assoc]
    exact .one (h.append inner) closing rest

/-- Tokens after which nothing is open have closed what was. -/
theorem of_nests (h : Nests stack ts []) : Closing stack ts := by
  generalize none : ([] : List Delimiter) = left at h
  induction h with
  | nil =>
    subst none
    exact .none .nil
  | @cons a b c t ts shifts _ ih =>
    have rest := ih none
    generalize kind : t.kind = k at shifts
    cases shifts with
    | opens pair =>
      cases rest with
      | @one _ _ closing inner rest nested closes later =>
        have behind := Closing.behind (.pair kind closes nested .nil) later
        rwa [List.cons_append, List.append_assoc] at behind
    | closes pair => exact .one .nil kind rest
    | other opens closes => exact .behind (.other (kind ▸ opens) (kind ▸ closes) .nil) rest

end Closing

theorem Nests.wellNested {ts : List Token} (h : Nests [] ts []) : WellNested ts := by
  cases Closing.of_nests h with
  | none nested => exact nested

namespace Built

variable {eof : Padded} {taken after : List Padded} {children : List Child}
  {a b : List Delimiter} {g : Bool}

/-- Where no child holds an error node, the leaves open and close what the rule does. -/
theorem nests (h : Built eof taken after children a b g)
    (folded : ∀ p ∈ taken, ∀ t ∈ p.leading, t.isTrivia = true)
    (clean : ∀ n ∈ descendantsOf children, n.isError = false) :
    Nests a (leavesOf children) b := by
  induction h with
  | empty => exact .nil
  | append _ _ ih ih' =>
    rw [descendantsOf_append] at clean
    rw [leavesOf_append]
    exact (ih (fun p among => folded p (List.mem_append_left _ among))
      fun n among => clean n (List.mem_append_left _ among)).append
        (ih' (fun p among => folded p (List.mem_append_right _ among))
          fun n among => clean n (List.mem_append_right _ among))
  | token takes =>
    rw [leavesOf_ofPadded]
    exact .padded (folded _ List.mem_cons_self) takes.shifts
  | faulty _ =>
    rw [descendantsOf_faulty] at clean
    cases clean _ List.mem_cons_self
  | under _ _ _ ih =>
    rw [descendantsOf_under] at clean
    rw [leavesOf_under]
    exact ih folded fun n among => clean n (List.mem_cons_of_mem _ among)
  | relabel _ ih =>
    rw [descendantsOf_relabel] at clean
    rw [leavesOf_relabel]
    exact ih folded clean
  | region _ _ _ =>
    rw [descendantsOf_region] at clean
    cases clean _ List.mem_cons_self
  | @inside _ _ _ a _ _ ih => exact (ih folded clean).under a
  | anywhere _ ih | group _ _ ih => exact ih folded clean

/-- The leaves of a node that holds no error node are well nested. -/
theorem wellNested (h : Built eof taken after children a b g)
    (folded : ∀ p ∈ taken, ∀ t ∈ p.leading, t.isTrivia = true) {n : Node}
    (member : n ∈ descendantsOf children) (clean : ∀ m ∈ n.descendants, m.isError = false) :
    WellNested n.leaves := by
  induction h with
  | empty => cases member
  | append _ _ ih ih' =>
    rw [descendantsOf_append, List.mem_append] at member
    rcases member with member | member
    · exact ih (fun p among => folded p (List.mem_append_left _ among)) member
    · exact ih' (fun p among => folded p (List.mem_append_right _ among)) member
  | token _ =>
    rw [descendantsOf_ofPadded] at member
    cases member
  | faulty _ =>
    rw [descendantsOf_faulty, List.mem_singleton] at member
    subst member
    cases clean _ List.mem_cons_self
  | @under kind _ _ children _ _ _ built ih =>
    rw [descendantsOf_under, List.mem_cons] at member
    rcases member with rfl | member
    · rw [Node.sound, Node.descendants] at clean
      rw [Node.sound, Node.leaves]
      exact (built.nests folded fun m among => clean m (List.mem_cons_of_mem _ among)).wellNested
    · exact ih folded member
  | relabel _ ih =>
    rw [descendantsOf_relabel] at member
    exact ih folded member
  | region _ _ _ =>
    rw [descendantsOf_region, List.mem_singleton] at member
    subst member
    cases clean _ List.mem_cons_self
  | inside _ ih | anywhere _ ih | group _ _ ih => exact ih folded member

end Built

/-- In the tree of any text, the leaves of a node that holds no error node are well nested: each
rule closes what it opens and nothing else. So a text whose tokens are not has an error. -/
theorem parse_wellNested (text : String) :
    (∀ n ∈ (parse text).root.descendants, n.errorNodes = [] → WellNested n.leaves)
    ∧ (¬ WellNested (tokenize text) → (parse text).hasErrors = true) := by
  obtain ⟨body, root, built, -⟩ := parse_built text
  have folded (p : Padded) (among : p ∈ (Cursor.ofText text).tokens) :
      ∀ t ∈ p.leading, t.isTrivia = true :=
    Cursor.folded_of_mem_ofText (List.mem_append_left _ among)
  have last : Nests [] (Cursor.ofText text).eof.tokens [] := by
    refine .padded (Cursor.folded_of_mem_ofText (List.mem_append_right _ List.mem_cons_self)) ?_
    rw [Cursor.isEnd_ofText]
    exact .other rfl rfl
  have nodes : ∀ n ∈ (parse text).root.descendants, n.errorNodes = [] → WellNested n.leaves := by
    intro n member none
    have clean : ∀ m ∈ n.descendants, m.isError = false := fun m below =>
      Bool.eq_false_iff.mpr (List.filter_eq_nil_iff.mp none m below)
    rw [root, descendants_sound_ofPadded, List.mem_cons] at member
    rcases member with rfl | member
    · rw [descendants_sound_ofPadded] at clean
      rw [Node.sound, Node.leaves, leavesOf_append, leavesOf_ofPadded]
      have whole := built.nests folded fun m among => clean m (List.mem_cons_of_mem _ among)
      exact (whole.append last).wellNested
    · exact built.wellNested folded member clean
  refine ⟨nodes, fun nested => ?_⟩
  rw [Tree.hasErrors, Bool.not_eq_true', List.isEmpty_eq_false_iff]
  intro none
  have itself : (parse text).root ∈ (parse text).root.descendants := by
    rw [root, descendants_sound_ofPadded]
    exact List.mem_cons_self
  exact nested (leaves_parse text ▸ nodes _ itself none)

end JaiTree
