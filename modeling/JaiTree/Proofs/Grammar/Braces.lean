import JaiTree.Grammar.Recovery
import JaiTree.Proofs.Grammar.Delimiters

/-!
Braces: how many are open after some tokens. A rule closes what it opens and nothing else, and so
does the region that stands for one that failed.
-/

namespace JaiTree

/-- How many braces are open after the tokens when `depth` are before them, unless they close one
more than that. -/
def depthAfter (depth : Nat) : List Padded → Option Nat
  | [] => some depth
  | t :: ts =>
    match t.token.kind with
    | .openCurly => depthAfter (depth + 1) ts
    | .closeCurly => if depth = 0 then none else depthAfter (depth - 1) ts
    | _ => depthAfter depth ts

theorem depthAfter_append (depth : Nat) (a b : List Padded) :
    depthAfter depth (a ++ b) = (depthAfter depth a).bind fun inner => depthAfter inner b := by
  induction a generalizing depth with
  | nil => rfl
  | cons t ts ih =>
    simp only [List.cons_append, depthAfter, ih]
    split
    · rfl
    · split
      all_goals rfl
    · rfl

/-- Braces around the tokens stay open behind them. -/
theorem depthAfter_add {inner last : Nat} {tokens : List Padded} (around : Nat)
    (ended : depthAfter inner tokens = some last) :
    depthAfter (around + inner) tokens = some (around + last) := by
  induction tokens generalizing inner with
  | nil =>
    cases ended
    rfl
  | cons t ts ih =>
    rw [depthAfter] at ended ⊢
    split
    · next kind =>
      simp only [kind] at ended
      exact ih ended
    · next kind =>
      simp only [kind] at ended
      split at ended
      · cases ended
      · next some_open =>
        have same : around + inner - 1 = around + (inner - 1) := by omega
        rw [if_neg (by omega), same]
        exact ih ended
    · next ne_open ne_close =>
      split at ended
      · contradiction
      · contradiction
      · exact ih ended

theorem depthAfter_singleton {t : Padded} (ne_open : t.token.kind ≠ .openCurly)
    (ne_close : t.token.kind ≠ .closeCurly) (depth : Nat) :
    depthAfter depth [t] = some depth := by
  rw [depthAfter]
  split
  · next kind => exact absurd kind ne_open
  · next kind => exact absurd kind ne_close
  · rfl

/-- The tokens close no brace but the `before` around them and those that they open. -/
def Kept (before : Nat) (taken : List Padded) : Prop :=
  ∀ depth, (depthAfter (depth + before) taken).isSome = true

/-- The tokens close no brace but the `before` around them and those that they open, and unless
nothing follows them, `opened` of these are open after them. -/
structure Balanced (before opened : Nat) (taken after : List Padded) : Prop where
  kept : Kept before taken
  closed : after ≠ [] → ∀ depth, depthAfter (depth + before) taken = some (depth + opened)

namespace Balanced

variable {before opened last : Nat} {taken more after : List Padded} {t : Padded}

theorem of_eq (h : ∀ depth, depthAfter (depth + before) taken = some (depth + opened)) :
    Balanced before opened taken after where
  kept depth := by rw [h depth]; rfl
  closed _ := h

theorem nil : Balanced before before [] after := of_eq fun _ => rfl

theorem token (ne_open : t.token.kind ≠ .openCurly) (ne_close : t.token.kind ≠ .closeCurly) :
    Balanced before before [t] after :=
  of_eq fun depth => depthAfter_singleton ne_open ne_close (depth + before)

theorem openCurly (kind : t.token.kind = .openCurly) : Balanced before (before + 1) [t] after := by
  apply of_eq
  intro depth
  simp [depthAfter, kind, Nat.add_assoc]

theorem closeCurly (kind : t.token.kind = .closeCurly) :
    Balanced (before + 1) before [t] after := by
  apply of_eq
  intro depth
  simp [depthAfter, kind, ← Nat.add_assoc]

/-- A token opens or closes as many braces as it does of pairs that are braces. -/
theorem shifts {a b : List Delimiter} (h : Shifts a t.token.kind b) :
    Balanced (curlies a) (curlies b) [t] after := by
  generalize kind : t.token.kind = k at h
  cases h with
  | opens pair =>
    cases pair with
    | curly =>
      rw [curlies_curly]
      exact openCurly kind
    | paren | bracket =>
      simp only [curlies_paren, curlies_bracket]
      exact token (by rw [kind]; decide) (by rw [kind]; decide)
  | closes pair =>
    cases pair with
    | curly =>
      rw [curlies_curly]
      exact closeCurly kind
    | paren | bracket =>
      simp only [curlies_paren, curlies_bracket]
      exact token (by rw [kind]; decide) (by rw [kind]; decide)
  | other opens closes =>
    refine token ?_ ?_
    · intro opening
      rw [← kind, opening] at opens
      cases opens
    · intro closing
      rw [← kind, closing] at closes
      cases closes

/-- What is balanced goes on to be so inside more braces. -/
theorem inside (h : Balanced 0 0 taken after) : Balanced before before taken after where
  kept depth := h.kept (depth + before)
  closed some_token depth := h.closed some_token (depth + before)

theorem kept_append (h : Balanced before opened taken (more ++ after)) (h' : Kept opened more) :
    Kept before (taken ++ more) := by
  intro depth
  rw [depthAfter_append]
  by_cases none : more = []
  · obtain ⟨inner, found⟩ := Option.isSome_iff_exists.mp (h.kept depth)
    rw [found, none]
    rfl
  · have closed := h.closed (List.append_ne_nil_of_left_ne_nil none after) depth
    rw [closed, Option.bind_some]
    exact h' depth

theorem append (h : Balanced before opened taken (more ++ after))
    (h' : Balanced opened last more after) : Balanced before last (taken ++ more) after where
  kept := h.kept_append h'.kept
  closed := by
    intro some_token depth
    have closed := h.closed (List.append_ne_nil_of_right_ne_nil more some_token) depth
    rw [depthAfter_append, closed, Option.bind_some]
    exact h'.closed some_token depth

/-- What keeps to its braces ends where a closing brace of its surroundings stands, if not
before. -/
theorem length_le {passed ts : List Padded} (h : Balanced 0 0 taken (t :: ts))
    (close : t.token.kind = .closeCurly) (kept : Kept 0 passed)
    (split : taken ++ t :: ts = passed ++ after) : passed.length ≤ taken.length := by
  rcases List.append_eq_append_iff.mp split with ⟨more, parts, later⟩ | ⟨more, parts, -⟩
  · cases more with
    | nil =>
      apply Nat.le_of_eq
      rw [parts, List.append_nil]
    | cons u us =>
      obtain ⟨rfl, -⟩ := List.cons.inj later
      have depth := kept 0
      rw [parts, depthAfter_append, h.closed (List.cons_ne_nil t ts) 0] at depth
      simp [depthAfter, close] at depth
  · rw [parts, List.length_append]
    exact Nat.le_add_right _ _

end Balanced

namespace Recovery

/-- A region that does not begin with a closing brace closes the braces that it opens and those
around it. -/
theorem region_balanced (depth : Nat) (isEmpty : Bool) (tokens : List Padded)
    (first : isEmpty = true → depth = 0 → ∀ t ∈ tokens.head?, t.token.kind ≠ .closeCurly) :
    Balanced depth 0 (region depth isEmpty tokens).1 (region depth isEmpty tokens).2 := by
  induction tokens generalizing depth isEmpty with
  | nil =>
    constructor
    · intro inner
      rfl
    · intro some_token
      exact absurd rfl some_token
  | cons t ts ih =>
    have later (inner : Nat) : Balanced inner 0 (region inner false ts).1
        (region inner false ts).2 := ih inner false fun no => nomatch no
    rw [region]
    split
    · next kind => exact (Balanced.openCurly kind).append (later (depth + 1))
    · next kind =>
      split
      · next ends =>
        rw [Bool.and_eq_true, decide_eq_true_eq] at ends
        rw [ends.1]
        exact Balanced.nil
      · next goes_on =>
        -- Past its first token a region stops before a brace that it did not open.
        have around : depth ≠ 0 := by
          intro zero
          cases isEmpty with
          | true => exact first rfl zero t rfl kind
          | false => simp [zero] at goes_on
        obtain ⟨inner, rfl⟩ := Nat.exists_eq_succ_of_ne_zero around
        split
        · next one =>
          obtain rfl : inner = 0 := by omega
          exact Balanced.closeCurly kind
        · exact (Balanced.closeCurly kind).append (later inner)
    · next kind =>
      have ne_open : t.token.kind ≠ .openCurly := by rw [kind]; decide
      have ne_close : t.token.kind ≠ .closeCurly := by rw [kind]; decide
      split
      · next zero =>
        rw [zero]
        exact Balanced.token ne_open ne_close
      · exact (Balanced.token ne_open ne_close).append (later depth)
    · next ne_open ne_close _ => exact (Balanced.token ne_open ne_close).append (later depth)

/-- The region ends with a semicolon or a closing brace of its own. -/
def EndsItself (region : List Padded) : Prop :=
  ∃ before t, region = before ++ [t]
    ∧ (t.token.kind = .semicolon ∨ t.token.kind = .closeCurly)

theorem EndsItself.cons {tokens : List Padded} (t : Padded) (h : EndsItself tokens) :
    EndsItself (t :: tokens) := by
  obtain ⟨before, last, parts, kind⟩ := h
  exact ⟨t :: before, last, by rw [parts, List.cons_append], kind⟩

/-- A region ends with the tokens, before a closing brace, or with a closing brace or a semicolon
of its own. -/
theorem region_ends (depth : Nat) (isEmpty : Bool) (tokens : List Padded) :
    (region depth isEmpty tokens).2 = []
    ∨ (∃ t ts, (region depth isEmpty tokens).2 = t :: ts ∧ t.token.kind = .closeCurly)
    ∨ EndsItself (region depth isEmpty tokens).1 := by
  induction tokens generalizing depth isEmpty with
  | nil => exact .inl rfl
  | cons t ts ih =>
    have later (inner : Nat) :
        (region inner false ts).2 = []
        ∨ (∃ u us, (region inner false ts).2 = u :: us ∧ u.token.kind = .closeCurly)
        ∨ EndsItself (t :: (region inner false ts).1) :=
      (ih inner false).imp id (.imp id (.cons t))
    rw [region]
    split
    · exact later (depth + 1)
    · next kind =>
      split
      · exact .inr (.inl ⟨t, ts, rfl, kind⟩)
      · split
        · exact .inr (.inr ⟨[], t, rfl, .inr kind⟩)
        · exact later (depth - 1)
    · next kind =>
      split
      · exact .inr (.inr ⟨[], t, rfl, .inl kind⟩)
      · exact later depth
    · exact later depth

/-- What a rule passes before it gives up lies in the region that stands for it, unless the region
ends with a closing brace or a semicolon of its own. -/
theorem passed_le {rest passed after : List Padded} (split : rest = passed ++ after)
    (kept : Kept 0 passed) :
    passed.length ≤ (region 0 true rest).1.length ∨ EndsItself (region 0 true rest).1 := by
  have whole := region_append 0 true rest
  rcases region_ends 0 true rest with none | ⟨t, ts, next, kind⟩ | own
  · left
    rw [none, List.append_nil] at whole
    rw [whole, split, List.length_append]
    omega
  · by_cases stray : ∃ u ∈ rest.head?, u.token.kind = .closeCurly
    · right
      obtain ⟨u, head, close⟩ := stray
      obtain ⟨us, rfl⟩ := List.head?_eq_some_iff.mp head
      exact ⟨[], u, by simp [region, close], .inr close⟩
    · left
      have balanced := region_balanced 0 true rest fun _ _ u head close =>
        stray ⟨u, head, close⟩
      rw [next] at whole balanced
      exact balanced.length_le kind kept (whole.trans split)
  · exact .inr own

end Recovery

end JaiTree
