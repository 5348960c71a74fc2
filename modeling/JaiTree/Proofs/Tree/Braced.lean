import JaiTree.Proofs.Tree.Built

/-!
Braced tokens: braces are matched by how many are open, and what stands before a closing brace that
is left over is braced down to each node of it. Main statements: `Partners.unique`,
`Built.braced_before`.
-/

namespace JaiTree

/-- Whether the token is a brace. -/
def Token.isBrace (token : Token) : Bool := token.kind = .openCurly || token.kind = .closeCurly

/-- How many braces are open after the tokens when `depth` are before them, unless they close one
more than that. -/
def bracesAfter (depth : Nat) : List Token → Option Nat
  | [] => some depth
  | t :: ts =>
    match t.kind with
    | .openCurly => bracesAfter (depth + 1) ts
    | .closeCurly => if depth = 0 then none else bracesAfter (depth - 1) ts
    | _ => bracesAfter depth ts

/-- The tokens close the braces that they open and no others: their braces are well nested. -/
def Braced (tokens : List Token) : Prop := bracesAfter 0 tokens = some 0

instance (tokens : List Token) : Decidable (Braced tokens) := inferInstanceAs (Decidable (_ = _))

/-- In the tokens, the second brace closes the first: what is between them is well nested. -/
def Partners (tokens : List Token) (opening closing : Token) : Prop :=
  ∃ before inner after, tokens = before ++ opening :: (inner ++ closing :: after)
    ∧ opening.kind = .openCurly ∧ closing.kind = .closeCurly ∧ Braced inner

theorem bracesAfter_append (depth : Nat) (a b : List Token) :
    bracesAfter depth (a ++ b) = (bracesAfter depth a).bind fun inner => bracesAfter inner b := by
  induction a generalizing depth with
  | nil => rfl
  | cons t ts ih =>
    simp only [List.cons_append, bracesAfter, ih]
    split
    · rfl
    · split
      all_goals rfl
    · rfl

theorem bracesAfter_cons {t : Token} (other : t.isBrace = false) (depth : Nat) (ts : List Token) :
    bracesAfter depth (t :: ts) = bracesAfter depth ts := by
  simp only [Token.isBrace, Bool.or_eq_false_iff, decide_eq_false_iff_not] at other
  rw [bracesAfter]
  split
  · next kind => exact absurd kind other.1
  · next kind => exact absurd kind other.2
  · rfl

theorem Token.isBrace_of_isTrivia {t : Token} (trivial : t.isTrivia = true) :
    t.isBrace = false := by
  have kinds : t.kind.isTrivia = true := trivial
  simp only [Token.isBrace, Bool.or_eq_false_iff, decide_eq_false_iff_not]
  constructor
  all_goals
    intro kind
    rw [kind] at kinds
    cases kinds

theorem bracesAfter_trivia {ts : List Token} (trivial : ∀ t ∈ ts, t.isTrivia = true)
    (depth : Nat) : bracesAfter depth ts = some depth := by
  induction ts with
  | nil => rfl
  | cons t ts ih =>
    have other := Token.isBrace_of_isTrivia (trivial t List.mem_cons_self)
    rw [bracesAfter_cons other]
    exact ih fun u among => trivial u (List.mem_cons_of_mem t among)

theorem Braced.append {a b : List Token} (h : Braced a) (h' : Braced b) : Braced (a ++ b) := by
  rw [Braced, bracesAfter_append, h]
  exact h'

theorem Braced.trivia {ts : List Token} (trivial : ∀ t ∈ ts, t.isTrivia = true) : Braced ts :=
  bracesAfter_trivia trivial 0

/-- Braced tokens never close a brace that they did not open. -/
theorem Braced.not_closed {inner more : List Token} {closing : Token} (h : Braced inner)
    (kind : closing.kind = .closeCurly) : ¬ Braced (inner ++ closing :: more) := by
  intro whole
  rw [Braced, bracesAfter_append, h] at whole
  simp [bracesAfter, kind] at whole

/-- A brace is closed in one place only. -/
theorem Partners.unique {inner inner' after after' : List Token} {closing closing' : Token}
    (h : Braced inner) (h' : Braced inner') (kind : closing.kind = .closeCurly)
    (kind' : closing'.kind = .closeCurly)
    (same : inner ++ closing :: after = inner' ++ closing' :: after') :
    inner = inner' ∧ closing = closing' := by
  rcases List.append_eq_append_iff.mp same with ⟨more, parts, rest⟩ | ⟨more, parts, rest⟩
  · cases more with
    | nil => exact ⟨by rw [parts, List.append_nil], (List.cons.inj rest).1⟩
    | cons t ts =>
      obtain ⟨rfl, -⟩ := List.cons.inj rest
      exact absurd (parts ▸ h') (h.not_closed kind)
  · cases more with
    | nil => exact ⟨by rw [parts, List.append_nil], (List.cons.inj rest).1.symm⟩
    | cons t ts =>
      obtain ⟨rfl, -⟩ := List.cons.inj rest
      exact absurd (parts ▸ h) (h'.not_closed kind')

/-- Of the tokens that the grammar sees, those before them are only trivia. -/
def Folded (taken : List Padded) : Prop := ∀ p ∈ taken, ∀ t ∈ p.leading, t.isTrivia = true

theorem bracesAfter_flatMap {taken : List Padded} (folded : Folded taken) (depth : Nat) :
    bracesAfter depth (taken.flatMap Padded.tokens) = depthAfter depth taken := by
  induction taken generalizing depth with
  | nil => rfl
  | cons p ps ih =>
    have later (depth : Nat) := ih (fun q among => folded q (List.mem_cons_of_mem p among)) depth
    have leading := bracesAfter_trivia (folded p List.mem_cons_self) depth
    rw [List.flatMap_cons, Padded.tokens, List.append_assoc, bracesAfter_append, leading,
      Option.bind_some, List.singleton_append, bracesAfter]
    simp only [later]
    rfl

/-- By how many the braces that the tokens open are more than those they close. -/
def surplus (taken : List Padded) : Int :=
  (taken.countP fun t => t.token.kind = .openCurly : Nat)
    - (taken.countP fun t => t.token.kind = .closeCurly : Nat)

theorem surplus_append (a b : List Padded) : surplus (a ++ b) = surplus a + surplus b := by
  simp only [surplus, List.countP_append]
  omega

theorem surplus_of_depthAfter {depth inner : Nat} {taken : List Padded}
    (h : depthAfter depth taken = some inner) : surplus taken = inner - depth := by
  induction taken generalizing depth with
  | nil =>
    have same := Option.some.inj h
    simp [surplus, same]
  | cons t ts ih =>
    have one := surplus_append [t] ts
    rw [List.singleton_append] at one
    rw [depthAfter] at h
    split at h
    · next kind =>
      have opened : surplus [t] = 1 := by simp [surplus, kind]
      have later := ih h
      omega
    · next kind =>
      have closed : surplus [t] = -1 := by simp [surplus, kind]
      split at h
      · cases h
      · have later := ih h
        omega
    · next ne_open ne_close =>
      have ne_open' : ¬ t.token.kind = .openCurly := ne_open
      have ne_close' : ¬ t.token.kind = .closeCurly := ne_close
      have other : surplus [t] = 0 := by simp [surplus, ne_open', ne_close']
      have later := ih h
      omega

/-- The braces of the children are those of their rule, and each node of them is braced. -/
structure Tidy (before opened : Nat) (taken after : List Padded) (children : List Child) :
    Prop where
  balanced : Balanced before opened taken after
  braced : ∀ n ∈ descendantsOf children, Braced n.leaves

theorem Balanced.surplus {before opened : Nat} {taken after : List Padded}
    (h : Balanced before opened taken after) (some_token : after ≠ []) :
    JaiTree.surplus taken = opened - before := by
  have closed := surplus_of_depthAfter (h.closed some_token 0)
  omega

theorem Balanced.braced {taken after : List Padded} (h : Balanced 0 0 taken after)
    (some_token : after ≠ []) (folded : Folded taken) : Braced (taken.flatMap Padded.tokens) := by
  rw [Braced, bracesAfter_flatMap folded]
  exact h.closed some_token 0

namespace Tidy

variable {before inner opened : Nat} {taken more after : List Padded} {children others : List Child}

theorem append (h : Tidy before inner taken (more ++ after) children)
    (h' : Tidy inner opened more after others) :
    Tidy before opened (taken ++ more) after (children ++ others) := by
  refine ⟨h.balanced.append h'.balanced, ?_⟩
  rw [descendantsOf_append]
  exact List.forall_mem_append.mpr ⟨h.braced, h'.braced⟩

/-- A node with no node below it is tidy over balanced tokens. -/
theorem alone {n : Node} (balanced : Balanced 0 0 taken after) (some_token : after ≠ [])
    (folded : Folded taken) (only : descendantsOf [.node none n] = [n])
    (leaves : n.leaves = taken.flatMap Padded.tokens) :
    Tidy 0 0 taken after [.node none n] := by
  refine ⟨balanced, ?_⟩
  rw [only]
  intro m member
  rw [List.mem_singleton.mp member, leaves]
  exact balanced.braced some_token folded

end Tidy

namespace Built

variable {eof : Padded} {taken after : List Padded} {children : List Child}
  {a b : List Delimiter} {g : Bool}

/-- Where tokens are left, children are tidy, unless a region among them stands for a brace alone
that closes one of those around it. Such braces are never made up for. -/
theorem tidy_or_less (h : Built eof taken after children a b g) (folded : Folded taken)
    (some_token : after ≠ []) :
    Tidy (curlies a) (curlies b) taken after children
      ∨ surplus taken < curlies b - curlies a := by
  induction h with
  | empty => exact .inl ⟨.nil, fun _ none => nomatch none⟩
  | @append s t after children more a b c g _ _ ih ih' =>
    have behind : t ++ after ≠ [] := List.append_ne_nil_of_right_ne_nil t some_token
    have first := ih (fun p among => folded p (List.mem_append_left t among)) behind
    have second := ih' (fun p among => folded p (List.mem_append_right s among)) some_token
    rw [surplus_append]
    rcases first with tidy | less
    · have net := tidy.balanced.surplus behind
      rcases second with tidy' | less'
      · exact .inl (tidy.append tidy')
      · right
        omega
    · -- A tidy second part adds its own surplus, which the first one stays below.
      right
      rcases second with tidy' | less'
      · have net := tidy'.balanced.surplus some_token
        omega
      · omega
  | token takes =>
    left
    refine ⟨.shifts takes.shifts, ?_⟩
    rw [descendantsOf_ofPadded]
    exact fun _ none => nomatch none
  | @faulty after padded _ kind =>
    have ne_open : padded.token.kind ≠ .openCurly := by rw [kind]; decide
    have ne_close : padded.token.kind ≠ .closeCurly := by rw [kind]; decide
    have balanced : Balanced 0 0 [padded] after := .token ne_open ne_close
    refine .inl (.alone balanced some_token folded (descendantsOf_faulty padded) ?_)
    rw [Node.faulty, Node.leaves, leavesOf_ofPadded]
    simp
  | @under kind taken after children _ _ _ built ih =>
    refine (ih folded some_token).imp (fun tidy => ?_) id
    have braced := tidy.balanced.braced some_token folded
    refine ⟨tidy.balanced, ?_⟩
    rw [descendantsOf_under]
    refine List.forall_mem_cons.mpr ⟨?_, tidy.braced⟩
    rw [Node.sound, Node.leaves, built.leaves]
    exact braced
  | relabel _ ih =>
    refine (ih folded some_token).imp (fun tidy => ⟨tidy.balanced, ?_⟩) id
    rw [descendantsOf_relabel]
    exact tidy.braced
  | @region failure region after left _ some_region whole _ =>
    obtain ⟨t, ts, rfl⟩ := List.exists_cons_of_ne_nil some_region
    by_cases stray : t.token.kind = .closeCurly
    · right
      have alone : t :: ts = [t] := by
        rw [List.cons_append, Recovery.region, stray] at whole
        exact (congrArg Prod.fst whole).symm
      rw [alone]
      simp [surplus, stray, curlies]
    · left
      have balanced := Recovery.region_balanced 0 true (t :: ts ++ after) fun _ _ u head => by
        cases head
        exact stray
      rw [whole] at balanced
      exact .alone balanced some_token folded (descendantsOf_region failure _)
        (Recovery.node_leaves failure _)
  | inside _ ih =>
    rcases ih folded some_token with tidy | less
    · exact .inl ⟨tidy.balanced.inside, tidy.braced⟩
    · right
      simpa [curlies] using less
  | anywhere _ ih | group _ _ ih => exact ih folded some_token

/-- Where tokens are left and the braces of children are closed, so are those of each node of
them. -/
theorem braced_before (h : Built eof taken after children) (folded : Folded taken)
    (some_token : after ≠ []) (balanced : Balanced 0 0 taken after) :
    Braced (leavesOf children) ∧ ∀ n ∈ descendantsOf children, Braced n.leaves := by
  have net := balanced.surplus some_token
  rcases h.tidy_or_less folded some_token with tidy | less
  · refine ⟨?_, tidy.braced⟩
    rw [h.leaves]
    exact balanced.braced some_token folded
  · simp [curlies] at less
    omega

end Built

end JaiTree
