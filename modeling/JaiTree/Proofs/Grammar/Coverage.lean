import JaiTree.Proofs.Grammar.Statements
import JaiTree.Proofs.Grammar.Groups
import JaiTree.Proofs.Tree.Built

/-!
Coverage: what a guarded form takes is what its children lie over, whatever it reads. Main
statement: `level_covers`.
-/

namespace JaiTree

namespace Outcome

theorem andThen_done (children : List Child) (rest : List Padded) (next : List Padded → Outcome) :
    (Outcome.done children rest).andThen next = (next rest).map (children ++ ·) := by
  rw [andThen]
  cases next rest <;> rfl

/-- What may come of reading `rest`: children over the tokens at its head, or a failure at a token
of it or at the end. Of the pairs that the rule has opened, `before` are open before the children
and `opened` after them. -/
inductive Covers (eof : Padded) (moves : Bool) (left : Known) (rest : List Padded) :
    Outcome → (before : List Delimiter := []) → (opened : List Delimiter := []) →
    (inGroup : Bool := false) → Prop where
  | done (taken : List Padded) {after : List Padded} {children : List Child}
      {a b : List Delimiter} {g : Bool} :
      rest = taken ++ after → Built eof taken after children a b g →
      Balanced (curlies a) (curlies b) taken after → (moves = true → taken ≠ []) → left after →
      Covers eof moves left rest (.done children after) a b g
  | failed {after : List Padded} {error : Diagnostic} {a b : List Delimiter} {g : Bool} :
      Refusal eof (curlies a) rest after error →
      Covers eof moves left rest (.failed error after) a b g

namespace Covers

variable {eof : Padded} {m n : Bool} {left between : Known} {rest : List Padded} {outcome : Outcome}
  {a b c : List Delimiter} {g : Bool}

theorem weaken {left' : Known} (h : Covers eof m left rest outcome a b g)
    (moves : n = true → m = true) (knows : ∀ rest, left rest → left' rest) :
    Covers eof n left' rest outcome a b g := by
  cases h with
  | done taken split built balanced some_token after =>
    exact .done taken split built balanced (fun moved => some_token (moves moved)) (knows _ after)
  | failed refusal => exact .failed refusal

/-- What opens and closes no pairs of the rule does so as well where some are open. -/
theorem inside (h : Covers eof m left rest outcome [] [] g) :
    Covers eof m left rest outcome a a g := by
  cases h with
  | done taken split built balanced some_token after =>
    exact .done taken split built.inside balanced.inside some_token after
  | failed refusal =>
    obtain ⟨passed, split, kept⟩ := refusal.passed
    exact .failed ⟨⟨passed, split, fun depth => kept (depth + curlies a)⟩, refusal.position,
      refusal.syntactic⟩

theorem anywhere (h : Covers eof m left rest outcome a b) :
    Covers eof m left rest outcome a b g := by
  cases h with
  | done taken split built balanced some_token after =>
    exact .done taken split built.anywhere balanced some_token after
  | failed refusal => exact .failed refusal

/-- Tokens that are cut off together may be taken anywhere as one. -/
theorem group (h : Covers eof m left rest outcome [] [] true)
    (bundled : outcome.Yields (Bundled rest)) : Covers eof m left rest outcome := by
  cases h with
  | done taken split built balanced some_token after =>
    obtain ⟨taken', split', bundle⟩ := Outcome.yields_done.mp bundled
    obtain rfl : taken = taken' := List.append_cancel_right (split.symm.trans split')
    exact .done taken split (.group bundle built) balanced some_token after
  | failed refusal => exact .failed refusal

theorem fail {cause : Sight → Cause} (syntactic : ∀ s, (cause s).isSyntactic = true) :
    Covers eof m left rest (Reading.fail eof cause rest) a b g :=
  .failed ⟨⟨[], (List.nil_append rest).symm, fun _ => rfl⟩, rfl, syntactic _⟩

theorem failing {error : Diagnostic} {after : List Padded}
    (h : Covers eof m left rest (.failed error after) a b g) :
    Covers eof n between rest (.failed error after) a c g := by
  cases h with
  | failed refusal => exact .failed refusal

theorem nothing (knows : left rest) : Covers eof false left rest (.done [] rest) a a g :=
  .done [] (List.nil_append rest).symm .empty .nil (fun no => nomatch no) knows

theorem map {f : List Child → List Child} (h : Covers eof m left rest outcome [] [] g)
    (keeps : ∀ taken after children, (m = true → taken ≠ []) →
      Built eof taken after children [] [] g → Built eof taken after (f children) [] [] g) :
    Covers eof m left rest (outcome.map f) [] [] g := by
  cases h with
  | done taken split built balanced some_token after =>
    exact .done taken split (keeps _ _ _ some_token built) balanced some_token after
  | failed refusal => exact .failed refusal

section Done

variable {after : List Padded} {children : List Child}

theorem known (h : Covers eof m left rest (.done children after) a b g) : left after := by
  cases h with
  | done taken split built balanced some_token known => exact known

theorem length_le (h : Covers eof m left rest (.done children after) a b g) :
    after.length ≤ rest.length := by
  cases h with
  | done taken split built balanced some_token known =>
    have parts := congrArg List.length split
    rw [List.length_append] at parts
    omega

theorem length_lt (h : Covers eof true left rest (.done children after) a b g) :
    after.length < rest.length := by
  cases h with
  | done taken split built balanced some_token known =>
    have parts := congrArg List.length split
    have pos := List.length_pos_iff.mpr (some_token rfl)
    rw [List.length_append] at parts
    omega

/-- Past a token of its turn, fewer tokens are left than where the turn began. -/
theorem lt_start {moved : Bool} {start : Nat}
    (h : Covers eof m left rest (.done children after) a b g) (within : rest.length ≤ start)
    (past : moved = true → rest.length < start)
    (moves : (moved || m) = true) : after.length < start := by
  rw [Bool.or_eq_true] at moves
  rcases moves with moves | rfl
  · exact Nat.lt_of_le_of_lt h.length_le (past moves)
  · exact Nat.lt_of_lt_of_le h.length_lt within

end Done

/-- A reading after another covers what both take. -/
theorem andThen {next : List Padded → Outcome} (h : Covers eof m between rest outcome a b g)
    (h' : ∀ children after, Covers eof m between rest (.done children after) a b g →
      Covers eof n left after (next after) b c g) :
    Covers eof (m || n) left rest (outcome.andThen next) a c g := by
  cases h with
  | failed refusal => exact .failed refusal
  | @done taken after children _ _ _ split built balanced some_token known =>
    have second := h' children after (.done taken split built balanced some_token known)
    rw [Outcome.andThen]
    generalize next after = outcome at second ⊢
    cases second with
    | failed refusal =>
      rw [split]
      exact .failed (refusal.behind balanced)
    | done taken' split' built' balanced' some_token' known' =>
      rw [split'] at built balanced
      refine .done (taken ++ taken') ?_ (.append built built') (balanced.append balanced') ?_ known'
      · rw [split, split', List.append_assoc]
      · intro moved
        rw [Bool.or_eq_true] at moved
        rcases moved with moved | moved
        · exact List.append_ne_nil_of_left_ne_nil (some_token moved) _
        · exact List.append_ne_nil_of_right_ne_nil _ (some_token' moved)

/-- What is read after some children, put under a node with them. -/
theorem headed {start : List Padded} {children : List Child} {kind : NodeKind}
    (h : Covers eof m between start (.done children rest) [] [] g)
    (h' : Covers eof n left rest outcome [] [] g)
    (moves : m = true ∨ n = true) (ne_error : kind ≠ .error) :
    Covers eof true left start (outcome.map fun more => Child.under kind (children ++ more)) [] []
      g := by
  cases h with
  | done taken split built balanced some_token known =>
    cases h' with
    | failed refusal =>
      rw [split]
      exact .failed (refusal.behind balanced)
    | done taken' split' built' balanced' some_token' known' =>
      rw [split'] at built balanced
      have whole : taken ++ taken' ≠ [] := by
        rcases moves with moves | moves
        · exact List.append_ne_nil_of_left_ne_nil (some_token moves) taken'
        · exact List.append_ne_nil_of_right_ne_nil taken (some_token' moves)
      refine .done (taken ++ taken') ?_ (.under ne_error whole (.append built built'))
        (balanced.append balanced') (fun _ => whole) known'
      rw [split, split', List.append_assoc]

end Covers

end Outcome

namespace Reading

open Outcome (Covers)

variable {eof : Padded} {m g : Bool}

/-- A form that goes round again on shorter rests only covers what all its rounds take. -/
theorem unrolled_covers {step : Reading → Reading}
    (h : ∀ self setting rest,
      (∀ setting shorter, shorter.length < rest.length →
        Covers eof false (fun _ => True) shorter (self setting shorter) [] [] g) →
      Covers eof m (fun _ => True) rest (step self setting rest) [] [] g)
    (n : Nat) (setting : Setting) (rest : List Padded) (enough : rest.length < n) :
    Covers eof m (fun _ => True) rest (unrolled step n setting rest) [] [] g := by
  induction n generalizing setting rest with
  | zero => cases enough
  | succ n ih =>
    refine h _ setting rest fun setting shorter less => ?_
    have covers := ih setting shorter (by omega)
    exact covers.weaken (fun no => nomatch no) fun _ => id

theorem grown_covers {add : List Child → List Padded → Option Outcome} {start : List Padded}
    (h : ∀ children rest outcome,
      Covers eof true (fun _ => True) start (.done children rest) [] [] g →
      add children rest = some outcome → Covers eof true (fun _ => True) start outcome [] [] g)
    (n : Nat) {children : List Child} {rest : List Padded}
    (covers : Covers eof true (fun _ => True) start (.done children rest) [] [] g) :
    Covers eof true (fun _ => True) start (grown add n children rest) [] [] g := by
  induction n generalizing children rest with
  | zero => exact covers
  | succ n ih =>
    rw [grown]
    split
    · exact covers
    · next added => exact ih (h _ _ _ covers added)
    · next added => exact (h _ _ _ covers added).failing

end Reading

namespace Form

open Outcome (Covers)

variable {eof : Padded} {moved m : Bool} {known left : Known} {form : Form}
  {a b : List Delimiter} {g : Bool}

theorem take_covers {rest ts : List Padded} {t : Padded} {field : Option Field}
    (there : rest = t :: ts) (knows : known rest) (takes : Takes g a t.token.kind b) :
    Covers eof true known.past rest (.done (Child.ofPadded field t) ts) a b g := by
  subst there
  exact .done [t] rfl (.token takes) (.shifts takes.shifts) (fun _ => List.cons_ne_nil t [])
    ⟨t, knows⟩

theorem expect_covers (isEnd : eof.token.kind = .eof) {deeper : Goal → Reading} {self : Reading}
    {setting : Setting} {rest : List Padded} {kind : TokenKind} {field : Option Field}
    (knows : known rest) (takes : Takes g a kind b) :
    Covers eof true known.past rest ((expect kind field).read eof deeper self setting rest)
      a b g := by
  rw [read]
  split
  · next found =>
    cases rest with
    | nil => exact absurd (found.symm.trans isEnd) takes.ne_eof
    | cons t ts => exact take_covers rfl knows (found ▸ takes)
  · exact .fail fun _ => rfl

/-- Where a token is left, what is read or the region that stands for it takes one. -/
theorem guard_built {deeper : Goal → Reading} {self : Reading} {setting : Setting}
    {rest : List Padded} (some_token : rest ≠ [])
    (h : Covers eof true left rest (form.read eof deeper self setting rest)) :
    ∃ taken children after,
      (guard form).read eof deeper self setting rest = .done children after
      ∧ rest = taken ++ after ∧ taken ≠ [] ∧ Built eof taken after children := by
  rw [read]
  generalize form.read eof deeper self setting rest = outcome at h ⊢
  cases h with
  | done taken split built balanced some_taken after =>
    exact ⟨taken, _, _, rfl, split, some_taken rfl, built⟩
  | failed refusal =>
    exact ⟨_, _, _, rfl, (Recovery.region_append 0 true rest).symm,
      Recovery.region_ne_nil 0 some_token, .recovered some_token refusal⟩

/-- A form that fails where a token is left covers the region that stands for it, unless that token
closes a brace around the form. -/
theorem guard_covers {deeper : Goal → Reading} {self : Reading} {setting : Setting} {t : Padded}
    {ts : List Padded} (inside : t.token.kind ≠ .closeCurly)
    (h : Covers eof true left (t :: ts) (form.read eof deeper self setting (t :: ts)) [] [] g) :
    Covers eof true (fun _ => True) (t :: ts)
      ((guard form).read eof deeper self setting (t :: ts)) [] [] g := by
  rw [read]
  generalize form.read eof deeper self setting (t :: ts) = outcome at h ⊢
  cases h with
  | done taken split built balanced some_taken after =>
    exact .done taken split built balanced some_taken trivial
  | failed refusal =>
    have some_token : t :: ts ≠ [] := List.cons_ne_nil t ts
    have region := Recovery.region_ne_nil 0 some_token
    have balanced := Recovery.region_balanced 0 true (t :: ts) fun _ _ u head => by
      cases head
      exact inside
    exact .done (Recovery.region 0 true (t :: ts)).1 (Recovery.region_append 0 true _).symm
      (.recovered some_token refusal) balanced (fun _ => region) trivial

/-- A guarded form covers what it takes, when the rules one level deeper do, and `again` does on
all rests that are short enough. -/
theorem Guarded.covers (isEnd : eof.token.kind = .eof) {deeper : Goal → Reading}
    (deeper_covers : ∀ goal setting rest,
      Covers eof goal.moves (fun _ => True) rest (deeper goal setting rest))
    {spot : Spot} (h : Guarded eof moved known form m left a b spot g) {self : Reading}
    {bound : Nat}
    (self_covers : ∀ setting rest, rest.length < bound →
      Covers eof false (fun _ => True) rest (self setting rest) [] [] g)
    (setting : Setting) (rest : List Padded) (knows : known rest) (within : rest.length ≤ bound)
    (past : moved = true → rest.length < bound) :
    Covers eof m left rest (form.read eof deeper self setting rest) a b g := by
  induction h generalizing self bound setting rest with
  | empty => exact .nothing knows
  | seq _ _ ih ih' =>
    have first := ih self_covers setting rest knows within past
    refine first.andThen fun children after covers => ?_
    exact ih' self_covers setting after covers.known (Nat.le_trans covers.length_le within)
      (covers.lt_start within past)
  | takes there =>
    obtain ⟨t, ts, rfl, takes⟩ := there rest knows
    exact take_covers rfl knows takes
  | expects takes => exact expect_covers isEnd knows takes
  | refuse syntactic => exact .fail syntactic
  | faulty wrong =>
    obtain ⟨t, ts, rfl, kind⟩ := wrong rest knows
    refine .done [t] rfl (.faulty kind) (.token ?_ ?_) (fun _ => List.cons_ne_nil t []) trivial
    all_goals
      rw [kind]
      decide
  | under fits _ ih =>
    have covers := ih self_covers setting rest knows within past
    exact covers.map fun taken after children some_token built =>
      .under fits.ne_error (some_token rfl) built
  | leadingPoint _ ih =>
    have covers := ih _ self_covers setting rest ⟨knows, rfl⟩ within past
    exact covers.map fun taken after children some_token built =>
      .under (Growth.kind_ne_error _) (some_token rfl) built
  | label _ ih =>
    have covers := ih self_covers setting rest knows within past
    exact covers.map fun taken after children _ built => built.relabel
  | enter _ => exact deeper_covers _ setting rest
  | changed _ => exact deeper_covers _ _ rest
  | choose _ ih => exact ih _ self_covers setting rest ⟨knows, setting, rfl⟩ within past
  | within _ _ ih => exact ih self_covers _ rest knows within past
  | fix _ ih =>
    refine Reading.unrolled_covers (fun self setting rest again => ?_) _ setting rest
      (Nat.lt_succ_self rest.length)
    exact ih again setting rest trivial (Nat.le_refl _) fun no => nomatch no
  | again => exact self_covers setting rest (past rfl)
  | @growing _ many _ _ _ first look kind field tail _ g _ fits _ ih ih' =>
    have head := ih self_covers setting rest knows within past
    rw [read]
    generalize first.read eof deeper self setting rest = outcome at head ⊢
    cases outcome with
    | failed error after => exact head.failing
    | done children after =>
      refine Reading.grown_covers ?_ _ (head.weaken id fun _ _ => trivial)
      intro children after outcome covers added
      obtain ⟨k, found, rfl⟩ := Option.map_eq_some_iff.mp added
      -- The operand has taken a token, so behind it `again` may stand anywhere.
      have less : after.length < bound := Nat.lt_of_lt_of_le covers.length_lt within
      have more := ih' k self_covers setting after ⟨setting, found⟩ (Nat.le_of_lt less)
        fun _ => less
      have labelled : Covers eof true (fun _ => True) rest
          (.done (Child.labelled (field k) children) after) [] [] g :=
        covers.map fun _ _ _ _ built => built.labelled
      exact labelled.headed more (.inl rfl) (fits.grown_ne_error k)
  | @lead _ _ _ _ _ first otherwise look kind tail _ _ _ sound _ _ ih ih' ih'' =>
    have head := ih self_covers setting rest knows within past
    rw [read]
    generalize first.read eof deeper self setting rest = outcome at head ⊢
    cases outcome with
    | failed error after => exact head.failing
    | done children after =>
      dsimp only
      split
      · next k found =>
        have more := ih' k self_covers setting after ⟨setting, found⟩
          (Nat.le_trans head.length_le within)
          fun moved => Nat.lt_of_le_of_lt head.length_le (past moved)
        exact head.headed more (.inr rfl) (NodeKind.ne_error (sound k))
      · exact ih'' self_covers setting rest knows within past
  | guard some_token _ ih =>
    obtain ⟨t, ts, rfl, inside⟩ := some_token rest knows
    exact guard_covers inside (ih self_covers setting _ knows within past)
  | group groups _ ih =>
    have again (setting : Setting) (rest : List Padded) (less : rest.length < bound) :
        Covers eof false (fun _ => True) rest (self setting rest) [] [] true :=
      (self_covers setting rest less).anywhere
    exact (ih again setting rest knows within past).group (groups.bundled isEnd knows)
  | inside _ ih => exact (ih self_covers setting rest knows within past).inside
  | weaken _ weaker knows' moves left' ih =>
    have covers := ih self_covers setting rest (knows' rest knows) within fun moved =>
      past (weaker moved)
    exact covers.weaken moves left'

/-- The turns of a guarded loop cover what they take, where fewer tokens are left than turns. -/
theorem Guarded.turns_cover (isEnd : eof.token.kind = .eof) {deeper : Goal → Reading}
    (deeper_covers : ∀ goal setting rest,
      Covers eof goal.moves (fun _ => True) rest (deeper goal setting rest))
    {spot : Spot} (h : Guarded eof false (fun _ => True) form m (fun _ => True) [] [] spot g)
    (n : Nat) (setting : Setting) (rest : List Padded) (enough : rest.length < n) :
    Covers eof m (fun _ => True) rest
      (Reading.unrolled (fun self => form.read eof deeper self) n setting rest) [] [] g := by
  refine Reading.unrolled_covers (fun self setting rest again => ?_) n setting rest enough
  exact h.covers isEnd deeper_covers again setting rest trivial (Nat.le_refl _) Bool.noConfusion

end Form

namespace Grammar

open Outcome (Covers)

/-- A rule covers what it takes, whatever stands there and however deep it stands. -/
theorem level_covers {eof : Padded} (isEnd : eof.token.kind = .eof) (room : Nat) (goal : Goal)
    (setting : Setting) (rest : List Padded) :
    Covers eof goal.moves (fun _ => True) rest (level eof room goal setting rest) := by
  induction room generalizing goal setting rest with
  | zero => exact .fail fun _ => rfl
  | succ room ih =>
    exact (goal.form_safe isEnd).covers isEnd ih
      (fun _ _ _ => .nothing trivial) setting rest trivial (Nat.le_refl _) fun no => nomatch no

/-- A form that is safe wherever it stands covers what it takes. -/
theorem read_covers {eof : Padded} (isEnd : eof.token.kind = .eof) {form : Form} {m : Bool}
    {spot : Spot} (h : Form.Safe eof m form spot) (room : Nat) (setting : Setting)
    (rest : List Padded) :
    Covers eof m (fun _ => True) rest (read eof room form setting rest) :=
  h.covers isEnd (level_covers isEnd room) (fun _ _ _ => .nothing trivial) setting rest trivial
    (Nat.le_refl _) fun no => nomatch no

end Grammar

end JaiTree
