import JaiTree.Proofs.Tree.Listing

/-!
Runs: reading forms without a bound on how often a loop goes round. A run is finite, each turn of
a loop in it has fewer tokens left than the turn before, and what it comes to is what a reading
gives. Main statements: `Runs.unique`, `Grammar.runs_read`.
-/

namespace JaiTree

/-- What is still to be done: a form, or growth around children that are there. -/
inductive Work : Type 1 where
  | read (form : Form)
  | grow {κ : Type} (many : Bool) (look : Setting → Glance (Option κ)) (kind : κ → NodeKind)
      (field : κ → Option Field) (tail : κ → Form) (children : List Child)

/-- A turn of a loop: how many levels may still be opened in it, what `again` stands for, and how
many tokens were left where it began. -/
structure Turn : Type 1 where
  room : Nat
  loop : Form
  start : Nat

/-- A finite run. A loop goes round again, and growth goes on, only with fewer tokens left. -/
inductive Runs (eof : Padded) : Turn → Work → Setting → List Padded → Outcome → Prop where
  | empty : Runs eof turn (.read .empty) setting rest (.done [] rest)
  | seq : Runs eof turn (.read first) setting rest (.done children after) →
      Runs eof turn (.read second) setting after outcome →
      Runs eof turn (.read (.seq first second)) setting rest (outcome.map (children ++ ·))
  | seqFailed : Runs eof turn (.read first) setting rest (.failed error after) →
      Runs eof turn (.read (.seq first second)) setting rest (.failed error after)
  | take : Runs eof turn (.read (.take field)) setting rest
      (.done (Child.ofPadded field (Reading.next eof rest).1) (Reading.next eof rest).2)
  | expect : (ahead eof rest 0).token.kind = kind →
      Runs eof turn (.read (.expect kind field)) setting rest
        (.done (Child.ofPadded field (Reading.next eof rest).1) (Reading.next eof rest).2)
  | expectFailed : (ahead eof rest 0).token.kind ≠ kind →
      Runs eof turn (.read (.expect kind field)) setting rest
        (Reading.fail eof (fun s => .expectedToken kind.text s.described) rest)
  | refuse : Runs eof turn (.read (.refuse cause)) setting rest (Reading.fail eof cause rest)
  | faulty : Runs eof turn (.read .faulty) setting rest
      (.done [.node none (.faulty (Reading.next eof rest).1)] (Reading.next eof rest).2)
  | node : Runs eof turn (.read body) setting rest outcome →
      Runs eof turn (.read (.node kind body)) setting rest (outcome.map (Child.under kind))
  | label : Runs eof turn (.read body) setting rest outcome →
      Runs eof turn (.read (.label field body)) setting rest
        (outcome.map (Child.labelled (some field)))
  | enter : Runs eof ⟨room, .empty, rest.length⟩ (.read goal.form) setting rest outcome →
      Runs eof ⟨room + 1, loop, start⟩ (.read (.enter goal)) setting rest outcome
  | tooDeep : Runs eof ⟨0, loop, start⟩ (.read (.enter goal)) setting rest
      (Reading.fail eof (fun _ => .nestingTooDeep Grammar.maxNesting) rest)
  | choose {κ : Type} {look : Setting → Glance κ} {next : κ → Form} :
      Runs eof turn (.read (next ((look setting).run eof rest))) setting rest outcome →
      Runs eof turn (.read (.choose look next)) setting rest outcome
  | within : Runs eof turn (.read body) (scope.change setting) rest outcome →
      Runs eof turn (.read (.within scope body)) setting rest outcome
  | fix : Runs eof ⟨room, body, rest.length⟩ (.read body) setting rest outcome →
      Runs eof ⟨room, loop, start⟩ (.read (.fix body)) setting rest outcome
  | again : rest.length < start →
      Runs eof ⟨room, loop, rest.length⟩ (.read loop) setting rest outcome →
      Runs eof ⟨room, loop, start⟩ (.read .again) setting rest outcome
  | head : Runs eof turn (.read first) setting rest (.done children after) →
      Runs eof turn (.grow many look kind field tail children) setting after outcome →
      Runs eof turn (.read (.grow many first look kind field tail)) setting rest outcome
  | headFailed : Runs eof turn (.read first) setting rest (.failed error after) →
      Runs eof turn (.read (.grow many first look kind field tail)) setting rest
        (.failed error after)
  | grown : (look setting).run eof rest = none →
      Runs eof turn (.grow many look kind field tail children) setting rest (.done children rest)
  | growFailed : (look setting).run eof rest = some k →
      Runs eof turn (.read (tail k)) setting rest (.failed error after) →
      Runs eof turn (.grow many look kind field tail children) setting rest (.failed error after)
  | growOnce : (look setting).run eof rest = some k →
      Runs eof turn (.read (tail k)) setting rest (.done more after) →
      Runs eof turn (.grow false look kind field tail children) setting rest
        (.done (Child.under (kind k) (Child.labelled (field k) children ++ more)) after)
  | growOn : (look setting).run eof rest = some k →
      Runs eof turn (.read (tail k)) setting rest (.done more after) →
      after.length < rest.length →
      Runs eof turn (.grow true look kind field tail
        (Child.under (kind k) (Child.labelled (field k) children ++ more))) setting after outcome →
      Runs eof turn (.grow true look kind field tail children) setting rest outcome
  | lead : Runs eof turn (.read first) setting rest (.done children after) →
      (look setting).run eof after = some k →
      Runs eof turn (.read (tail k)) setting after outcome →
      Runs eof turn (.read (.lead first look kind tail otherwise)) setting rest
        (outcome.map fun more => Child.under (kind k) (children ++ more))
  | otherwise : Runs eof turn (.read first) setting rest (.done children after) →
      (look setting).run eof after = none →
      Runs eof turn (.read otherwise) setting rest outcome →
      Runs eof turn (.read (.lead first look kind tail otherwise)) setting rest outcome
  | leadFailed : Runs eof turn (.read first) setting rest (.failed error after) →
      Runs eof turn (.read (.lead first look kind tail otherwise)) setting rest
        (.failed error after)
  | guard : Runs eof turn (.read body) setting rest (.done children after) →
      Runs eof turn (.read (.guard body)) setting rest (.done children after)
  | recovered : Runs eof turn (.read body) setting rest (.failed error after) →
      Runs eof turn (.read (.guard body)) setting rest
        (.done [.node none (Recovery.node error (Recovery.region 0 true rest).1)]
          (Recovery.region 0 true rest).2)

namespace Runs

variable {eof : Padded} {turn : Turn} {work : Work} {setting : Setting} {rest : List Padded}
  {a b : Outcome}

/-- A run comes to one outcome only. -/
theorem unique (h : Runs eof turn work setting rest a) (h' : Runs eof turn work setting rest b) :
    a = b := by
  induction h generalizing b with
  | empty => cases h'; rfl
  | seq _ _ ih ih' =>
    cases h' with
    | seq first second =>
      cases ih first
      rw [ih' second]
    | seqFailed first => cases ih first
  | seqFailed _ ih =>
    cases h' with
    | seq first second => cases ih first
    | seqFailed first => exact ih first
  | take => cases h'; rfl
  | expect kind =>
    cases h' with
    | expect _ => rfl
    | expectFailed ne => exact absurd kind ne
  | expectFailed ne =>
    cases h' with
    | expect kind => exact absurd kind ne
    | expectFailed _ => rfl
  | refuse => cases h'; rfl
  | faulty => cases h'; rfl
  | node _ ih =>
    cases h' with
    | node inner => rw [ih inner]
  | label _ ih =>
    cases h' with
    | label inner => rw [ih inner]
  | enter _ ih =>
    cases h' with
    | enter inner => exact ih inner
  | tooDeep => cases h'; rfl
  | choose _ ih =>
    cases h' with
    | choose inner => exact ih inner
  | within _ ih =>
    cases h' with
    | within inner => exact ih inner
  | fix _ ih =>
    cases h' with
    | fix inner => exact ih inner
  | again _ _ ih =>
    cases h' with
    | again _ inner => exact ih inner
  | head _ _ ih ih' =>
    cases h' with
    | head first growth =>
      cases ih first
      exact ih' growth
    | headFailed first => cases ih first
  | headFailed _ ih =>
    cases h' with
    | head first growth => cases ih first
    | headFailed first => exact ih first
  | grown none =>
    cases h' with
    | grown _ => rfl
    | growFailed some _ => cases none.symm.trans some
    | growOnce some _ => cases none.symm.trans some
    | growOn some _ _ _ => cases none.symm.trans some
  | growFailed some _ ih =>
    cases h' with
    | grown none => cases none.symm.trans some
    | growFailed some' tail => cases some.symm.trans some'; exact ih tail
    | growOnce some' tail => cases some.symm.trans some'; cases ih tail
    | growOn some' tail _ _ => cases some.symm.trans some'; cases ih tail
  | growOnce some _ ih =>
    cases h' with
    | grown none => cases none.symm.trans some
    | growFailed some' tail => cases some.symm.trans some'; cases ih tail
    | growOnce some' tail => cases some.symm.trans some'; cases ih tail; rfl
  | growOn some _ _ _ ih ih' =>
    cases h' with
    | grown none => cases none.symm.trans some
    | growFailed some' tail => cases some.symm.trans some'; cases ih tail
    | growOn some' tail _ growth =>
      cases some.symm.trans some'
      cases ih tail
      exact ih' growth
  | lead _ some _ ih ih' =>
    cases h' with
    | lead first some' tail =>
      cases ih first
      cases some.symm.trans some'
      rw [ih' tail]
    | otherwise first none _ => cases ih first; cases none.symm.trans some
    | leadFailed first => cases ih first
  | otherwise _ none _ ih ih' =>
    cases h' with
    | lead first some _ => cases ih first; cases none.symm.trans some
    | otherwise first _ instead => exact ih' instead
    | leadFailed first => cases ih first
  | leadFailed _ ih =>
    cases h' with
    | lead first _ _ => cases ih first
    | otherwise first _ _ => cases ih first
    | leadFailed first => exact ih first
  | guard _ ih =>
    cases h' with
    | guard inner => exact ih inner
    | recovered inner => cases ih inner
  | recovered _ ih =>
    cases h' with
    | guard inner => cases ih inner
    | recovered inner => cases ih inner; rfl

end Runs

namespace Form

open Outcome (Covers)

variable {eof : Padded} {moved m : Bool} {known left : Known} {form body : Form}
  {a b : List Delimiter} {spot : Spot} {g : Bool}
  {deeper : Goal → Reading} {self : Reading} {room : Nat}

theorem guard_runs {turn : Turn} {setting : Setting} {rest : List Padded}
    (run : Runs eof turn (.read body) setting rest (body.read eof deeper self setting rest)) :
    Runs eof turn (.read (.guard body)) setting rest
      ((guard body).read eof deeper self setting rest) := by
  rw [read]
  cases ended : body.read eof deeper self setting rest with
  | done children after =>
    rw [ended] at run
    exact .guard run
  | failed error after =>
    rw [ended] at run
    exact .recovered run

theorem expect_runs {turn : Turn} {setting : Setting} {rest : List Padded} {kind : TokenKind}
    {field : Option Field} :
    Runs eof turn (.read (.expect kind field)) setting rest
      ((expect kind field).read eof deeper self setting rest) := by
  rw [read]
  split
  · next kind => exact .expect kind
  · next ne => exact .expectFailed ne

/-- A loop runs when a turn of it does that is given runs of the shorter ones. -/
theorem unrolled_runs (turns_cover : ∀ n setting rest, rest.length < n →
      Covers eof m (fun _ => True) rest
        (Reading.unrolled (fun self => body.read eof deeper self) n setting rest) [] [] g)
    (turn_runs : ∀ self setting rest,
      (∀ setting shorter, shorter.length < rest.length →
        Covers eof false (fun _ => True) shorter (self setting shorter) [] [] g) →
      (∀ setting shorter, shorter.length < rest.length →
        Runs eof ⟨room, body, shorter.length⟩ (.read body) setting shorter (self setting shorter)) →
      Runs eof ⟨room, body, rest.length⟩ (.read body) setting rest
        (body.read eof deeper self setting rest))
    (n : Nat) (setting : Setting) (rest : List Padded) (enough : rest.length < n) :
    Runs eof ⟨room, body, rest.length⟩ (.read body) setting rest
      (Reading.unrolled (fun self => body.read eof deeper self) n setting rest) := by
  induction n generalizing setting rest with
  | zero => cases enough
  | succ n ih =>
    refine turn_runs _ setting rest (fun setting shorter less => ?_) fun setting shorter less => ?_
    · have covers := turns_cover n setting shorter (by omega)
      exact covers.weaken (fun no => nomatch no) fun _ => id
    · exact ih setting shorter (by omega)

section Growth

variable {turn : Turn} {setting : Setting} {κ : Type} {look : Setting → Glance (Option κ)}
  {kind : κ → NodeKind} {field : κ → Option Field} {tail : κ → Form}

/-- What the next tokens add to the children, if they add anything. -/
def added (eof : Padded) (deeper : Goal → Reading) (self : Reading) (setting : Setting)
    (look : Setting → Glance (Option κ)) (kind : κ → NodeKind) (field : κ → Option Field)
    (tail : κ → Form) (children : List Child) (rest : List Padded) : Option Outcome :=
  ((look setting).run eof rest).map fun k =>
    ((tail k).read eof deeper self setting rest).map fun more =>
      Child.under (kind k) (Child.labelled (field k) children ++ more)

theorem growOnce_runs {children : List Child} {rest : List Padded}
    (tail_runs : ∀ k, (look setting).run eof rest = some k →
      Runs eof turn (.read (tail k)) setting rest ((tail k).read eof deeper self setting rest)) :
    Runs eof turn (.grow false look kind field tail children) setting rest
      (Reading.grown (added eof deeper self setting look kind field tail) 1 children rest) := by
  rw [Reading.grown, added]
  cases seen : (look setting).run eof rest with
  | none => exact .grown seen
  | some k =>
    have run := tail_runs k seen
    rw [Option.map_some]
    generalize (tail k).read eof deeper self setting rest = outcome at run ⊢
    cases outcome with
    | done more after => exact .growOnce seen run
    | failed error after => exact .growFailed seen run

/-- Growth that takes a token each time ends before it has gone on as often as tokens are left. -/
theorem growOn_runs {start : Nat}
    (tail_runs : ∀ k rest, rest.length < start → (look setting).run eof rest = some k →
      Runs eof turn (.read (tail k)) setting rest ((tail k).read eof deeper self setting rest)
        ∧ Covers eof true (fun _ => True) rest ((tail k).read eof deeper self setting rest) [] [] g)
    (n : Nat) (children : List Child) (rest : List Padded) (less : rest.length < start)
    (enough : rest.length < n) :
    Runs eof turn (.grow true look kind field tail children) setting rest
      (Reading.grown (added eof deeper self setting look kind field tail) n children rest) := by
  induction n generalizing children rest with
  | zero => cases enough
  | succ n ih =>
    rw [Reading.grown, added]
    cases seen : (look setting).run eof rest with
    | none => exact .grown seen
    | some k =>
      obtain ⟨run, covers⟩ := tail_runs k rest less seen
      rw [Option.map_some]
      generalize (tail k).read eof deeper self setting rest = outcome at run covers ⊢
      cases outcome with
      | failed error after => exact .growFailed seen run
      | done more after =>
        have shorter := covers.length_lt
        exact .growOn seen run shorter (ih _ after (by omega) (by omega))

end Growth

/-- A guarded form runs, and comes to what reading it gives, when the rules one level deeper do and
`again` does wherever fewer tokens are left. -/
theorem Guarded.runs (isEnd : eof.token.kind = .eof)
    (deeper_covers : ∀ goal setting rest,
      Covers eof goal.moves (fun _ => True) rest (deeper goal setting rest))
    (deeper_runs : ∀ loop start goal setting rest,
      Runs eof ⟨room, loop, start⟩ (.read (.enter goal)) setting rest (deeper goal setting rest))
    (h : Guarded eof moved known form m left a b spot g) {loop : Form} {start : Nat}
    (self_covers : ∀ setting rest, rest.length < start →
      Covers eof false (fun _ => True) rest (self setting rest) [] [] g)
    (self_runs : ∀ setting rest, rest.length < start →
      Runs eof ⟨room, loop, rest.length⟩ (.read loop) setting rest (self setting rest))
    (setting : Setting) (rest : List Padded) (knows : known rest) (within : rest.length ≤ start)
    (past : moved = true → rest.length < start) :
    Runs eof ⟨room, loop, start⟩ (.read form) setting rest
      (form.read eof deeper self setting rest) := by
  induction h generalizing self loop start setting rest with
  | empty => exact .empty
  | @seq _ _ _ _ _ _ first second _ _ _ _ _ guarded _ ih ih' =>
    have covers := guarded.covers isEnd deeper_covers self_covers setting rest knows within past
    have run := ih self_covers self_runs setting rest knows within past
    rw [read]
    generalize first.read eof deeper self setting rest = outcome at covers run ⊢
    cases outcome with
    | failed error after => exact .seqFailed run
    | done children after =>
      have later := ih' self_covers self_runs setting after covers.known
        (Nat.le_trans covers.length_le within) (covers.lt_start within past)
      rw [Outcome.andThen_done]
      exact .seq run later
  | takes there => exact .take
  | expects takes => exact expect_runs
  | refuse => exact .refuse
  | faulty wrong => exact .faulty
  | under _ _ ih => exact .node (ih self_covers self_runs setting rest knows within past)
  | leadingPoint _ ih =>
    exact .choose (.node (ih _ self_covers self_runs setting rest ⟨knows, rfl⟩ within past))
  | label _ ih => exact .label (ih self_covers self_runs setting rest knows within past)
  | enter _ => exact deeper_runs _ _ _ setting rest
  | changed _ => exact .within (deeper_runs _ _ _ _ rest)
  | choose _ ih =>
    exact .choose (ih _ self_covers self_runs setting rest ⟨knows, setting, rfl⟩ within past)
  | within _ _ ih => exact .within (ih self_covers self_runs _ rest knows within past)
  | fix guarded ih =>
    refine .fix (unrolled_runs (guarded.turns_cover isEnd deeper_covers)
      (fun self setting rest again again_runs => ?_) _ setting rest (Nat.lt_succ_self rest.length))
    exact ih again again_runs setting rest trivial (Nat.le_refl _) Bool.noConfusion
  | again => exact .again (past rfl) (self_runs setting rest (past rfl))
  | @growing _ many _ _ _ first look kind field tail _ g guarded _ tails ih ih' =>
    have covers := guarded.covers isEnd deeper_covers self_covers setting rest knows within past
    have run := ih self_covers self_runs setting rest knows within past
    rw [read]
    generalize first.read eof deeper self setting rest = outcome at covers run ⊢
    cases outcome with
    | failed error after => exact .headFailed run
    | done children after =>
      have shorter : after.length < start := Nat.lt_of_lt_of_le covers.length_lt within
      refine .head run ?_
      cases many with
      | false =>
        refine growOnce_runs fun k seen => ?_
        exact ih' k self_covers self_runs setting after ⟨setting, seen⟩ (Nat.le_of_lt shorter)
          fun _ => shorter
      | true =>
        refine growOn_runs (g := g) (fun k rest less seen => ⟨?_, ?_⟩) _ children after shorter
          (Nat.lt_succ_self after.length)
        · exact ih' k self_covers self_runs setting rest ⟨setting, seen⟩ (Nat.le_of_lt less)
            fun _ => less
        · exact (tails k).covers isEnd deeper_covers self_covers setting rest ⟨setting, seen⟩
            (Nat.le_of_lt less) fun _ => less
  | @lead _ _ _ _ _ first otherwise look kind tail _ _ guarded sound _ _ ih ih' ih'' =>
    have covers := guarded.covers isEnd deeper_covers self_covers setting rest knows within past
    have run := ih self_covers self_runs setting rest knows within past
    rw [read]
    generalize first.read eof deeper self setting rest = outcome at covers run ⊢
    cases outcome with
    | failed error after => exact .leadFailed run
    | done children after =>
      dsimp only
      split
      · next k found =>
        refine .lead run found (ih' k self_covers self_runs setting after ⟨setting, found⟩
          (Nat.le_trans covers.length_le within) fun moved => ?_)
        exact Nat.lt_of_le_of_lt covers.length_le (past moved)
      · next none =>
        exact .otherwise run none (ih'' self_covers self_runs setting rest knows within past)
  | guard _ _ ih => exact guard_runs (ih self_covers self_runs setting rest knows within past)
  | group _ _ ih =>
    have again (setting : Setting) (rest : List Padded) (less : rest.length < start) :=
      (self_covers setting rest less).anywhere (g := true)
    exact ih again self_runs setting rest knows within past
  | inside _ ih => exact ih self_covers self_runs setting rest knows within past
  | weaken _ weaker knows' moves left' ih =>
    exact ih self_covers self_runs setting rest (knows' rest knows) within fun moved =>
      past (weaker moved)

end Form

namespace Grammar

open Outcome (Covers)

variable {eof : Padded} (isEnd : eof.token.kind = .eof)
include isEnd

theorem level_runs (room : Nat) (loop : Form) (start : Nat) (goal : Goal) (setting : Setting)
    (rest : List Padded) :
    Runs eof ⟨room, loop, start⟩ (.read (.enter goal)) setting rest
      (level eof room goal setting rest) := by
  induction room generalizing loop start goal setting rest with
  | zero => exact .tooDeep
  | succ room ih =>
    refine .enter ((goal.form_safe isEnd).runs isEnd (level_covers isEnd room) ih
      (fun _ _ _ => .nothing trivial) (fun _ _ _ => .empty) setting rest trivial (Nat.le_refl _) ?_)
    exact fun no => nomatch no

/-- In the list of all statements a region that stands for a statement may be a closing brace with
nothing to close. It is a token all the same, so the list goes round with fewer tokens left. -/
theorem statements_runs (room : Nat) (setting : Setting) (rest : List Padded) :
    Runs eof ⟨room, .empty, rest.length⟩ (.read (statements .endOfInput)) setting rest
      (read eof room (statements .endOfInput) setting rest) := by
  have reads := @statements_induction eof isEnd .endOfInput room setting
    (fun rest children after => Runs eof ⟨room, .empty, rest.length⟩
      (.read (statements .endOfInput)) setting rest (.done children after)) ?_ ?_ ?_ rest
  · obtain ⟨children, after, ended, run⟩ := reads
    exact ended ▸ run
  · intro rest step
    refine .fix (.choose ?_)
    rw [step]
    exact .empty
  · intro t rest children after step run
    have first (turn : Turn) : Runs eof turn (.read (.take none)) setting (t :: rest)
        (.done (Child.ofPadded none t) rest) := .take
    rw [statements] at run
    cases run with
    | fix turn =>
      refine .fix (.choose ?_)
      rw [step]
      exact .seq (first _) (.again (Nat.lt_succ_self _) turn)
  · intro taken rest made children after step some_taken ended _ run
    have shorter : rest.length < (taken ++ rest).length := by
      have pos := List.length_pos_iff.mpr some_taken
      rw [List.length_append]
      omega
    have item (loop : Form) : Runs eof ⟨room, loop, (taken ++ rest).length⟩
        (.read (.guard (listItem .endOfInput))) setting (taken ++ rest) (.done made rest) := by
      rw [← ended]
      exact Form.guard_runs (level_runs isEnd room loop _ .statement setting (taken ++ rest))
    rw [statements] at run
    cases run with
    | fix turn =>
      refine .fix (.choose ?_)
      rw [step]
      exact .seq (item _) (.again shorter turn)

/-- A form that is free runs from any place to what reading it gives. -/
theorem runs_read {form : Form} {m : Bool} (h : Form.Free eof m form) (room : Nat)
    (setting : Setting) (rest : List Padded) :
    Runs eof ⟨room, .empty, rest.length⟩ (.read form) setting rest
      (read eof room form setting rest) := by
  cases h with
  | safe h =>
    exact h.runs isEnd (level_covers isEnd room) (level_runs isEnd room)
      (fun _ _ _ => .nothing trivial) (fun _ _ _ => .empty) setting rest trivial (Nat.le_refl _)
      fun no => nomatch no
  | statements => exact statements_runs isEnd room setting rest

end Grammar

end JaiTree
