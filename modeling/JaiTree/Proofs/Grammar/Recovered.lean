import JaiTree.Proofs.Grammar.Progress
import JaiTree.Proofs.Tree.Built

/-!
Recovered regions: where the region that stands for a failure ends. Of all runs of tokens from
there on it is the shortest one that comes to a place where parsing can go on. Main statement:
`Cursor.recovered_shortest`.
-/

namespace JaiTree

namespace Recovery

/-- Parsing can go on between the tokens `run`, before which `depth` braces are open, and those
after them, even where `run` is empty. -/
inductive Resumes (depth : Nat) : (run after : List Padded) → Prop where
  | semicolon {inner after : List Padded} {t : Padded} :
      depthAfter depth inner = some 0 → t.token.kind = .semicolon →
      Resumes depth (inner ++ [t]) after
  | closeCurly {inner after : List Padded} {t : Padded} :
      depthAfter depth inner = some 1 → t.token.kind = .closeCurly →
      Resumes depth (inner ++ [t]) after
  | beforeClose {run after : List Padded} {t : Padded} :
      depthAfter depth run = some 0 → t.token.kind = .closeCurly → Resumes depth run (t :: after)
  | endOfInput {run : List Padded} : Resumes depth run []

/-- The tokens `run` get past a failure: they end with a semicolon outside braces, with the brace
that closes the last one open, before one that was opened before them, or with the input, or they
are a closing brace alone. -/
def GetsPast (run after : List Padded) : Prop :=
  Resumes 0 run after ∨ ∃ t, run = [t] ∧ t.token.kind = .closeCurly

variable {depth inner : Nat} {run after tokens : List Padded} {t : Padded}

theorem depthAfter_cons (one : depthAfter depth [t] = some inner) (more : List Padded) :
    depthAfter depth (t :: more) = depthAfter inner more := by
  rw [← List.singleton_append, depthAfter_append, one, Option.bind_some]

theorem Resumes.cons (one : depthAfter depth [t] = some inner) (h : Resumes inner run after) :
    Resumes depth (t :: run) after := by
  cases h with
  | semicolon outside kind =>
    rw [← List.cons_append]
    exact .semicolon (by rw [depthAfter_cons one, outside]) kind
  | closeCurly last kind =>
    rw [← List.cons_append]
    exact .closeCurly (by rw [depthAfter_cons one, last]) kind
  | beforeClose outside kind => exact .beforeClose (by rw [depthAfter_cons one, outside]) kind
  | endOfInput => exact .endOfInput

/-- Behind a token where parsing cannot go on, it goes on where it does from that token on. -/
theorem Resumes.of_cons (one : depthAfter depth [t] = some inner)
    (h : Resumes depth (t :: run) after) (no_end : t.token.kind = .semicolon → depth ≠ 0)
    (no_close : t.token.kind = .closeCurly → depth ≠ 1) : Resumes inner run after := by
  generalize split : t :: run = tokens at h
  cases h with
  | @semicolon before _ last outside kind =>
    cases before with
    | nil =>
      obtain ⟨rfl, -⟩ := List.cons.inj split
      exact absurd (Option.some.inj outside) (no_end kind)
    | cons u us =>
      obtain ⟨rfl, rfl⟩ := List.cons.inj split
      exact .semicolon (by rw [← depthAfter_cons one, outside]) kind
  | @closeCurly before _ last open_one kind =>
    cases before with
    | nil =>
      obtain ⟨rfl, -⟩ := List.cons.inj split
      exact absurd (Option.some.inj open_one) (no_close kind)
    | cons u us =>
      obtain ⟨rfl, rfl⟩ := List.cons.inj split
      exact .closeCurly (by rw [← depthAfter_cons one, open_one]) kind
  | beforeClose outside kind =>
    subst split
    exact .beforeClose (by rw [← depthAfter_cons one, outside]) kind
  | endOfInput => exact .endOfInput

/-- Where parsing can go on without a token, none is left or a brace closes what is around. -/
theorem Resumes.of_nil (h : Resumes depth run after) (none : run = []) :
    after = [] ∨ depth = 0 ∧ ∃ t ∈ after.head?, t.token.kind = .closeCurly := by
  cases h with
  | semicolon _ _ => exact absurd none (List.append_ne_nil_of_right_ne_nil _ (by simp))
  | closeCurly _ _ => exact absurd none (List.append_ne_nil_of_right_ne_nil _ (by simp))
  | @beforeClose _ _ t outside kind =>
    subst none
    exact .inr ⟨Option.some.inj outside, t, rfl, kind⟩
  | endOfInput => exact .inl rfl

/-- Of the tokens, those of `run` are the fewest behind which parsing can go on. -/
structure Shortest (depth : Nat) (run after : List Padded) : Prop where
  resumes : Resumes depth run after
  length_le : ∀ run' after', run ++ after = run' ++ after' → Resumes depth run' after' →
    run.length ≤ run'.length

namespace Shortest

/-- Before a token that closes nothing around it parsing cannot go on. -/
theorem pos_of_resumes {run' after' : List Padded} (one : t.token.kind = .closeCurly → depth ≠ 0)
    (split : t :: tokens = run' ++ after') (h : Resumes depth run' after') : 0 < run'.length := by
  apply List.length_pos_iff.mpr
  intro none
  rw [none, List.nil_append] at split
  rcases h.of_nil none with ended | ⟨zero, u, head, kind⟩
  · rw [ended] at split
    cases split
  · rw [← split] at head
    cases head
    exact one kind zero

theorem semicolon (kind : t.token.kind = .semicolon) : Shortest 0 [t] after where
  resumes := by
    rw [← List.nil_append [t]]
    exact .semicolon rfl kind
  length_le _ _ split later :=
    pos_of_resumes (fun close => by rw [kind] at close; cases close) split later

theorem closeCurly (kind : t.token.kind = .closeCurly) : Shortest 1 [t] after where
  resumes := by
    rw [← List.nil_append [t]]
    exact .closeCurly rfl kind
  length_le _ _ split later := pos_of_resumes (fun _ => Nat.one_ne_zero) split later

theorem beforeClose (kind : t.token.kind = .closeCurly) : Shortest 0 [] (t :: after) where
  resumes := .beforeClose rfl kind
  length_le _ _ _ _ := Nat.zero_le _

theorem endOfInput : Shortest depth [] [] where
  resumes := .endOfInput
  length_le _ _ _ _ := Nat.zero_le _

/-- A token is part of the run where parsing goes on neither before nor behind it. -/
theorem cons (one : depthAfter depth [t] = some inner)
    (no_end : t.token.kind = .semicolon → depth ≠ 0)
    (no_close : t.token.kind = .closeCurly → depth ≠ 1) (h : Shortest inner run after) :
    Shortest depth (t :: run) after where
  resumes := h.resumes.cons one
  length_le run' after' split later := by
    have goes_on : t.token.kind = .closeCurly → depth ≠ 0 := by
      rintro kind rfl
      simp [depthAfter, kind] at one
    have pos := pos_of_resumes goes_on split later
    obtain ⟨u, us, rfl⟩ := List.exists_cons_of_length_pos pos
    rw [List.cons_append, List.cons_append] at split
    obtain ⟨rfl, parts⟩ := List.cons.inj split
    have fewer := h.length_le us after' parts (later.of_cons one no_end no_close)
    exact Nat.succ_le_succ fewer

end Shortest

/-- Behind its first token a region takes the fewest tokens behind which parsing can go on. -/
theorem region_shortest (depth : Nat) (tokens : List Padded) :
    Shortest depth (region depth false tokens).1 (region depth false tokens).2 := by
  induction tokens generalizing depth with
  | nil => exact .endOfInput
  | cons t ts ih =>
    rw [region]
    split
    · next kind =>
      have one : depthAfter depth [t] = some (depth + 1) := by simp [depthAfter, kind]
      exact .cons one (by simp [kind]) (by simp [kind]) (ih (depth + 1))
    · next kind =>
      split
      · next outside =>
        obtain rfl : depth = 0 := by simpa using outside
        exact .beforeClose kind
      · next inside =>
        have around : depth ≠ 0 := by simpa using inside
        split
        · next last =>
          obtain rfl : depth = 1 := by omega
          exact .closeCurly kind
        · next more =>
          have one : depthAfter depth [t] = some (depth - 1) := by simp [depthAfter, kind, around]
          exact .cons one (by simp [kind]) (fun _ => by omega) (ih (depth - 1))
    · next kind =>
      split
      · next outside =>
        rw [outside]
        exact .semicolon kind
      · next inside =>
        have one : depthAfter depth [t] = some depth := by simp [depthAfter, kind]
        exact .cons one (fun _ => inside) (by simp [kind]) (ih depth)
    · next ne_open ne_close ne_end =>
      have one := depthAfter_singleton ne_open ne_close depth
      apply Shortest.cons one
      · intro kind
        exact absurd kind ne_end
      · intro kind
        exact absurd kind ne_close
      · exact ih depth

/-- A region as a whole differs from any other part of it only in that it may begin with a brace
that closes one opened before it, and is then nothing but that brace. -/
theorem region_first (t : Padded) (ts : List Padded) :
    region 0 true (t :: ts)
      = if t.token.kind = .closeCurly then ([t], ts) else region 0 false (t :: ts) := by
  rw [region, region]
  split
  · next kind => simp [kind]
  · next kind => simp [kind]
  · next kind => simp [kind]
  · next ne_close _ =>
    have ne_close' : t.token.kind ≠ .closeCurly := ne_close
    simp [ne_close']

/-- The children of the error node are the tokens of the region, each behind its trivia. -/
theorem node_children (failure : Diagnostic) (region : List Padded) :
    (node failure region).children = (region.flatMap Padded.tokens).map (.leaf none) := by
  change region.flatMap (Child.ofPadded none) = _
  rw [List.map_flatMap]
  refine List.flatMap_congr fun p _ => ?_
  simp [Child.ofPadded, Padded.tokens]

/-- Of the runs that get past a failure, the region is the shortest one. -/
theorem region_getsPast (some_token : tokens ≠ []) :
    GetsPast (region 0 true tokens).1 (region 0 true tokens).2
      ∧ ∀ run after, tokens = run ++ after → run ≠ [] → GetsPast run after →
        (region 0 true tokens).1.length ≤ run.length := by
  obtain ⟨t, ts, rfl⟩ := List.exists_cons_of_ne_nil some_token
  rw [region_first]
  split
  · next close =>
    refine ⟨.inr ⟨t, rfl, close⟩, fun run after _ some_taken _ => ?_⟩
    exact List.length_pos_iff.mpr some_taken
  · next ne_close =>
    have shortest := region_shortest 0 (t :: ts)
    have whole := region_append 0 false (t :: ts)
    refine ⟨.inl shortest.resumes, fun run after split _ past => ?_⟩
    rcases past with resumes | ⟨u, rfl, close⟩
    · exact shortest.length_le run after (whole.trans split) resumes
    · obtain ⟨rfl, -⟩ := List.cons.inj split
      exact absurd close ne_close

end Recovery

namespace Cursor

/-- Where a guarded form fails, the reading goes on behind a run of tokens. They are the leaves of
one error node, each behind its trivia, and of all runs of tokens that get past the failure theirs
is the shortest one. Unless it begins with a closing brace, it closes no brace but those that it
opens, and if tokens are left, it closes all of these. -/
theorem recovered_shortest {cursor failed : Cursor} {form : Form} {error : Diagnostic}
    (fails : cursor.read form = (.error error, failed)) (some_token : cursor.rest ≠ []) :
    ∃ run after, run ≠ [] ∧ cursor.rest = run ++ after
      ∧ cursor.read (.guard form) = (.ok [.node none (Recovery.node error run)],
          { cursor with position := cursor.position + run.length })
      ∧ (Recovery.node error run).kind = .error
      ∧ (Recovery.node error run).children = (run.flatMap Padded.tokens).map (.leaf none)
      ∧ Recovery.GetsPast run after
      ∧ (∀ run' after', cursor.rest = run' ++ after' → run' ≠ [] → Recovery.GetsPast run' after' →
        run.length ≤ run'.length)
      ∧ ((∀ t ∈ run.head?, t.token.kind ≠ .closeCurly) →
        Kept 0 run ∧ (after ≠ [] → depthAfter 0 run = some 0)) := by
  have some_region := Recovery.region_ne_nil 0 some_token
  have whole := Recovery.region_append 0 true cursor.rest
  obtain ⟨getsPast, shortest⟩ := Recovery.region_getsPast some_token
  obtain ⟨position, -⟩ := leaving_append whole.symm
  refine ⟨_, _, some_region, whole.symm, ?_, rfl, Recovery.node_children _ _, getsPast, shortest,
    ?_⟩
  · rw [read_guard_of_error fails, ← position]
    rfl
  · intro first
    have balanced := Recovery.region_balanced 0 true cursor.rest fun _ _ t head => by
      obtain ⟨ts, split⟩ := List.head?_eq_some_iff.mp head
      intro close
      refine first t ?_ close
      rw [split, Recovery.region_first, if_pos close]
      rfl
    exact ⟨balanced.kept, fun some_left => balanced.closed some_left 0⟩

/-- A failure before a block is gone past where the block is closed, behind the semicolon in it. -/
theorem recovered_shortest_block :
    let cursor := Cursor.ofText ") \x7b a; \x7d; b"
    ∃ error failed, cursor.read Grammar.statement = (.error error, failed) ∧ cursor.rest ≠ []
      ∧ ∃ run after, run.length = 5 ∧ cursor.rest = run ++ after ∧ Recovery.GetsPast run after
        ∧ ∀ run' after', cursor.rest = run' ++ after' → run' ≠ [] →
          Recovery.GetsPast run' after' → run.length ≤ run'.length := by
  intro cursor
  have fails : (cursor.read Grammar.statement).1.toOption.isNone = true := by decide +kernel
  have some_token : cursor.rest ≠ [] := by decide +kernel
  have moved : (cursor.read (.guard Grammar.statement)).2.position = 5 := by decide +kernel
  rcases found : cursor.read Grammar.statement with ⟨result, failed⟩
  rw [found] at fails
  cases result with
  | ok children => cases fails
  | error error =>
    obtain ⟨run, after, -, split, guarded, -, -, past, shortest, -⟩ :=
      recovered_shortest found some_token
    rw [guarded] at moved
    have length : run.length = 5 := (Nat.zero_add _).symm.trans moved
    exact ⟨error, failed, rfl, some_token, run, after, length, split, past, shortest⟩

end Cursor

end JaiTree
