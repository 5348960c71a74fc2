import JaiTree.Proofs.Grammar.Coverage
import JaiTree.Proofs.Grammar.Forward
import JaiTree.Proofs.Grammar.Placed
import JaiTree.Proofs.Tree.Listing

/-!
Room for levels: what a rule makes of the tokens without an error stays the same with room for more
levels. Main statement: `Grammar.level_keeps`.
-/

namespace JaiTree

/-- No node at and below the children is an error. -/
def Clean (children : List Child) : Prop := ∀ n ∈ descendantsOf children, n.isError = false

/-- Whatever the first comes to without an error, the second comes to as well. Where errors do not
matter, the second still ends at the same place. -/
def Outcome.Keeps (loose : Bool) (outcome outcome' : Outcome) : Prop :=
  ∀ children after, outcome = .done children after → loose = true ∨ Clean children →
    ∃ children', outcome' = .done children' after ∧ (Clean children → children' = children)

/-- What is read leaves the tokens from some place on. -/
def Reading.GoesForward (reading : Reading) : Prop :=
  ∀ setting rest, (reading setting rest).left <:+ rest

/-- The second reading keeps what the first comes to, wherever it is done among the tokens. -/
def Reading.Keeps (tokens : List Padded) (loose : Bool) (reading reading' : Reading) : Prop :=
  ∀ setting rest, rest <:+ tokens →
    Outcome.Keeps loose (reading setting rest) (reading' setting rest)

section

variable {children more : List Child}

theorem clean_append : Clean (children ++ more) ↔ Clean children ∧ Clean more := by
  rw [Clean, descendantsOf_append]
  exact List.forall_mem_append

theorem Clean.of_under {kind : NodeKind} (h : Clean (Child.under kind children)) :
    Clean children := by
  rw [Clean, descendantsOf_under] at h
  exact (List.forall_mem_cons.mp h).2

theorem clean_labelled {field : Option Field} :
    Clean (Child.labelled field children) ↔ Clean children := by
  cases field with
  | none => rfl
  | some field => rw [Clean, Clean, Child.labelled, descendantsOf_relabel]

theorem not_clean_region (failure : Diagnostic) (region : List Padded) :
    ¬ Clean [.node none (Recovery.node failure region)] := by
  rw [Clean, descendantsOf_region, List.forall_mem_singleton]
  exact nofun

end

namespace Outcome.Keeps

variable {loose : Bool} {outcome outcome' : Outcome}

theorem refl (outcome : Outcome) : Keeps loose outcome outcome :=
  fun children _ ended _ => ⟨children, ended, fun _ => rfl⟩

theorem failed {error : Diagnostic} {rest : List Padded} :
    Keeps loose (.failed error rest) outcome' := nofun

theorem map {f : List Child → List Child} (h : Keeps loose outcome outcome')
    (clean : ∀ children, Clean (f children) → Clean children) :
    Keeps loose (outcome.map f) (outcome'.map f) := by
  cases outcome with
  | failed error rest => exact failed
  | done children rest =>
    rintro _ _ ⟨⟩ enough
    obtain ⟨children', rfl, same⟩ := h children rest rfl (enough.imp_right (clean children))
    exact ⟨f children', rfl, fun whole => congrArg f (same (clean children whole))⟩

theorem andThen {next next' : List Padded → Outcome} (h : Keeps loose outcome outcome')
    (h' : ∀ children after, outcome = .done children after →
      Keeps loose (next after) (next' after)) :
    Keeps loose (outcome.andThen next) (outcome'.andThen next') := by
  cases outcome with
  | failed error rest => exact failed
  | done children rest =>
    have later := h' children rest rfl
    intro whole after ended enough
    rw [Outcome.andThen_done] at ended
    cases found : next rest with
    | failed error last =>
      rw [found] at ended
      cases ended
    | done more last =>
      rw [found] at ended
      cases ended
      rw [clean_append] at enough
      obtain ⟨children', rfl, same⟩ := h children rest rfl (enough.imp_right And.left)
      obtain ⟨more', found', same'⟩ := later more _ found (enough.imp_right And.right)
      refine ⟨children' ++ more', by rw [Outcome.andThen_done, found']; rfl, fun clean => ?_⟩
      rw [clean_append] at clean
      rw [same clean.1, same' clean.2]

end Outcome.Keeps

namespace Reading

variable {tokens : List Padded} {loose : Bool}

theorem unrolled_keeps {step step' : Reading → Reading}
    (forward : ∀ self : Reading, self.GoesForward → (step self).GoesForward)
    (h : ∀ self self', self.GoesForward → Keeps tokens loose self self' →
      Keeps tokens loose (step self) (step' self')) (n : Nat) :
    Keeps tokens loose (unrolled step n) (unrolled step' n) := by
  induction n with
  | zero => exact fun _ _ _ => .refl _
  | succ n ih => exact h _ _ (unrolled_suffix forward n) ih

/-- What has grown is clean only if it was so before. -/
theorem grown_clean {add : List Child → List Padded → Option Outcome}
    (clean : ∀ children rest outcome, add children rest = some outcome →
      outcome.Yields fun more _ => Clean more → Clean children)
    (n : Nat) (children : List Child) (rest : List Padded) :
    (grown add n children rest).Yields fun more _ => Clean more → Clean children :=
  @grown_yields add (fun more _ => Clean more → Clean children)
    (fun _ _ _ before added => (clean _ _ _ added).imp fun _ _ whole more => before (whole more))
    n children rest id

/-- Children that grow alike from the same place on. In a strict reading children that are not clean
do not matter: nothing clean grows out of them. -/
theorem grown_keeps {add add' : List Child → List Padded → Option Outcome}
    (clean : ∀ children rest outcome, add children rest = some outcome →
      outcome.Yields fun more _ => Clean more → Clean children)
    (suffix : ∀ children rest outcome, add children rest = some outcome → outcome.left <:+ rest)
    (alike : ∀ children children' rest, rest <:+ tokens → (Clean children → children' = children) →
      (add children rest = none ∧ add' children' rest = none)
        ∨ ∃ outcome outcome', add children rest = some outcome ∧ add' children' rest = some outcome'
          ∧ outcome.Keeps loose outcome')
    (n : Nat) {children children' : List Child} {rest : List Padded} (inside : rest <:+ tokens)
    (same : Clean children → children' = children) :
    (grown add n children rest).Keeps loose (grown add' n children' rest) := by
  have stays : (Outcome.done children rest).Keeps loose (.done children' rest) := by
    rintro _ _ ⟨⟩ -
    exact ⟨children', rfl, same⟩
  induction n generalizing children children' rest with
  | zero => exact stays
  | succ n ih =>
    rw [grown, grown]
    rcases alike children children' rest inside same with
      ⟨none, none'⟩ | ⟨outcome, outcome', added, added', keeps⟩
    · rw [none, none']
      exact stays
    · rw [added, added']
      cases outcome with
      | failed error after => exact .failed
      | done more after =>
        have left := suffix children rest _ added
        intro last final ended enough
        have whole := grown_clean clean n more after last final ended
        obtain ⟨more', rfl, same'⟩ := keeps more after rfl (enough.imp_right whole)
        refine ih (left.trans inside) same' ?_ last final ended enough
        rintro _ _ ⟨⟩ -
        exact ⟨more', rfl, same'⟩

end Reading

/-- The rules one level deeper, with more room for levels in the second. A statement that holds
errors may end elsewhere there. -/
structure LevelsKeep (tokens : List Padded) (deeper deeper' : Goal → Reading) : Prop where
  forward : ∀ goal, (deeper goal).GoesForward
  strict : ∀ goal, (deeper goal).Keeps tokens false (deeper' goal)
  loose : ∀ goal, goal ≠ .statement → (deeper goal).Keeps tokens true (deeper' goal)

namespace Form

variable {eof : Padded} {tokens : List Padded} {deeper deeper' : Goal → Reading}
  {self self' : Reading} {loose e : Bool} {loop place : Place}

theorem guard_keeps {body : Form} (h : Reading.Keeps tokens false (body.read eof deeper self)
      (body.read eof deeper' self')) :
    Reading.Keeps tokens false ((guard body).read eof deeper self)
      ((guard body).read eof deeper' self') := by
  intro setting rest inside
  rw [read, read]
  cases ended : body.read eof deeper self setting rest with
  | failed error after =>
    rintro _ _ ⟨⟩ enough
    exact absurd (enough.resolve_left Bool.false_ne_true) (not_clean_region _ _)
  | done children after =>
    rintro _ _ ⟨⟩ enough
    obtain ⟨children', found, same⟩ := h setting rest inside children after ended enough
    exact ⟨children', by rw [found], same⟩

/-- What grows around clean children is clean only if they are. -/
theorem clean_added {kind : NodeKind} {field : Option Field} {children more : List Child}
    (whole : Clean (Child.under kind (Child.labelled field children ++ more))) :
    Clean children ∧ Clean more := by
  rw [← @clean_labelled children field]
  exact clean_append.mp whole.of_under

/-- What is added to children, where what is added is kept and they are the same if clean. -/
theorem added_keeps {kind : NodeKind} {field : Option Field} {children children' : List Child}
    {outcome outcome' : Outcome} (h : outcome.Keeps loose outcome')
    (same : Clean children → children' = children) :
    (outcome.map fun more => Child.under kind (Child.labelled field children ++ more)).Keeps loose
      (outcome'.map fun more => Child.under kind (Child.labelled field children' ++ more)) := by
  cases outcome with
  | failed error rest => exact .failed
  | done more rest =>
    rintro _ _ ⟨⟩ enough
    obtain ⟨more', rfl, same'⟩ := h more rest rfl (enough.imp_right fun whole =>
      (clean_added whole).2)
    refine ⟨_, rfl, fun whole => ?_⟩
    rw [same (clean_added whole).1, same' (clean_added whole).2]

section Growth

variable {κ : Type} {many : Bool} {first otherwise : Form} {look : Setting → Glance (Option κ)}
  {kind : κ → NodeKind} {field : κ → Option Field} {tail : κ → Form}
  (deeper_forward : ∀ goal, (deeper goal).GoesForward) (forward : self.GoesForward)
include deeper_forward forward

theorem grow_keeps
    (head : Reading.Keeps tokens loose (first.read eof deeper self) (first.read eof deeper' self'))
    (tails : ∀ k, Reading.Keeps tokens loose ((tail k).read eof deeper self)
      ((tail k).read eof deeper' self')) :
    Reading.Keeps tokens loose ((grow many first look kind field tail).read eof deeper self)
      ((grow many first look kind field tail).read eof deeper' self') := by
  intro setting rest inside
  have left : (first.read eof deeper self setting rest).left <:+ rest :=
    first.read_suffix deeper_forward forward setting rest
  rw [read, read]
  cases ended : first.read eof deeper self setting rest with
  | failed error after => exact .failed
  | done children after =>
    rw [ended] at left
    dsimp only
    intro last final found enough
    have clean (children : List Child) (rest : List Padded) (outcome : Outcome)
        (added : ((look setting).run eof rest).map (fun k =>
          ((tail k).read eof deeper self setting rest).map fun more =>
            Child.under (kind k) (Child.labelled (field k) children ++ more)) = some outcome) :
        outcome.Yields fun more _ => Clean more → Clean children := by
      obtain ⟨k, -, rfl⟩ := Option.map_eq_some_iff.mp added
      rw [Outcome.yields_map]
      exact fun more after _ whole => (clean_added whole).1
    have whole := Reading.grown_clean clean _ children after last final found
    obtain ⟨children', ended', same⟩ := head setting rest inside children after ended
      (enough.imp_right whole)
    rw [ended']
    refine Reading.grown_keeps clean (fun children rest outcome added => ?_)
      (fun children children' rest inside same => ?_) _ (left.trans inside) same last final found
      enough
    · obtain ⟨k, -, rfl⟩ := Option.map_eq_some_iff.mp added
      rw [Outcome.left_map]
      exact (tail k).read_suffix deeper_forward forward setting rest
    · cases (look setting).run eof rest with
      | none => exact .inl ⟨rfl, rfl⟩
      | some k =>
        refine .inr ⟨_, _, rfl, rfl, ?_⟩
        exact added_keeps (tails k setting rest inside) same

/-- What is given back may have been read with errors: it still ends at the same place, and so the
same follows. -/
theorem lead_keeps
    (head : Reading.Keeps tokens true (first.read eof deeper self) (first.read eof deeper' self'))
    (tails : ∀ k, Reading.Keeps tokens false ((tail k).read eof deeper self)
      ((tail k).read eof deeper' self'))
    (instead : Reading.Keeps tokens false (otherwise.read eof deeper self)
      (otherwise.read eof deeper' self')) :
    Reading.Keeps tokens false ((lead first look kind tail otherwise).read eof deeper self)
      ((lead first look kind tail otherwise).read eof deeper' self') := by
  intro setting rest inside
  have left : (first.read eof deeper self setting rest).left <:+ rest :=
    first.read_suffix deeper_forward forward setting rest
  have head := head setting rest inside
  rw [read, read]
  cases ended : first.read eof deeper self setting rest with
  | failed error after => exact .failed
  | done children after =>
    rw [ended] at left head
    obtain ⟨children', ended', same⟩ := head children after rfl (.inl rfl)
    rw [ended']
    dsimp only
    split
    · next k _ =>
      intro whole last found enough
      exact @added_keeps false (kind k) none _ _ _ _ (tails k setting after (left.trans inside))
        same whole last found enough
    · exact instead setting rest inside

end Growth

theorem Fills.keeps {form : Form} (h : Fills e loop place form)
    (levels : LevelsKeep tokens deeper deeper') (allowed : loose = true → e = true)
    (forward : self.GoesForward) (again : self.Keeps tokens loose self') :
    Reading.Keeps tokens loose (form.read eof deeper self) (form.read eof deeper' self') := by
  induction h generalizing self self' loose with
  | empty | take | expect | refuse | faulty => exact fun _ _ _ => .refl _
  | @seq _ _ _ first second _ _ ih ih' =>
    intro setting rest inside
    refine (ih allowed forward again setting rest inside).andThen fun children after ended => ?_
    have left : (first.read eof deeper self setting rest).left <:+ rest :=
      first.read_suffix levels.forward forward setting rest
    rw [ended] at left
    exact ih' allowed forward again setting after (left.trans inside)
  | under _ _ _ ih =>
    exact fun setting rest inside => (ih allowed forward again setting rest inside).map
      fun _ => Clean.of_under
  | parameters _ ih =>
    exact fun setting rest inside => (ih allowed forward again _ rest inside).map
      fun _ => Clean.of_under
  | returns same _ ih =>
    rw [same]
    exact fun setting rest inside => (ih allowed forward again setting rest inside).map
      fun _ => Clean.of_under
  | @part _ _ _ _ field _ _ _ ih =>
    exact fun setting rest inside => (ih allowed forward again setting rest inside).map
      fun _ => (@clean_labelled _ (some field)).mp
  | @enter _ _ _ goal _ enclosed =>
    cases loose with
    | false => exact levels.strict goal
    | true => exact levels.loose goal (enclosed (allowed rfl))
  | choose _ ih => exact fun setting rest => ih _ allowed forward again setting rest
  | within _ ih => exact fun setting rest => ih allowed forward again _ rest
  | @fix _ _ _ body _ ih =>
    exact fun setting rest => Reading.unrolled_keeps
      (fun self forward => body.read_suffix levels.forward forward)
      (fun self self' forward again => ih allowed forward again) _ setting rest
  | again => exact again
  | grow _ _ _ _ _ ih tails =>
    exact grow_keeps levels.forward forward (ih allowed forward again)
      fun k => tails k allowed forward again
  | @lead _ _ _ first _ _ _ _ loops _ _ _ _ _ ih tails ih' =>
    obtain rfl : loose = false := Bool.eq_false_iff.mpr fun isLoose => nomatch allowed isLoose
    have head : Reading.Keeps tokens true (first.read eof deeper self)
        (first.read eof deeper' self') := by
      obtain ⟨body, rfl⟩ := loops
      exact @ih Grammar.nothing Grammar.nothing true id (fun _ _ => List.suffix_rfl)
        fun _ _ _ => .refl _
    exact lead_keeps levels.forward forward head (fun k => tails k allowed forward again)
      (ih' allowed forward again)
  | guard _ ih =>
    obtain rfl : loose = false := Bool.eq_false_iff.mpr fun isLoose => nomatch allowed isLoose
    exact guard_keeps (ih allowed forward again)
  | cases _ ih => exact ih allowed forward again
  | weaken _ _ ih => exact ih allowed forward again

end Form

namespace Grammar

variable {eof : Padded} {room room' : Nat} {setting : Setting} {tokens rest : List Padded}

theorem listStep_stop_inside (seen : (listStep .closeCurly).run eof rest = .stop) :
    (ahead eof rest 0).token.kind = .eof ∨ (ahead eof rest 0).token.kind = .closeCurly := by
  rw [listStep, Glance.run_bind, Glance.run_kindAt] at seen
  split at seen
  · next kind => exact .inl kind
  · cases seen
  · next kind => exact .inr kind
  · rw [if_neg (by decide)] at seen
    cases seen

section

variable (isEnd : eof.token.kind = .eof)
include isEnd

/-- A list of statements never fails, and it goes on up to where it has to stop. -/
theorem statements_stop (listEnd : ListEnd) (room : Nat) (setting : Setting)
    (rest : List Padded) : ∃ children after,
      read eof room (statements listEnd) setting rest = .done children after
        ∧ (listStep listEnd).run eof after = .stop := by
  refine @statements_induction eof isEnd listEnd room setting
    (fun _ _ after => (listStep listEnd).run eof after = .stop) ?_ ?_ ?_ rest
  · exact fun rest stops => stops
  · exact fun _ _ _ _ _ stops => stops
  · exact fun _ _ _ _ _ _ _ _ _ stops => stops

/-- The statements of a block keep to their braces, up to where nothing or a closing brace is
left. -/
theorem blockItems_balanced (no_end : ∀ p ∈ rest, p.token.kind ≠ .eof) (room : Nat)
    (setting : Setting) : ∃ children taken after,
      level eof (room + 1) .blockItems setting rest = .done children after ∧ rest = taken ++ after
        ∧ Balanced 0 0 taken after ∧ ∀ t ∈ after.head?, t.token.kind = .closeCurly := by
  obtain ⟨children, after, ended, stops⟩ :=
    statements_stop isEnd .closeCurly room (Scope.block.change setting) rest
  change level eof (room + 1) .blockItems setting rest = .done children after at ended
  have covers : Outcome.Covers eof false (fun _ => True) rest (.done children after) :=
    ended ▸ level_covers isEnd (room + 1) .blockItems setting rest
  cases covers with
  | done taken split _ balanced _ _ =>
    refine ⟨children, taken, after, ended, split, balanced, fun t here => ?_⟩
    obtain ⟨ts, rfl⟩ := List.head?_eq_some_iff.mp here
    exact (listStep_stop_inside stops).resolve_left
      (no_end t (split ▸ List.mem_append_right taken List.mem_cons_self))

end

end Grammar

/-- What keeps to its braces up to where nothing or a closing brace is left goes on as far as
anything that keeps to its braces. -/
theorem Balanced.length_le_of_closes {taken after passed more : List Padded}
    (h : Balanced 0 0 taken after) (closes : ∀ t ∈ after.head?, t.token.kind = .closeCurly)
    (kept : Kept 0 passed) (split : taken ++ after = passed ++ more) :
    passed.length ≤ taken.length := by
  cases after with
  | nil =>
    have total := congrArg List.length split
    rw [List.length_append, List.length_append, List.length_nil] at total
    omega
  | cons t ts => exact h.length_le (closes t rfl) kept split

namespace Grammar

variable {eof : Padded} (isEnd : eof.token.kind = .eof) {tokens : List Padded}
  (no_end : ∀ p ∈ tokens, p.token.kind ≠ .eof)
include isEnd no_end

/-- Whatever room there is, the statements of a block end at the same place: both times they are
balanced, and only a brace that closes the block ends them. -/
theorem blockItems_end (room room' : Nat) (setting : Setting) {rest : List Padded}
    (inside : rest <:+ tokens) : ∃ children children' after,
      level eof (room + 1) .blockItems setting rest = .done children after
        ∧ level eof (room' + 1) .blockItems setting rest = .done children' after := by
  have rest_no_end (p) (member : p ∈ rest) := no_end p (inside.subset member)
  obtain ⟨children, taken, after, ended, split, balanced, closes⟩ :=
    blockItems_balanced isEnd rest_no_end room setting
  obtain ⟨children', taken', after', ended', split', balanced', closes'⟩ :=
    blockItems_balanced isEnd rest_no_end room' setting
  have same := split.symm.trans split'
  have le := balanced.length_le_of_closes closes balanced'.kept same
  have ge := balanced'.length_le_of_closes closes' balanced.kept same.symm
  obtain ⟨-, rfl⟩ := List.append_inj same (Nat.le_antisymm ge le)
  exact ⟨children, children', after, ended, ended'⟩

/-- With room for more levels a rule makes the same of what it reads without an error, and a rule of
operands or of the statements in a block ends at the same place even with errors: these stand
between braces, and it is the braces that such a rule goes by. -/
theorem level_keeps {room room' : Nat} (more : room ≤ room') :
    LevelsKeep tokens (level eof room) (level eof room') := by
  induction room generalizing room' with
  | zero => exact ⟨level_suffix eof 0, fun _ _ _ _ => .failed, fun _ _ _ _ _ => .failed⟩
  | succ room ih =>
    obtain ⟨room', rfl⟩ : ∃ k, room' = k + 1 := ⟨room' - 1, by omega⟩
    have deeper := ih (Nat.le_of_succ_le_succ more)
    have forward : nothing.GoesForward := fun _ _ => List.suffix_rfl
    have again {loose : Bool} : nothing.Keeps tokens loose nothing := fun _ _ _ => .refl _
    have strict (goal : Goal) :
        (level eof (room + 1) goal).Keeps tokens false (level eof (room' + 1) goal) :=
      (@Goal.form_fills goal .operand).keeps deeper nofun forward again
    refine ⟨level_suffix eof (room + 1), strict, fun goal other => ?_⟩
    cases goal with
    | statement => exact absurd rfl other
    | expression floor =>
      exact (@Goal.form_enclosed _ (.inr ⟨floor, rfl⟩) .operand).keeps deeper id forward again
    | type => exact (@Goal.form_enclosed _ (.inl rfl) .operand).keeps deeper id forward again
    | blockItems =>
      intro setting rest inside
      obtain ⟨children, children', after, found, found'⟩ :=
        blockItems_end isEnd no_end room room' setting inside
      have kept := strict .blockItems setting rest inside
      rw [found, found'] at kept ⊢
      rintro _ _ ⟨⟩ -
      refine ⟨children', rfl, fun clean => ?_⟩
      obtain ⟨_, ⟨⟩, same⟩ := kept children after rfl (.inr clean)
      exact same clean

/-- With room for more levels a whole text makes the same, if it holds no error. -/
theorem sourceFile_keeps {room room' : Nat} (more : room ≤ room') :
    Reading.Keeps tokens false (read eof room sourceFile) (read eof room' sourceFile) :=
  (@sourceFile_fills .operand .operand).keeps (level_keeps isEnd no_end more) nofun
    (fun _ _ => List.suffix_rfl) fun _ _ _ => .refl _

end Grammar

end JaiTree
