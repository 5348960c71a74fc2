import JaiTree.Proofs.Grammar.Runs
import JaiTree.Proofs.Tree.Fresh

/-!
Calls: which forms are read, and where, while another form is read. From a place between the tokens
that are cut off together a form is read at such places only, unless it is a part of a string or of
an assembly block. Main statements: `Form.Guarded.arrives`, `Call.Sound.calls`,
`Call.Sound.quotedString_done`.
-/

namespace JaiTree

/-- What stands around a form: so many levels may still be opened in it, and `again` stands for one
more turn of a loop, of which there may be so many. -/
structure Around : Type 1 where
  room : Nat
  loop : Form
  turns : Nat

/-- What `again` comes to there. -/
def Around.again (eof : Padded) (around : Around) : Reading :=
  Reading.unrolled (fun self => around.loop.read eof (Grammar.level eof around.room) self)
    around.turns

/-- What a form comes to there. -/
def Around.read (eof : Padded) (around : Around) (form : Form) : Reading :=
  form.read eof (Grammar.level eof around.room) (around.again eof)

/-- Work that is about to be done from some place on. -/
structure Call : Type 1 where
  around : Around
  work : Work
  setting : Setting
  rest : List Padded

/-- The second call is made right inside the first. -/
inductive Calls (eof : Padded) : Call → Call → Prop where
  | first : Calls eof ⟨around, .read (.seq first second), setting, rest⟩
      ⟨around, .read first, setting, rest⟩
  | second : around.read eof first setting rest = .done children after →
      Calls eof ⟨around, .read (.seq first second), setting, rest⟩
        ⟨around, .read second, setting, after⟩
  | node : Calls eof ⟨around, .read (.node kind body), setting, rest⟩
      ⟨around, .read body, setting, rest⟩
  | label : Calls eof ⟨around, .read (.label field body), setting, rest⟩
      ⟨around, .read body, setting, rest⟩
  | enter : Calls eof ⟨⟨room + 1, loop, turns⟩, .read (.enter goal), setting, rest⟩
      ⟨⟨room, .empty, 0⟩, .read goal.form, setting, rest⟩
  | choose {κ : Type} {look : Setting → Glance κ} {next : κ → Form} :
      Calls eof ⟨around, .read (.choose look next), setting, rest⟩
        ⟨around, .read (next ((look setting).run eof rest)), setting, rest⟩
  | within : Calls eof ⟨around, .read (.within scope body), setting, rest⟩
      ⟨around, .read body, scope.change setting, rest⟩
  | fix : Calls eof ⟨⟨room, loop, turns⟩, .read (.fix body), setting, rest⟩
      ⟨⟨room, body, rest.length⟩, .read body, setting, rest⟩
  | again : Calls eof ⟨⟨room, loop, turns + 1⟩, .read .again, setting, rest⟩
      ⟨⟨room, loop, turns⟩, .read loop, setting, rest⟩
  | head : Calls eof ⟨around, .read (.grow many first look kind field tail), setting, rest⟩
      ⟨around, .read first, setting, rest⟩
  | growth : around.read eof first setting rest = .done children after →
      Calls eof ⟨around, .read (.grow many first look kind field tail), setting, rest⟩
        ⟨around, .grow many look kind field tail children, setting, after⟩
  | tail : (look setting).run eof rest = some k →
      Calls eof ⟨around, .grow many look kind field tail children, setting, rest⟩
        ⟨around, .read (tail k), setting, rest⟩
  | more : (look setting).run eof rest = some k →
      around.read eof (tail k) setting rest = .done made after →
      Calls eof ⟨around, .grow true look kind field tail children, setting, rest⟩
        ⟨around, .grow true look kind field tail
          (Child.under (kind k) (Child.labelled (field k) children ++ made)), setting, after⟩
  | led : Calls eof ⟨around, .read (.lead first look kind tail otherwise), setting, rest⟩
      ⟨around, .read first, setting, rest⟩
  | lead : around.read eof first setting rest = .done children after →
      (look setting).run eof after = some k →
      Calls eof ⟨around, .read (.lead first look kind tail otherwise), setting, rest⟩
        ⟨around, .read (tail k), setting, after⟩
  | otherwise : around.read eof first setting rest = .done children after →
      (look setting).run eof after = none →
      Calls eof ⟨around, .read (.lead first look kind tail otherwise), setting, rest⟩
        ⟨around, .read otherwise, setting, rest⟩
  | guard : Calls eof ⟨around, .read (.guard body), setting, rest⟩
      ⟨around, .read body, setting, rest⟩

/-- The second call is made while the first is, or is the first. -/
def Call.Leads (eof : Padded) : Call → Call → Prop := Relation.ReflTransGen (Calls eof)

theorem Takes.single {inGroup : Bool} {before after : List Delimiter} {kind : TokenKind}
    (takes : Takes inGroup before kind after) (outside : inGroup = false) :
    kind.beginsGroup = false :=
  Bool.eq_false_iff.mpr fun begins => by
    rw [takes.whole begins] at outside
    cases outside

namespace Form

variable {eof : Padded} {moved m : Bool} {known left : Known} {form : Form} {a b : List Delimiter}
  {spot : Spot} {g : Bool} {P : List Padded → Prop} (strides : Strides P)
include strides

/-- From such a place on the body or the region that stands for it ends at another. -/
theorem guard_strides {deeper : Goal → Reading} {self : Reading} {setting : Setting}
    {rest : List Padded} (place : P rest)
    (h : (form.read eof deeper self setting rest).Yields fun _ after => P after) :
    ((guard form).read eof deeper self setting rest).Yields fun _ after => P after := by
  rw [read]
  cases ended : form.read eof deeper self setting rest with
  | failed error after => exact Outcome.yields_done.mpr (strides.behind_region place 0 true)
  | done children after => rwa [ended] at h

/-- What is known behind a guarded form, and that from a place between the tokens that are cut off
together it ends at another, unless it stands among such tokens. -/
theorem Guarded.arrives (isEnd : eof.token.kind = .eof) {deeper : Goal → Reading}
    (deeper_strides : ∀ goal setting rest, P rest →
      (deeper goal setting rest).Yields fun _ after => P after)
    (h : Guarded eof moved known form m left a b spot g) {self : Reading}
    (self_strides : g = false → ∀ setting rest, P rest →
      (self setting rest).Yields fun _ after => P after)
    (setting : Setting) {rest : List Padded} (knows : known rest) :
    (form.read eof deeper self setting rest).Yields fun _ after =>
      left after ∧ (g = false → P rest → P after) := by
  induction h generalizing self setting rest with
  | empty => exact Outcome.yields_done.mpr ⟨knows, fun _ => id⟩
  | seq _ _ ih ih' =>
    refine (ih self_strides setting knows).andThen fun _ after front => ?_
    refine (ih' self_strides setting front.1).imp fun _ last back => ?_
    exact ⟨back.1, fun outside here => back.2 outside (front.2 outside here)⟩
  | takes there =>
    obtain ⟨t, ts, rfl, takes⟩ := there rest knows
    refine Outcome.yields_done.mpr ⟨⟨t, knows⟩, fun outside place => ?_⟩
    exact strides.behind_single place (takes.single outside)
  | expects takes =>
    rw [read]
    split
    · next found =>
      cases rest with
      | nil => exact absurd (found.symm.trans isEnd) takes.ne_eof
      | cons t ts =>
        obtain rfl : t.token.kind = _ := found
        refine Outcome.yields_done.mpr ⟨⟨t, knows⟩, fun outside place => ?_⟩
        exact strides.behind_single place (takes.single outside)
    · exact Outcome.yields_failed
  | refuse _ => exact Outcome.yields_failed
  | faulty wrong =>
    obtain ⟨t, ts, rfl, kind⟩ := wrong rest knows
    refine Outcome.yields_done.mpr ⟨trivial, fun _ place => ?_⟩
    exact strides.behind_single place (by rw [kind]; rfl)
  | under _ _ ih => exact Outcome.yields_map.mpr (ih self_strides setting knows)
  | leadingPoint _ ih => exact Outcome.yields_map.mpr (ih _ self_strides setting ⟨knows, rfl⟩)
  | label _ ih => exact Outcome.yields_map.mpr (ih self_strides setting knows)
  | enter _ =>
    exact fun _ _ ended => ⟨trivial, fun _ place => deeper_strides _ _ _ place _ _ ended⟩
  | changed _ =>
    exact fun _ _ ended => ⟨trivial, fun _ place => deeper_strides _ _ _ place _ _ ended⟩
  | choose _ ih => exact ih _ self_strides setting ⟨knows, setting, rfl⟩
  | within _ _ ih => exact ih self_strides _ knows
  | @fix _ _ _ _ _ g _ ih =>
    refine @Reading.unrolled_yields _ (fun rest _ after => True ∧ (g = false → P rest → P after))
      (fun _ => ⟨trivial, fun _ => id⟩) (fun self turn setting rest => ?_) _ setting rest
    refine ih (fun outside setting rest place => ?_) setting trivial
    exact (turn setting rest).imp fun _ _ holds => holds.2 outside place
  | again =>
    exact fun _ _ ended => ⟨trivial, fun outside place =>
      self_strides outside _ _ place _ _ ended⟩
  | growing _ _ _ ih ih' =>
    have head := (ih self_strides setting knows).imp fun _ _ holds => holds.2
    refine (grow_yields head fun k children after place found => ?_).imp fun _ _ holds =>
      ⟨trivial, holds⟩
    refine (ih' k self_strides setting ⟨setting, found⟩).imp fun _ last holds outside here => ?_
    exact holds.2 outside (place outside here)
  | lead _ _ _ _ ih ih' ih'' =>
    refine lead_yields (ih self_strides setting knows) ?_ (ih'' self_strides setting knows)
    intro k children after front found
    refine (ih' k self_strides setting ⟨setting, found⟩).imp fun _ last holds => ?_
    exact ⟨trivial, fun outside here => holds.2 outside (front.2 outside here)⟩
  | guard _ _ ih =>
    intro children after ended
    refine ⟨trivial, fun outside place => ?_⟩
    have body := (ih self_strides setting knows).imp fun _ _ holds => holds.2 outside place
    exact guard_strides strides place body children after ended
  | group groups _ ih =>
    have inside := @ih self (fun no => Bool.noConfusion no) setting rest knows
    refine (inside.and (groups.bundled isEnd knows)).imp ?_
    rintro _ after ⟨⟨known, -⟩, taken, rfl, bundle⟩
    exact ⟨known, fun _ place => strides.behind_group place bundle.grouped⟩
  | inside _ ih => exact ih self_strides setting knows
  | weaken _ _ knows' _ left' ih =>
    exact (ih self_strides setting (knows' rest knows)).imp fun _ after holds =>
      ⟨left' after holds.1, holds.2⟩

end Form

/-- The loop that `again` stands for is safe to read wherever it stands. -/
def Around.IsSafe (eof : Padded) (around : Around) : Prop :=
  ∃ m spot, Form.Safe eof m around.loop spot

section Places

variable {eof : Padded} (isEnd : eof.token.kind = .eof) {P : List Padded → Prop}
  (strides : Strides P) {around : Around} {setting : Setting} {rest : List Padded}
include isEnd strides

theorem Grammar.level_arrives (room : Nat) (goal : Goal) (place : P rest) :
    (level eof room goal setting rest).Yields fun _ after => P after := by
  induction room generalizing goal setting rest with
  | zero => exact Outcome.yields_failed
  | succ room ih =>
    have arrives : (goal.form.read eof (level eof room) nothing setting rest).Yields
        fun _ after => True ∧ (false = false → P rest → P after) :=
      (goal.form_safe isEnd).arrives strides isEnd (fun goal _ _ place => ih goal place)
        (fun _ _ _ place => Outcome.yields_done.mpr place) setting trivial
    exact arrives.imp fun _ _ holds => holds.2 rfl place

theorem Around.again_arrives (safe : around.IsSafe eof) (place : P rest) :
    (around.again eof setting rest).Yields fun _ after => P after := by
  obtain ⟨room, loop, turns⟩ := around
  obtain ⟨m, spot, safe⟩ := safe
  change Form.Safe eof m loop spot at safe
  induction turns generalizing setting rest with
  | zero => exact Outcome.yields_done.mpr place
  | succ turns ih =>
    have arrives : (loop.read eof (Grammar.level eof room) (again eof ⟨room, loop, turns⟩) setting
        rest).Yields fun _ after => True ∧ (false = false → P rest → P after) :=
      safe.arrives strides isEnd
        (fun goal _ _ place => Grammar.level_arrives isEnd strides room goal place)
        (fun _ _ _ place => ih place) setting trivial
    exact arrives.imp fun _ _ holds => holds.2 rfl place

/-- What is known behind a guarded form that is read from such a place on, and that it ends at
another. -/
theorem Around.read_arrives (safe : around.IsSafe eof) {moved m : Bool} {known left : Known}
    {form : Form} {a b : List Delimiter} {spot : Spot}
    (h : Form.Guarded eof moved known form m left a b spot) (knows : known rest)
    (place : P rest) :
    (around.read eof form setting rest).Yields fun _ after => left after ∧ P after := by
  have arrives : (around.read eof form setting rest).Yields
      fun _ after => left after ∧ (false = false → P rest → P after) :=
    h.arrives strides isEnd
      (fun goal _ _ place => Grammar.level_arrives isEnd strides around.room goal place)
      (fun _ _ _ place => Around.again_arrives isEnd strides safe place) setting knows
  exact arrives.imp fun _ _ holds => ⟨holds.1, holds.2 rfl place⟩

end Places

namespace Grammar

open Form

/-- A turn of the loop over the statements of a text. -/
def turnOfAll : Form := .choose (fun _ => listStep .endOfInput) fun
  | .stop => .empty
  | .semicolon => any ++ .again
  | .item => .guard statement ++ .again

theorem sourceFile_eq : sourceFile = .node .sourceFile (.fix turnOfAll ++ any) := rfl

/-- The parts of the rule for a whole text that stand in no other rule. -/
inductive OfAll (eof : Padded) : List Padded → Form → Prop where
  | sourceFile : OfAll eof rest (.node .sourceFile (.fix turnOfAll ++ any))
  | whole : OfAll eof rest (.fix turnOfAll ++ any)
  | statements : OfAll eof rest (.fix turnOfAll)
  | turn : OfAll eof rest turnOfAll
  | semicolon : (ahead eof rest 0).token.kind = .semicolon → OfAll eof rest (any ++ .again)
  | item : OfAll eof rest (.guard statement ++ .again)
  | guard : OfAll eof rest (.guard statement)
  | statement : OfAll eof rest statement
  | again : OfAll eof rest .again

end Grammar

/-- The call is made at a place between the tokens that are cut off together, of a form that goes on
from there to such places only, or it is of a part of a string or of an assembly block. -/
inductive Call.Sound (eof : Padded) (P : List Padded → Prop) : Call → Prop where
  | read {around : Around} {moved m : Bool} {known left : Known} {form : Form}
      {a b : List Delimiter} {spot : Spot} {setting : Setting} {rest : List Padded} :
      around.IsSafe eof → Form.Guarded eof moved known form m left a b spot → known rest →
      P rest → Sound eof P ⟨around, .read form, setting, rest⟩
  | node {around : Around} {moved m : Bool} {known left : Known} {kind : NodeKind} {body : Form}
      {spot : Spot} {setting : Setting} {rest : List Padded} :
      around.IsSafe eof → Form.Guarded eof moved known body m left [] [] spot → known rest →
      P rest → Sound eof P ⟨around, .read (.node kind body), setting, rest⟩
  | grow {around : Around} {many m : Bool} {κ : Type} {look : Setting → Glance (Option κ)}
      {kind : κ → NodeKind} {field : κ → Option Field} {tail : κ → Form} {spot : Spot}
      {children : List Child} {setting : Setting} {rest : List Padded} :
      around.IsSafe eof →
      (∀ k, Form.Guarded eof true (fun rest => ∃ setting, (look setting).run eof rest = some k)
        (tail k) m (fun _ => True) [] [] spot) →
      P rest → Sound eof P ⟨around, .grow many look kind field tail children, setting, rest⟩
  | fragment {around : Around} {inLoop : Bool} {form : Form} {setting : Setting}
      {rest : List Padded} :
      form.IsFragment inLoop → (inLoop = true → around.loop.IsFragment true) →
      Sound eof P ⟨around, .read form, setting, rest⟩
  | ofAll {around : Around} {form : Form} {setting : Setting} {rest : List Padded} :
      (around.turns = 0 ∨ around.loop = Grammar.turnOfAll) → Grammar.OfAll eof rest form →
      P rest → Sound eof P ⟨around, .read form, setting, rest⟩

namespace Call

variable {eof : Padded} {P : List Padded → Prop} {around : Around} {call next : Call}
  {setting : Setting} {rest : List Padded}

theorem sound_of_fragment {form : Form} {inLoop : Bool} (fragment : form.IsFragment inLoop)
    (loop : inLoop = true → around.loop.IsFragment true)
    (calls : Calls eof ⟨around, .read form, setting, rest⟩ next) : Sound eof P next := by
  cases calls with
  | first => exact .fragment fragment.1 loop
  | second => exact .fragment fragment.2 loop
  | node => exact .fragment fragment.2 loop
  | label => exact .fragment fragment loop
  | choose => exact .fragment (fragment _) loop
  | fix => exact .fragment fragment fun _ => fragment
  | again => exact .fragment (loop fragment) fun _ => loop fragment
  | enter | within | head | growth | led | lead | otherwise | guard => exact fragment.elim

variable (isEnd : eof.token.kind = .eof) (strides : Strides P)
include isEnd strides

theorem sound_of_guarded {moved m : Bool} {known left : Known} {form : Form}
    {a b : List Delimiter} {spot : Spot} {g : Bool} (safe : around.IsSafe eof)
    (h : Form.Guarded eof moved known form m left a b spot g) (outside : g = false)
    (knows : known rest) (place : P rest)
    (calls : Calls eof ⟨around, .read form, setting, rest⟩ next) : Sound eof P next := by
  induction h generalizing next with
  | empty | takes | expects | refuse | faulty => cases calls
  | seq first second _ _ =>
    subst outside
    cases calls with
    | first => exact .read safe first knows place
    | second ended =>
      obtain ⟨known, later⟩ := Around.read_arrives isEnd strides safe first knows place _ _ ended
      exact .read safe second known later
  | under _ body _ =>
    subst outside
    cases calls
    exact .read safe body knows place
  | leadingPoint bodies _ =>
    subst outside
    cases calls
    exact .node safe (bodies _) ⟨knows, rfl⟩ place
  | label body _ =>
    subst outside
    cases calls
    exact .read safe body knows place
  | @enter _ _ goal _ _ =>
    cases calls
    exact .read ⟨_, .anywhere, .empty⟩ (goal.form_safe isEnd) trivial place
  | changed _ =>
    cases calls
    exact .read safe (Form.Safe.enter _ id) trivial place
  | choose bodies _ =>
    subst outside
    cases calls
    exact .read safe (bodies _) ⟨knows, _, rfl⟩ place
  | within changes body _ =>
    cases calls
    exact .read safe body knows place
  | fix body _ =>
    subst outside
    cases calls
    exact .read ⟨_, _, body⟩ body trivial place
  | again =>
    subst outside
    cases calls
    obtain ⟨m, spot, loop⟩ := safe
    exact .read ⟨m, spot, loop⟩ loop trivial place
  | growing first fits tails _ _ =>
    subst outside
    cases calls with
    | head => exact .read safe first knows place
    | growth ended =>
      obtain ⟨-, later⟩ := Around.read_arrives isEnd strides safe first knows place _ _ ended
      exact .grow safe tails later
  | lead first _ tails otherwise _ _ _ =>
    subst outside
    cases calls with
    | led => exact .read safe first knows place
    | lead ended found =>
      obtain ⟨-, later⟩ := Around.read_arrives isEnd strides safe first knows place _ _ ended
      exact .read safe (tails _) ⟨_, found⟩ later
    | otherwise _ _ => exact .read safe otherwise knows place
  | guard _ body _ =>
    subst outside
    cases calls
    exact .read safe body knows place
  | group groups _ _ =>
    obtain ⟨kind, body, rfl, fragment⟩ := groups.node
    cases calls
    exact .fragment fragment fun no => nomatch no
  | inside _ ih => exact ih outside knows calls
  | weaken _ _ knows' _ _ ih => exact ih outside (knows' _ knows) calls

theorem sound_of_ofAll {form : Form}
    (loop : around.turns = 0 ∨ around.loop = Grammar.turnOfAll) (part : Grammar.OfAll eof rest form)
    (place : P rest) (calls : Calls eof ⟨around, .read form, setting, rest⟩ next) :
    Sound eof P next := by
  cases part with
  | sourceFile =>
    cases calls
    exact .ofAll loop .whole place
  | whole =>
    cases calls with
    | first => exact .ofAll loop .statements place
    | second _ => exact @Sound.fragment eof P around false _ _ _ trivial fun no => nomatch no
  | statements =>
    cases calls
    exact .ofAll (.inr rfl) .turn place
  | turn =>
    cases calls
    dsimp only
    cases step : (Grammar.listStep .endOfInput).run eof rest with
    | stop => exact @Sound.fragment eof P around false _ _ _ trivial fun no => nomatch no
    | semicolon => exact .ofAll loop (.semicolon (Grammar.listStep_semicolon step)) place
    | item => exact .ofAll loop .item place
  | semicolon kind =>
    cases calls with
    | first => exact @Sound.fragment eof P around false _ _ _ trivial fun no => nomatch no
    | second ended =>
      cases rest with
      | nil => exact absurd (kind.symm.trans isEnd) (by decide)
      | cons t ts =>
        cases ended
        have single : t.token.kind.beginsGroup = false := by
          rw [show t.token.kind = .semicolon from kind]
          rfl
        exact .ofAll loop .again (strides.behind_single place single)
  | item =>
    cases calls with
    | first => exact .ofAll loop .guard place
    | second ended =>
      have statement : (around.read eof Grammar.statement setting rest).Yields
          fun _ after => P after :=
        Grammar.level_arrives isEnd strides around.room .statement place
      have later := Form.guard_strides strides place statement _ _ ended
      exact .ofAll loop .again later
  | guard =>
    cases calls
    exact .ofAll loop .statement place
  | statement =>
    cases calls
    exact .read ⟨_, .anywhere, .empty⟩ (Goal.statement.form_safe isEnd) trivial place
  | again =>
    cases calls
    obtain rfl : _ = Grammar.turnOfAll := loop.resolve_left (Nat.succ_ne_zero _)
    exact .ofAll (.inr rfl) .turn place

/-- What a call makes at such a place is made at such a place, or is a part of a string or of an
assembly block. -/
theorem Sound.calls (sound : Sound eof P call) (calls : Calls eof call next) :
    Sound eof P next := by
  cases sound with
  | read safe h knows place => exact sound_of_guarded isEnd strides safe h rfl knows place calls
  | node safe body knows place =>
    cases calls
    exact .read safe body knows place
  | grow safe tails place =>
    cases calls with
    | tail found => exact .read safe (tails _) ⟨_, found⟩ place
    | more found ended =>
      obtain ⟨-, later⟩ :=
        Around.read_arrives isEnd strides safe (tails _) ⟨_, found⟩ place _ _ ended
      exact .grow safe tails later
  | fragment fragment loop => exact sound_of_fragment fragment loop calls
  | ofAll loop part place => exact sound_of_ofAll isEnd strides loop part place calls

theorem Sound.leads (sound : Sound eof P call) (leads : Leads eof call next) :
    Sound eof P next := by
  induction leads with
  | refl => exact sound
  | tail _ calls ih => exact ih.calls isEnd strides calls

end Call

section Strings

variable {eof t quote : Padded} {deeper : Goal → Reading} {self : Reading} {setting : Setting}
  {pieces rest : List Padded}

theorem Grammar.atStringPiece_run :
    atStringPiece.run eof rest = (ahead eof rest 0).token.kind.isStringPiece := by
  rw [atStringPiece, Glance.run_bind, Glance.run_kindAt]
  generalize (ahead eof rest 0).token.kind = kind
  cases kind <;> rfl

theorem Grammar.stringPiece_done :
    ∃ children, stringPiece.read eof deeper self setting (t :: rest) = .done children rest := by
  rw [stringPiece, Form.onSight, Form.read]
  split
  all_goals exact ⟨_, rfl⟩

/-- The loop over the pieces of a string goes up to its closing quote. -/
theorem Grammar.stringPieces_done (sound : ∀ p ∈ pieces, p.token.kind.isStringPiece = true)
    (closing : quote.token.kind = .doubleQuote) :
    ∃ children, (Form.many atStringPiece stringPiece).read eof deeper self setting
      (pieces ++ quote :: rest) = .done children (quote :: rest) := by
  rw [Form.many, Form.read]
  have enough : pieces.length < (pieces ++ quote :: rest).length + 1 := by
    rw [List.length_append]
    omega
  generalize (pieces ++ quote :: rest).length + 1 = turns at enough
  induction pieces generalizing turns with
  | nil =>
    obtain ⟨turns, rfl⟩ := Nat.exists_eq_succ_of_ne_zero (Nat.ne_of_gt enough)
    have stops : atStringPiece.run eof (quote :: rest) = false := by
      rw [atStringPiece_run, show (ahead eof (quote :: rest) 0).token.kind = _ from closing]
      rfl
    rw [Reading.unrolled, Form.ifelse, Form.read, List.nil_append, stops]
    exact ⟨[], rfl⟩
  | cons p ps ih =>
    rw [List.forall_mem_cons] at sound
    rw [List.length_cons] at enough
    obtain ⟨turns, rfl⟩ := Nat.exists_eq_succ_of_ne_zero (Nat.ne_of_gt (Nat.zero_lt_of_lt enough))
    obtain ⟨more, ended⟩ := ih sound.2 turns (Nat.lt_of_succ_lt_succ enough)
    have goes : atStringPiece.run eof (p :: (ps ++ quote :: rest)) = true :=
      atStringPiece_run.trans sound.1
    rw [Reading.unrolled]
    generalize Reading.unrolled _ turns = self at ended ⊢
    obtain ⟨first, taken⟩ := @stringPiece_done eof p deeper self setting (ps ++ quote :: rest)
    refine ⟨first ++ more, ?_⟩
    rw [Form.ifelse, Form.read, List.cons_append, goes]
    change (stringPiece.read eof deeper self setting _).andThen (self setting) = _
    rw [taken, Outcome.andThen_done, ended]
    rfl

/-- A string that begins at a place between the tokens that are cut off together is read up to its
closing quote. -/
theorem Grammar.quotedString_done {P : List Padded → Prop} (strides : Strides P) (place : P rest)
    (ended : eof.token.kind = .eof) (opening : (ahead eof rest 0).token.kind = .doubleQuote) :
    ∃ children after, quotedString.read eof deeper self setting rest = .done children after := by
  cases rest with
  | nil => exact absurd (opening.symm.trans ended) (by decide)
  | cons t rest =>
    obtain ⟨trail, after, rfl, trails, -⟩ := strides t rest place
    have kind : t.token.kind = .doubleQuote := opening
    generalize kinds : kindsOf trail = others at trails
    rw [kind] at trails
    cases trails with
    | nothing ne => exact absurd rfl ne
    | @quotedString inner sound =>
      obtain ⟨pieces, last, rfl, rfl, lastKinds⟩ := List.map_eq_append_iff.mp kinds
      obtain ⟨quote, none, rfl, closing, nothing⟩ := List.map_eq_cons_iff.mp lastKinds
      obtain rfl := List.map_eq_nil_iff.mp nothing
      have sound (p : Padded) (member : p ∈ pieces) : p.token.kind.isStringPiece = true :=
        sound _ (List.mem_map_of_mem member)
      obtain ⟨more, pieces_ended⟩ :=
        @stringPieces_done eof quote deeper self setting pieces after sound closing
      have begins (p : Padded) (rest : List Padded) (quote : p.token.kind = .doubleQuote) :
          (Form.token .doubleQuote).read eof deeper self setting (p :: rest)
            = .done (Child.ofPadded none p) rest := by
        rw [Form.token, Form.read]
        exact if_pos quote
      refine ⟨Child.under .stringLiteral
        (Child.ofPadded none t ++ more ++ Child.ofPadded none quote), after, ?_⟩
      change (Outcome.andThen (Outcome.andThen ((Form.token .doubleQuote).read eof deeper self
        setting _) _) _).map _ = _
      rw [begins t _ kind, Outcome.andThen_done, List.append_assoc]
      change (Outcome.andThen (((Form.many atStringPiece stringPiece).read eof deeper self setting
        (pieces ++ quote :: after)).map _) _).map _ = _
      rw [pieces_ended]
      change (Outcome.andThen (Outcome.done _ _) _).map _ = _
      rw [Outcome.andThen_done, begins quote _ closing]
      rfl

end Strings

/-- A call of a string between quotes that is made at a quote is done. -/
theorem Call.Sound.quotedString_done {eof : Padded} (isEnd : eof.token.kind = .eof)
    {P : List Padded → Prop} (strides : Strides P) {around : Around} {setting : Setting}
    {rest : List Padded}
    (sound : Call.Sound eof P ⟨around, .read Grammar.quotedString, setting, rest⟩)
    (opening : (ahead eof rest 0).token.kind = .doubleQuote) :
    ∃ children after,
      around.read eof Grammar.quotedString setting rest = .done children after := by
  suffices place : P rest from Grammar.quotedString_done strides place isEnd opening
  generalize string : Grammar.quotedString = form at sound
  cases sound with
  | read _ _ _ place | node _ _ _ place | ofAll _ _ place => exact place
  | fragment fragment _ =>
    rw [← string] at fragment
    exact absurd fragment.1 (by decide)

end JaiTree
