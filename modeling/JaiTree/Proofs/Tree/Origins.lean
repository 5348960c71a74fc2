import JaiTree.Proofs.Tree.Precedence

/-!
Origins: every node of a tree comes of a rule that was read from a place among the tokens. Main
statement: `parse_sourced`.
-/

namespace JaiTree

namespace Form

/-- Forms in which `again` stands inside loops only. -/
def Closed : Form → Prop
  | .again => False
  | .seq first second => first.Closed ∧ second.Closed
  | .node _ body | .label _ body | .within _ body | .guard body => body.Closed
  | .choose _ next => ∀ k, (next k).Closed
  | .grow _ first _ _ _ tail => first.Closed ∧ ∀ k, (tail k).Closed
  | .lead first _ _ tail otherwise => first.Closed ∧ (∀ k, (tail k).Closed) ∧ otherwise.Closed
  | .empty | .take _ | .expect _ _ | .refuse _ | .faulty | .enter _ | .fix _ => True

/-- Where `again` stands inside loops only, it does not matter what it stands for outside. -/
theorem read_closed {eof : Padded} {deeper : Goal → Reading} {form : Form} (closed : form.Closed)
    (self self' : Reading) (setting : Setting) (rest : List Padded) :
    form.read eof deeper self setting rest = form.read eof deeper self' setting rest := by
  induction form generalizing setting rest with
  | again => exact closed.elim
  | seq first second ih ih' =>
    have later := funext fun rest => ih' closed.2 setting rest
    rw [read, read, ih closed.1, later]
  | node kind body ih | label field body ih => rw [read, read, ih closed]
  | within _ body ih => exact ih closed _ _
  | guard body ih => rw [read, read, ih closed]
  | choose look next ih => exact ih _ (closed _) setting rest
  | grow many first look kind field tail ih ih' =>
    rw [read, read, ih closed.1]
    have tails (k : _) := funext fun rest => ih' k (closed.2 k) setting rest
    simp only [tails]
  | lead first look kind tail otherwise ih ih' ih'' =>
    have tails (k : _) (rest : List Padded) := ih' k (closed.2.1 k) setting rest
    simp only [read, ih closed.1, tails, ih'' closed.2.2]
  | empty | take | expect | refuse | faulty | enter | fix => rfl

theorem closed_opt {allowed : Sight → Bool} {body : Form} (closed : body.Closed) :
    (opt allowed body).Closed := by
  intro s
  dsimp only
  split
  · exact closed
  · exact trivial

theorem closed_ifelse {look : Glance Bool} {yes no : Form} (closed : yes.Closed)
    (closed' : no.Closed) : (ifelse look yes no).Closed := by
  intro holds
  cases holds with
  | true => exact closed
  | false => exact closed'

theorem closed_items {close : TokenKind} {item : Form} (closed : item.Closed) :
    (items close item).Closed :=
  closed_opt ⟨closed, trivial⟩

theorem Frames.closed {eof : Padded} {known : Known} {kind : NodeKind} {body : Form}
    (frames : Frames eof known (.node kind body)) : body.Closed := by
  cases frames with
  | block | structBody | enumBody | quotedString => exact ⟨⟨trivial, trivial⟩, trivial⟩
  | asmBlock _ => exact ⟨⟨⟨⟨trivial, trivial⟩, trivial⟩, closed_opt trivial⟩, trivial⟩
  | hereString => exact ⟨⟨⟨trivial, trivial⟩, closed_opt trivial⟩, trivial⟩

end Form

namespace Grammar

open Form

theorem argument_closed : argument.Closed :=
  @closed_ifelse (assignsAt 0) _ _ ⟨⟨trivial, trivial⟩, trivial⟩ trivial

theorem compositeElement_closed : compositeElement.Closed :=
  @closed_ifelse (assignsAt 0) _ _ ⟨⟨trivial, trivial⟩, trivial⟩
    (@closed_ifelse assignsMember _ _ ⟨⟨⟨trivial, trivial⟩, trivial⟩, trivial⟩ trivial)

theorem growthBody_closed (growth : Growth) : (growthBody growth).Closed := by
  cases growth with
  | binary power => exact ⟨trivial, trivial⟩
  | member => exact ⟨trivial, trivial⟩
  | composite => exact ⟨⟨⟨trivial, trivial⟩, closed_items compositeElement_closed⟩, trivial⟩
  | array => exact ⟨⟨⟨trivial, trivial⟩, @closed_items .closeBracket expression trivial⟩, trivial⟩
  | index => exact ⟨⟨trivial, trivial, fun _ => ⟨trivial, trivial⟩⟩, trivial⟩
  | call => exact ⟨⟨trivial, closed_items argument_closed⟩, trivial⟩

end Grammar

/-- What each turn of a loop yields among the tokens when the turns after it do, the loop does. -/
theorem Reading.unrolled_inside {tokens rest : List Padded} {inv : Post} {step : Reading → Reading}
    (nothing : ∀ rest, rest <:+ tokens → inv [] rest)
    (h : ∀ self : Reading, (∀ setting rest, rest <:+ tokens → (self setting rest).Yields inv) →
      ∀ setting rest, rest <:+ tokens → (step self setting rest).Yields inv)
    (n : Nat) (setting : Setting) (inside : rest <:+ tokens) :
    (unrolled step n setting rest).Yields inv := by
  induction n generalizing setting rest with
  | zero => exact Outcome.yields_done.mpr (nothing rest inside)
  | succ n ih => exact h _ (fun setting rest inside => ih setting inside) setting rest inside

/-- Where a node comes from: it is an error node, or one of those that hold whatever their rule
takes, or it holds what a rule that it is known by took from some place among the tokens on. -/
inductive Sourced (eof : Padded) (tokens : List Padded) : Node → Prop where
  | error {n : Node} : n.isError = true → Sourced eof tokens n
  | plain {kind : NodeKind} {children : List Child} : kind.isFramed = false →
      (∀ growth : Growth, kind ≠ growth.kind) → Sourced eof tokens (.sound kind children)
  | framed {known : Known} {kind : NodeKind} {body : Form} {room : Nat} {setting : Setting}
      {rest after : List Padded} {children : List Child} :
      Form.Frames eof known (.node kind body) → known rest → rest <:+ tokens →
      Grammar.read eof room body setting rest = .done children after →
      Sourced eof tokens (.sound kind children)
  | grown {growth : Growth} {room : Nat} {setting : Setting} {rest after : List Padded}
      {head more : List Child} : (head = [] ∨ ∃ n, head = [.node (some growth.field) n]) →
      rest <:+ tokens →
      Grammar.read eof room (Grammar.growthBody growth) setting rest = .done more after →
      Sourced eof tokens (.sound growth.kind (head ++ more))

theorem NodeKind.ne_growth {kind : NodeKind} (plain : kind.isOperation = false) (growth : Growth) :
    kind ≠ growth.kind := by
  rintro rfl
  cases growth <;> cases plain

theorem Sourced.sound {eof : Padded} {tokens : List Padded} {kind : NodeKind}
    {children : List Child} (sound : kind.isSound = true) :
    Sourced eof tokens (.sound kind children) :=
  .plain (NodeKind.not_isFramed sound) (NodeKind.ne_growth (NodeKind.not_isOperation sound))

/-- All nodes come from the tokens, and so does what follows them. -/
def AllSourced (eof : Padded) (tokens : List Padded) : Post := fun children after =>
  after <:+ tokens ∧ ∀ n ∈ descendantsOf children, Sourced eof tokens n

section

variable {eof : Padded} {tokens rest after : List Padded} {children more : List Child}

theorem allSourced_nil (inside : rest <:+ tokens) : AllSourced eof tokens [] rest :=
  ⟨inside, fun _ none => nomatch none⟩

theorem allSourced_ofPadded (field : Option Field) (padded : Padded) (inside : rest <:+ tokens) :
    AllSourced eof tokens (Child.ofPadded field padded) rest := by
  refine ⟨inside, ?_⟩
  rw [descendantsOf_ofPadded]
  exact fun _ none => nomatch none

theorem allSourced_next (field : Option Field) (inside : rest <:+ tokens) :
    AllSourced eof tokens (Child.ofPadded field (Reading.next eof rest).1)
      (Reading.next eof rest).2 :=
  allSourced_ofPadded field _ ((Reading.next_suffix eof rest).trans inside)

theorem allSourced_append (h : AllSourced eof tokens children rest)
    (h' : AllSourced eof tokens more after) : AllSourced eof tokens (children ++ more) after := by
  refine ⟨h'.1, ?_⟩
  rw [descendantsOf_append]
  exact List.forall_mem_append.mpr ⟨h.2, h'.2⟩

theorem allSourced_labelled {field : Option Field} (h : AllSourced eof tokens children rest) :
    AllSourced eof tokens (Child.labelled field children) rest := by
  cases field with
  | none => exact h
  | some field =>
    refine ⟨h.1, ?_⟩
    rw [Child.labelled, descendantsOf_relabel]
    exact h.2

theorem allSourced_under {kind : NodeKind} (whole : Sourced eof tokens (.sound kind children))
    (parts : AllSourced eof tokens children rest) :
    AllSourced eof tokens (Child.under kind children) rest := by
  refine ⟨parts.1, ?_⟩
  rw [descendantsOf_under]
  exact List.forall_mem_cons.mpr ⟨whole, parts.2⟩

theorem allSourced_error {n : Node} (error : n.isError = true)
    (alone : descendantsOf [.node none n] = [n]) (inside : rest <:+ tokens) :
    AllSourced eof tokens [.node none n] rest := by
  refine ⟨inside, ?_⟩
  rw [alone]
  intro m member
  rw [List.mem_singleton.mp member]
  exact .error error

theorem allSourced_region (failure : Diagnostic) (inside : rest <:+ tokens) :
    AllSourced eof tokens [.node none (Recovery.node failure (Recovery.region 0 true rest).1)]
      (Recovery.region 0 true rest).2 :=
  allSourced_error rfl (descendantsOf_region failure _)
    ((Recovery.region_suffix 0 true rest).trans inside)

end

section

variable {eof : Padded} {tokens : List Padded} {room : Nat} {self : Reading} {setting : Setting}
  {rest : List Padded} {first : Form}

open Grammar

/-- What a form makes and the region that may stand for it come from the tokens. -/
theorem guard_sourced
    (body : (first.read eof (level eof room) self setting rest).Yields (AllSourced eof tokens))
    (inside : rest <:+ tokens) :
    ((Form.guard first).read eof (level eof room) self setting rest).Yields
      (AllSourced eof tokens) := by
  rw [Form.read]
  generalize first.read eof (level eof room) self setting rest = outcome at body ⊢
  cases outcome with
  | done children after => exact body
  | failed failure _ => exact Outcome.yields_done.mpr (allSourced_region failure inside)

/-- What an operand becomes part of comes from the tokens when the operand and the rest do. -/
theorem growing_sourced {many : Bool} {look : Setting → Glance (Option Growth)}
    (single : (first.read eof (level eof room) self setting rest).Yields
      fun children _ => ∃ n, children = [.node none n])
    (head : (first.read eof (level eof room) self setting rest).Yields (AllSourced eof tokens))
    (tails : ∀ growth rest, (look setting).run eof rest = some growth → rest <:+ tokens →
      ((growthBody growth).read eof (level eof room) self setting rest).Yields
        (AllSourced eof tokens)) :
    ((growing many first look).read eof (level eof room) self setting rest).Yields
      (AllSourced eof tokens) := by
  refine (Form.grow_yields (single.and head) fun growth children rest holds found => ?_).imp
    fun _ _ holds => holds.2
  obtain ⟨⟨n, rfl⟩, parts⟩ := holds
  intro more after ended
  have added := tails growth rest found parts.1 more after ended
  rw [Form.read_closed (growthBody_closed growth) self nothing] at ended
  exact ⟨⟨_, rfl⟩, allSourced_under (.grown (.inr ⟨n, rfl⟩) parts.1 ended)
    (allSourced_append (allSourced_labelled parts) added)⟩

/-- A guarded form makes nodes that come from the tokens, when the rules one level deeper and
`again` do, and what is known after it holds of the tokens that it leaves. -/
theorem Form.Guarded.sourced (isEnd : eof.token.kind = .eof) {moved m g : Bool}
    {known left : Known} {form : Form} {a b : List Delimiter} {spot : Spot}
    (levels : ∀ goal setting rest, rest <:+ tokens →
      (level eof room goal setting rest).Yields (AllSourced eof tokens))
    (h : Guarded eof moved known form m left a b spot g)
    (self_sourced : ∀ setting rest, rest <:+ tokens →
      (self setting rest).Yields (AllSourced eof tokens))
    (inside : rest <:+ tokens) (knows : known rest) :
    (form.read eof (level eof room) self setting rest).Yields fun children after =>
      AllSourced eof tokens children after ∧ left after := by
  induction h generalizing self setting rest with
  | empty => exact Outcome.yields_done.mpr ⟨allSourced_nil inside, knows⟩
  | seq _ _ ih ih' =>
    refine (ih self_sourced inside knows).andThen fun children after first => ?_
    exact (ih' self_sourced first.1.1 first.2).imp fun _ _ second =>
      ⟨allSourced_append first.1 second.1, second.2⟩
  | takes there =>
    obtain ⟨t, ts, rfl, -⟩ := there rest knows
    exact Outcome.yields_done.mpr ⟨allSourced_next _ inside, t, knows⟩
  | @expects _ known kind field a b _ g takes =>
    rw [read]
    split
    · next found =>
      cases rest with
      | nil => exact absurd (found.symm.trans isEnd) takes.ne_eof
      | cons t ts => exact Outcome.yields_done.mpr ⟨allSourced_next _ inside, t, knows⟩
    · exact Outcome.yields_failed
  | refuse => exact Outcome.yields_failed
  | faulty =>
    have next := (Reading.next_suffix eof rest).trans inside
    have alone := descendantsOf_faulty (Reading.next eof rest).1
    exact Outcome.yields_done.mpr ⟨allSourced_error rfl alone next, trivial⟩
  | under fits _ ih =>
    rw [read, Outcome.yields_map]
    intro children after ended
    obtain ⟨parts, left⟩ := ih self_sourced inside knows children after ended
    refine ⟨allSourced_under ?_ parts, left⟩
    cases fits with
    | node sound => exact .sound sound
    | framed frames =>
      -- A framed node is told by its form alone, so what `again` stands for must not matter.
      rw [read_closed frames.closed self nothing] at ended
      exact .framed frames knows inside ended
    | prefixed | cast => exact .plain rfl fun growth => by cases growth <;> simp [Growth.kind]
  | leadingPoint _ ih =>
    change (Outcome.map _ ((growthBody (Growth.ofPoint.run eof rest)).read eof (level eof room) self
      setting rest)).Yields _
    rw [Outcome.yields_map]
    intro children after ended
    obtain ⟨parts, left⟩ := ih _ self_sourced inside ⟨knows, rfl⟩ children after ended
    rw [read_closed (growthBody_closed _) self nothing] at ended
    exact ⟨allSourced_under (.grown (.inl rfl) inside ended) parts, left⟩
  | label _ ih =>
    rw [read, Outcome.yields_map]
    exact (ih self_sourced inside knows).imp fun _ _ holds =>
      ⟨allSourced_labelled holds.1, holds.2⟩
  | enter _ => exact (levels _ setting rest inside).imp fun _ _ parts => ⟨parts, trivial⟩
  | changed _ => exact (levels _ _ rest inside).imp fun _ _ parts => ⟨parts, trivial⟩
  | choose _ ih => exact ih _ self_sourced inside ⟨knows, setting, rfl⟩
  | within _ _ ih => exact ih self_sourced inside knows
  | fix _ ih =>
    suffices rounds : Outcome.Yields _ (AllSourced eof tokens) from
      rounds.imp fun _ _ parts => ⟨parts, trivial⟩
    refine Reading.unrolled_inside (fun _ inside => allSourced_nil inside)
      (fun self holds setting rest inside => ?_) _ setting inside
    exact (ih holds inside trivial).imp fun _ _ holds => holds.1
  | again => exact (self_sourced setting rest inside).imp fun _ _ parts => ⟨parts, trivial⟩
  | growing _ fits _ ih ih' =>
    have head := (@ih self setting rest self_sourced inside knows).imp fun _ _ holds => holds.1
    suffices whole : Outcome.Yields _ (AllSourced eof tokens) from
      whole.imp fun _ _ parts => ⟨parts, trivial⟩
    cases fits with
    | framed frames => cases frames
    | grow sound =>
      refine grow_yields head fun k children rest parts found => ?_
      exact (ih' k self_sourced parts.1 ⟨setting, found⟩).imp fun _ _ added =>
        allSourced_under (.sound (sound k)) (allSourced_append (allSourced_labelled parts) added.1)
    | expression floor =>
      have single : (operand.read eof (level eof room) self setting rest).Yields
          fun children _ => ∃ n, children = [.node none n] :=
        (@operand_yields eof _ self setting rest floor (level_sorted isEnd room).toHeads).imp
          fun _ _ one => one.imp fun _ holds => holds.1
      exact growing_sourced single head fun growth rest found inside =>
        (ih' growth self_sourced inside ⟨setting, found⟩).imp fun _ _ holds => holds.1
    | namedType =>
      have name : identifier.Makes := rfl
      have single : (identifier.read eof (level eof room) self setting rest).Yields
          fun children _ => ∃ n, children = [.node none n] :=
        (name.yields (level_sorted isEnd room).type).imp fun _ _ one =>
          one.imp fun _ holds => holds.1
      exact growing_sourced single head fun growth rest found inside =>
        (ih' growth self_sourced inside ⟨setting, found⟩).imp fun _ _ holds => holds.1
  | lead _ sound _ _ ih ih' ih'' =>
    refine lead_yields (ih self_sourced inside knows) (fun k children after parts found => ?_)
      (ih'' self_sourced inside knows)
    exact (ih' k self_sourced parts.1.1 ⟨setting, found⟩).imp fun _ _ added =>
      ⟨allSourced_under (.sound (sound k)) (allSourced_append parts.1 added.1), added.2⟩
  | guard _ _ ih =>
    have body := (@ih self setting rest self_sourced inside knows).imp fun _ _ holds => holds.1
    exact (guard_sourced body inside).imp fun _ _ parts => ⟨parts, trivial⟩
  | group _ _ ih | inside _ ih => exact ih self_sourced inside knows
  | weaken _ _ knows' _ left' ih =>
    exact (ih self_sourced inside (knows' rest knows)).imp fun _ after holds =>
      ⟨holds.1, left' after holds.2⟩

end

namespace Grammar

variable {eof : Padded} (isEnd : eof.token.kind = .eof) {tokens rest : List Padded}
include isEnd

/-- A rule makes nodes that come from the tokens, however deep it stands. -/
theorem level_sourced (room : Nat) (goal : Goal) (setting : Setting) (inside : rest <:+ tokens) :
    (level eof room goal setting rest).Yields (AllSourced eof tokens) := by
  induction room generalizing goal setting rest with
  | zero => exact Outcome.yields_failed
  | succ room ih =>
    have nothing_sourced (setting : Setting) (rest : List Padded) (inside : rest <:+ tokens) :
        (nothing setting rest).Yields (AllSourced eof tokens) :=
      Outcome.yields_done.mpr (allSourced_nil inside)
    exact ((goal.form_safe isEnd).sourced isEnd (fun goal setting rest => ih goal setting)
      nothing_sourced inside trivial).imp fun _ _ holds => holds.1

end Grammar

/-- The statements of a text come from its tokens. -/
theorem Listed.sourced {eof : Padded} (isEnd : eof.token.kind = .eof) {room : Nat}
    {setting : Setting} {tokens rest : List Padded} {children : List Child}
    (listed : Listed eof room setting rest children) (inside : rest <:+ tokens) :
    ∀ n ∈ descendantsOf children, Sourced eof tokens n := by
  induction listed with
  | stop => exact fun _ none => nomatch none
  | semicolon _ _ ih =>
    rw [descendantsOf_append, descendantsOf_ofPadded]
    exact ih ((List.suffix_cons _ _).trans inside)
  | item _ _ ended _ _ ih =>
    have later := (List.suffix_append _ _).trans inside
    have statement : (Grammar.statement.read eof (Grammar.level eof room) Grammar.nothing setting
        _).Yields (AllSourced eof tokens) :=
      Grammar.level_sourced isEnd room .statement setting inside
    have made := guard_sourced statement inside _ _ ended
    rw [descendantsOf_append]
    exact List.forall_mem_append.mpr ⟨made.2, ih later⟩

/-- Every node of a tree that is no error node holds either whatever its rule takes, or what one of
the rules that it is known by took from some token of the text on. -/
theorem parse_sourced (text : String) :
    ∀ n ∈ (parse text).root.descendants,
      Sourced (Cursor.ofText text).eof (Cursor.ofText text).tokens n := by
  obtain ⟨body, root, listed, -⟩ := parse_listed text
  have sourced := listed.sourced (Cursor.isEnd_ofText text) List.suffix_rfl
  rw [root, descendants_sound_ofPadded]
  exact List.forall_mem_cons.mpr ⟨.sound rfl, sourced⟩

end JaiTree
