import JaiTree.Proofs.Grammar.Placed
import JaiTree.Proofs.Tree.Productions

/-!
Containment: in the tree of any text every node stands in a place where its kind may. Main
statement: `parse_contained`.
-/

namespace JaiTree

open Grammar

/-- A list of returned types begins with a parenthesis, or holds one type. -/
def Node.ReturnsOne (n : Node) : Prop :=
  n.kind = .returnTypeList → (∃ t, n.firstToken? = some t ∧ t.kind = .openParen)
    ∨ ∃ r, n.nodes = [r] ∧ r.kind = .returnType

/-- What stands right in the node may stand there, an error node is made of tokens only, and below
parameters no comma brings another returned type. -/
structure Node.Contained (n : Node) : Prop where
  held : ∀ field m, .node field m ∈ n.children → n.kind.mayHold field m.kind = true
  error : n.kind = .error → n.nodes = []
  returns : n.kind = .parameterList → ∀ m ∈ descendantsOf n.children, m.ReturnsOne

/-- Children that may stand in the place, with what stands right in them and below. Inside a
parameter list no comma brings another returned type. -/
structure Filled (place : Place) (inParameters : Bool) (children : List Child)
    (after : List Padded) : Prop where
  held : ∀ field m, .node field m ∈ children → place.holds field m.kind
  contained : ∀ n ∈ descendantsOf children, n.Contained
  returns : inParameters = true → ∀ n ∈ descendantsOf children, n.ReturnsOne
  folded : Folded after

/-- What is read fills the place. -/
def Reading.Fills (reading : Reading) (place : Place) : Prop :=
  ∀ setting rest, Folded rest → (reading setting rest).Yields (Filled place setting.inParameters)

section

variable {place inner : Place} {b : Bool} {kind : NodeKind} {children more : List Child}
  {rest after : List Padded}

/-- A node among the children is one of those at and below them. -/
theorem mem_descendantsOf {field : Option Field} {n : Node} (member : .node field n ∈ children) :
    n ∈ descendantsOf children := by
  induction children with
  | nil => cases member
  | cons c cs ih =>
    rw [descendantsOf, List.mem_append]
    cases member with
    | head =>
      left
      cases n
      rw [Child.descendants, Node.descendants]
      exact List.mem_cons_self
    | tail _ member => exact .inr (ih member)

theorem not_mem_ofPadded {field part : Option Field} {padded : Padded} {n : Node} :
    .node part n ∉ Child.ofPadded field padded := by
  intro member
  rcases List.mem_append.mp member with leading | last
  · obtain ⟨t, -, same⟩ := List.mem_map.mp leading
    cases same
  · cases List.mem_singleton.mp last

namespace Filled

theorem mono (h : Filled inner b children rest) (within : inner.Within place) :
    Filled place b children rest :=
  ⟨fun field m member => within field m.kind (h.held field m member), h.contained, h.returns,
    h.folded⟩

/-- Less is known of returned types outside a parameter list. -/
theorem outside {b' : Bool} (h : Filled place b children rest) (imp : b' = true → b = true) :
    Filled place b' children rest :=
  ⟨h.held, h.contained, fun inside => h.returns (imp inside), h.folded⟩

theorem nil (folded : Folded rest) : Filled place b [] rest := ⟨nofun, nofun, nofun, folded⟩

theorem append (h : Filled place b children rest) (h' : Filled place b more after) :
    Filled place b (children ++ more) after where
  held field m member := (List.mem_append.mp member).elim (h.held field m) (h'.held field m)
  contained := by
    rw [descendantsOf_append]
    exact List.forall_mem_append.mpr ⟨h.contained, h'.contained⟩
  returns inside := by
    rw [descendantsOf_append]
    exact List.forall_mem_append.mpr ⟨h.returns inside, h'.returns inside⟩
  folded := h'.folded

theorem taken {field : Option Field} {t : Padded} (folded : Folded rest) :
    Filled place b (Child.ofPadded field t) rest where
  held _ _ member := absurd member not_mem_ofPadded
  contained := by
    rw [descendantsOf_ofPadded]
    exact nofun
  returns _ := by
    rw [descendantsOf_ofPadded]
    exact nofun
  folded := folded

/-- The next token, or the end once more. -/
theorem next {field : Option Field} (eof : Padded) (folded : Folded rest) :
    Filled place b (Child.ofPadded field (Reading.next eof rest).1) (Reading.next eof rest).2 :=
  taken (folded.suffix (Reading.next_suffix eof rest))

theorem labelled {field : Option Field} (h : Filled inner b children rest)
    (holds : ∀ old kind, inner.holds old kind → place.holds (field.or old) kind) :
    Filled place b (Child.labelled field children) rest := by
  cases field with
  | none => exact h.mono holds
  | some field =>
    refine ⟨fun part m member => ?_, ?_, fun inside => ?_, h.folded⟩
    · obtain ⟨c, among, same⟩ := List.mem_map.mp member
      cases c with
      | leaf old token => cases same
      | node old n =>
        cases same
        exact holds old m.kind (h.held old m among)
    · rw [Child.labelled, descendantsOf_relabel]
      exact h.contained
    · rw [Child.labelled, descendantsOf_relabel]
      exact h.returns inside

/-- A node around what it may hold. -/
theorem under_contained (h : Filled (.under kind) b children rest) (ne_error : kind ≠ .error)
    (returns : kind = .parameterList → b = true) : (Node.sound kind children).Contained where
  held := h.held
  error isError := absurd isError ne_error
  returns isList := h.returns (returns isList)

/-- A node of whose kind nothing else is known. -/
theorem under (h : Filled (.under kind) b children rest) (holds : place.holds none kind)
    (ordinary : kind.isOrdinary = true) :
    Filled place b (Child.under kind children) rest := by
  simp only [NodeKind.isOrdinary, Bool.and_eq_true, decide_eq_true_eq] at ordinary
  obtain ⟨⟨ne_error, ne_parameters⟩, ne_returns⟩ := ordinary
  refine ⟨fun field m member => ?_, ?_, fun inside => ?_, h.folded⟩
  · cases List.mem_singleton.mp member
    exact holds
  · rw [descendantsOf_under]
    exact List.forall_mem_cons.mpr
      ⟨h.under_contained ne_error fun isList => absurd isList ne_parameters, h.contained⟩
  · rw [descendantsOf_under]
    exact List.forall_mem_cons.mpr ⟨fun isList => absurd isList ne_returns, h.returns inside⟩

/-- A parameter list around what is read inside of it. -/
theorem parameters (h : Filled (.under .parameterList) true children rest) :
    Filled place b (Child.under .parameterList children) rest := by
  refine ⟨fun field m member => ?_, ?_, fun _ => ?_, h.folded⟩
  · cases List.mem_singleton.mp member
    exact place.free _ _ rfl
  · rw [descendantsOf_under]
    exact List.forall_mem_cons.mpr ⟨h.under_contained nofun fun _ => rfl, h.contained⟩
  · rw [descendantsOf_under]
    exact List.forall_mem_cons.mpr ⟨nofun, h.returns rfl⟩

/-- A list of returned types. -/
theorem returned (h : Filled (.under .returnTypeList) b children rest)
    (one : b = true → (Node.sound .returnTypeList children).ReturnsOne) :
    Filled place b (Child.under .returnTypeList children) rest := by
  refine ⟨fun field m member => ?_, ?_, fun inside => ?_, h.folded⟩
  · cases List.mem_singleton.mp member
    exact place.free _ _ rfl
  · rw [descendantsOf_under]
    exact List.forall_mem_cons.mpr ⟨h.under_contained nofun nofun, h.contained⟩
  · rw [descendantsOf_under]
    exact List.forall_mem_cons.mpr ⟨one inside, h.returns inside⟩

/-- An error node over children that have no nodes. -/
theorem error {made : Option Diagnostic} (alone : descendantsOf children = [])
    (folded : Folded rest) : Filled place b [.node none (.mk .error children made)] rest := by
  have only : descendantsOf [.node none (.mk .error children made)]
      = [.mk .error children made] := by
    rw [descendantsOf, Child.descendants, Node.descendants, alone]
    rfl
  have leaves (field : Option Field) (m : Node) : .node field m ∉ children := fun member =>
    List.not_mem_nil (alone ▸ mem_descendantsOf member)
  refine ⟨fun field m member => ?_, ?_, fun _ => ?_, folded⟩
  · cases List.mem_singleton.mp member
    exact place.free _ _ rfl
  · rw [only, List.forall_mem_singleton]
    refine ⟨fun field m member => absurd member (leaves field m), fun _ => ?_, nofun⟩
    rw [Node.nodes, List.filterMap_eq_nil_iff]
    intro c member
    cases c with
    | leaf field token => rfl
    | node field m => exact absurd member (leaves field m)
  · rw [only, List.forall_mem_singleton]
    exact nofun

theorem faulty (t : Padded) (folded : Folded rest) :
    Filled place b [.node none (.faulty t)] rest := error (descendantsOf_ofPadded none t) folded

theorem region (failure : Diagnostic) (region : List Padded) (folded : Folded rest) :
    Filled place b [.node none (Recovery.node failure region)] rest :=
  error (descendantsOf_flatMap_ofPadded region) folded

end Filled

end

section Returns

variable {eof : Padded} {deeper : Goal → Reading} {self : Reading} {setting : Setting}
  {rest : List Padded}

/-- Where a parenthesis and a name with a colon lie ahead, the parenthesis does. -/
theorem openParen_of_named (named : atNamedReturns.run eof rest = true) :
    (ahead eof rest 0).token.kind = .openParen := by
  simp only [atNamedReturns, Glance.run_bind, Glance.run_kindAt, Glance.run_ite] at named
  split at named
  · assumption
  · cases named

/-- Inside a parameter list no comma brings another returned type. -/
theorem moreReturns_inside (inside : setting.inParameters = true) :
    moreReturns.read eof deeper self setting rest = .done [] rest := by
  have single : (bringsReturn setting).run eof rest = false := by
    rw [bringsReturn, Glance.run_bind, Glance.run_ite, inside]
    split
    all_goals rfl
  rw [moreReturns, Form.read, Reading.unrolled, Form.read, single]
  rfl

/-- The children begin with a token. -/
def Headed (t : Padded) : Post := fun children _ => ∃ more, children = Child.ofPadded none t ++ more

/-- What begins with a token still does with more behind it. -/
theorem Outcome.Yields.headed {outcome : Outcome} {next : List Padded → Outcome} {t : Padded}
    (h : outcome.Yields (Headed t)) : (outcome.andThen next).Yields (Headed t) := by
  refine h.andThen fun children after head others last _ => ?_
  obtain ⟨more, rfl⟩ := head
  exact ⟨more ++ others, List.append_assoc ..⟩

/-- The first token of a node that begins with a token. -/
theorem firstToken?_ofPadded {kind : NodeKind} {field : Option Field} {padded : Padded}
    {more : List Child} (trivial : ∀ t ∈ padded.leading, t.isTrivia = true)
    (seen : padded.token.isTrivia = false) :
    (Node.sound kind (Child.ofPadded field padded ++ more)).firstToken? = some padded.token := by
  have none : padded.leading.find? (fun t => !t.isTrivia) = none := by
    refine List.find?_eq_none.mpr fun t member => ?_
    simp [trivial t member]
  rw [Node.firstToken?, Node.sound, Node.leaves, leavesOf_append, leavesOf_ofPadded,
    Padded.tokens, List.find?_append, List.find?_append, none]
  simp [seen]

/-- Inside a parameter list a list of returned types begins with a parenthesis or is one type. -/
theorem returnTypeList_returnsOne (isEnd : eof.token.kind = .eof) (folded : Folded rest)
    (inside : setting.inParameters = true) :
    (returnTypeList.read eof deeper self setting rest).Yields fun children _ =>
      ∃ n, children = [.node none n] ∧ n.ReturnsOne := by
  rw [returnTypeList, Form.read, Outcome.yields_map, Form.ifelse, Form.read]
  cases named : atNamedReturns.run eof rest with
  | true =>
    have paren := openParen_of_named named
    obtain ⟨t, ts, rfl⟩ : ∃ t ts, rest = t :: ts := by
      cases rest with
      | nil => cases isEnd.symm.trans paren
      | cons t ts => exact ⟨t, ts, rfl⟩
    have seen : t.token.isTrivia = false := by
      rw [Token.isTrivia, show t.token.kind = _ from paren]
      rfl
    have first : (Form.any.read eof deeper self setting (t :: ts)).Yields (Headed t) :=
      Outcome.yields_done.mpr ⟨[], (List.append_nil _).symm⟩
    refine first.headed.headed.imp fun children after head => ?_
    obtain ⟨more, rfl⟩ := head
    have trivial := folded t List.mem_cons_self
    exact ⟨_, rfl, fun _ => .inl ⟨t.token, firstToken?_ofPadded trivial seen, paren⟩⟩
  | false =>
    have single : (returnType.read eof deeper self setting rest).Yields fun children _ =>
        ∃ r, children = [.node none r] ∧ r.kind = .returnType := by
      rw [returnType, Form.read, Outcome.yields_map]
      exact fun children after _ => ⟨_, rfl, rfl⟩
    refine single.andThen fun children after one => ?_
    obtain ⟨r, rfl, kind⟩ := one
    rw [moreReturns_inside inside]
    exact Outcome.yields_done.mpr ⟨_, rfl, fun _ => .inr ⟨r, rfl, kind⟩⟩

end Returns

/-- What the rules one level deeper fill. Where a list of statements under a case goes on, no case
follows. -/
structure LevelsFill (eof : Padded) (deeper : Goal → Reading) : Prop where
  isEnd : eof.token.kind = .eof
  goals : ∀ goal, (deeper goal).Fills goal.place
  uncased : ∀ setting rest, Folded rest → (listStep .nextCase).run eof rest = .item →
    (deeper .statement setting rest).Yields (Filled .operand setting.inParameters)

namespace Form

variable {eof : Padded} {deeper : Goal → Reading} {self : Reading} {e b : Bool}
  {loop place : Place} {setting : Setting} {rest : List Padded}

/-- A region fills every place. -/
theorem guard_filled {body : Form} (folded : Folded rest)
    (h : (body.read eof deeper self setting rest).Yields (Filled place b)) :
    ((guard body).read eof deeper self setting rest).Yields (Filled place b) := by
  rw [read]
  cases ended : body.read eof deeper self setting rest with
  | failed error after =>
    exact Outcome.yields_done.mpr (.region _ _ (folded.suffix (Recovery.region_suffix 0 true rest)))
  | done children after =>
    rw [ended] at h
    exact h

theorem unrolled_fills {step : Reading → Reading}
    (h : ∀ self : Reading, self.Fills place → (step self).Fills place) (n : Nat) :
    (Reading.unrolled step n).Fills place := by
  induction n with
  | zero => exact fun _ _ folded => Outcome.yields_done.mpr (.nil folded)
  | succ n ih => exact h _ ih

/-- What holds of what growth begins with, and of the one node that it may make of it, holds in the
end. -/
theorem grow_once_yields {inv post : Post} {κ : Type} {first : Form}
    {look : Setting → Glance (Option κ)} {kind : κ → NodeKind} {field : κ → Option Field}
    {tail : κ → Form} (head : (first.read eof deeper self setting rest).Yields inv)
    (alone : ∀ children rest, inv children rest → post children rest)
    (added : ∀ k children rest, inv children rest →
      ((tail k).read eof deeper self setting rest).Yields fun more after =>
        post (Child.under (kind k) (Child.labelled (field k) children ++ more)) after) :
    ((grow false first look kind field tail).read eof deeper self setting rest).Yields post := by
  rw [read]
  cases ended : first.read eof deeper self setting rest with
  | failed error after => exact Outcome.yields_failed
  | done children after =>
    rw [ended, Outcome.yields_done] at head
    change (Reading.grown _ 1 children after).Yields post
    rw [Reading.grown]
    cases found : (look setting).run eof after with
    | none => exact Outcome.yields_done.mpr (alone children after head)
    | some k =>
      have made := added k children after head
      rw [Option.map_some]
      cases tail_ended : (tail k).read eof deeper self setting after with
      | failed error last => exact Outcome.yields_failed
      | done more last =>
        rw [tail_ended, Outcome.yields_done] at made
        exact Outcome.yields_done.mpr made

/-- Growth fills a place that may hold what it makes. What grows on and on may stand in what it
makes. -/
theorem grow_filled {κ : Type} {many : Bool} {first : Form} {look : Setting → Glance (Option κ)}
    {kind : κ → NodeKind} {field : κ → Option Field} {tail : κ → Form}
    (holds : ∀ k, place.holds none (kind k)) (free : many = true → ∀ k, (kind k).isFree = true)
    (ordinary : ∀ k, (kind k).isOrdinary = true)
    (head : (first.read eof deeper self setting rest).Yields
      (Filled .operand setting.inParameters))
    (tails : ∀ k, Reading.Fills ((tail k).read eof deeper self) (.under (kind k))) :
    ((grow many first look kind field tail).read eof deeper self setting rest).Yields
      (Filled place setting.inParameters) := by
  have added {outer : Place} (k : κ) (holds : outer.holds none (kind k)) (children : List Child)
      (rest : List Padded) (head : Filled .operand setting.inParameters children rest) :
      ((tail k).read eof deeper self setting rest).Yields fun more after =>
        Filled outer setting.inParameters
          (Child.under (kind k) (Child.labelled (field k) children ++ more)) after := by
    refine (tails k setting rest head.folded).imp fun more after tail => ?_
    have labelled : Filled (.under (kind k)) setting.inParameters
        (Child.labelled (field k) children) rest :=
      head.labelled fun _ made => (Place.under (kind k)).free _ made
    exact (labelled.append tail).under holds (ordinary k)
  cases many with
  | true =>
    exact (grow_yields head fun k children rest head _ =>
      added k (free rfl k) children rest head).imp fun _ _ grown =>
        grown.mono (Place.operand_within place)
  | false =>
    exact grow_once_yields head (fun _ _ head => head.mono (Place.operand_within place))
      fun k children rest head => added k (holds k) children rest head

/-- The statements of a case fill every place: no case is among them. -/
theorem cases_filled (levels : LevelsFill eof deeper) :
    Reading.Fills ((statements .nextCase).read eof deeper self) place := by
  intro setting rest folded
  rw [statements, read]
  refine unrolled_fills (fun self turns setting rest folded => ?_) _ setting rest folded
  rw [read]
  cases step : (listStep .nextCase).run eof rest with
  | stop => exact Outcome.yields_done.mpr (.nil folded)
  | semicolon =>
    have head : Filled place setting.inParameters (Child.ofPadded none (Reading.next eof rest).1)
        (Reading.next eof rest).2 := .next eof folded
    exact Outcome.Yields.andThen (Outcome.yields_done.mpr head) fun children after head =>
      (turns setting after head.folded).imp fun _ _ => head.append
  | item =>
    refine Outcome.Yields.andThen (guard_filled folded ?_) fun children after head =>
      (turns setting after head.folded).imp fun _ _ => head.append
    rw [listItem, read, Outcome.yields_map]
    exact (levels.uncased setting rest folded step).imp fun _ _ statement =>
      statement.labelled fun _ kind => place.free _ kind

theorem Fills.filled {form : Form} (h : Fills e loop place form) (levels : LevelsFill eof deeper)
    (turns : self.Fills loop) : Reading.Fills (form.read eof deeper self) place := by
  induction h generalizing self with
  | empty => exact fun _ _ folded => Outcome.yields_done.mpr (.nil folded)
  | seq _ _ ih ih' =>
    intro setting rest folded
    exact (ih turns setting rest folded).andThen fun children after head =>
      (ih' turns setting after head.folded).imp fun _ _ => head.append
  | take => exact fun _ _ folded => Outcome.yields_done.mpr (.next eof folded)
  | expect =>
    intro setting rest folded
    rw [read]
    split
    · exact Outcome.yields_done.mpr (.next eof folded)
    · exact Outcome.yields_failed
  | refuse => exact fun _ _ _ => Outcome.yields_failed
  | faulty =>
    exact fun _ rest folded => Outcome.yields_done.mpr
      (.faulty _ (folded.suffix (Reading.next_suffix eof rest)))
  | under holds ordinary _ ih =>
    intro setting rest folded
    rw [read, Outcome.yields_map]
    exact (ih turns setting rest folded).imp fun _ _ inside => inside.under holds ordinary
  | parameters _ ih =>
    intro setting rest folded
    rw [read, read, Outcome.yields_map]
    exact (ih turns _ rest folded).imp fun _ _ => .parameters
  | returns same _ ih =>
    intro setting rest folded
    have one := @returnTypeList_returnsOne _ deeper self setting _ levels.isEnd folded
    rw [same, read, Outcome.yields_map] at one ⊢
    intro children after ended
    refine (ih turns setting rest folded children after ended).returned fun inside => ?_
    obtain ⟨_, only, returns⟩ := one inside children after ended
    cases only
    exact returns
  | part inside _ ih =>
    intro setting rest folded
    rw [read, Outcome.yields_map]
    exact (ih turns setting rest folded).imp fun _ _ part => part.labelled inside
  | enter inside =>
    exact fun setting rest folded => (levels.goals _ setting rest folded).imp fun _ _ goal =>
      goal.mono inside
  | choose _ ih => exact fun setting rest folded => ih _ turns setting rest folded
  | @within _ _ _ scope _ _ ih =>
    intro setting rest folded
    exact (ih turns _ rest folded).imp fun _ _ body => body.outside scope.inParameters_change
  | fix _ ih =>
    exact fun setting rest folded => unrolled_fills (fun self turns => ih turns) _ setting rest
      folded
  | again inside =>
    exact fun setting rest folded => (turns setting rest folded).imp fun _ _ again =>
      again.mono inside
  | grow holds free ordinary _ _ first tails =>
    exact fun setting rest folded => grow_filled holds free ordinary
      (first turns setting rest folded) fun k => tails k turns
  | lead _ free ordinary _ _ _ first tails otherwise =>
    intro setting rest folded
    refine lead_yields (first turns setting rest folded) (fun k children after head _ => ?_)
      (otherwise turns setting rest folded)
    exact (tails k turns setting after head.folded).imp fun _ _ tail =>
      (head.mono (Place.operand_within _)).append tail |>.under (Place.free _ _ _ (free k))
        (ordinary k)
  | guard _ ih =>
    exact fun setting rest folded => guard_filled folded (ih turns setting rest folded)
  | cases _ _ => exact cases_filled levels
  | weaken inside _ ih =>
    exact fun setting rest folded => (ih turns setting rest folded).imp fun _ _ form =>
      form.mono inside

end Form

namespace StatementShape

variable {eof : Padded} {rest : List Padded} {keyword : Keyword}

theorem ofNames_ne_keyword : ofNames.run eof rest ≠ .keyword keyword := by
  intro same
  rw [ofNames, Glance.run_bind] at same
  split at same
  · rw [Glance.run_map] at same
    cases same
  · cases same

/-- A statement that goes on under a case is no case itself: the word for one stands for a name, or
it ends the list. -/
theorem ne_case (step : (listStep .nextCase).run eof rest = .item) :
    glance.run eof rest ≠ .keyword .caseWord := by
  intro seen
  have word : (ahead eof rest 0).sight.keyword? = some .caseWord := told_of_seen seen
  have kind : (ahead eof rest 0).token.kind = .identifier := Lexeme.kind_of_keyword? word
  simp only [listStep, Glance.run_bind, Glance.run_kindAt, kind,
    Glance.run_keywordAt, word, if_true, Glance.run_pure] at step
  have named : (Glance.actsAsName 0).run eof rest = true := by
    by_contra other
    rw [if_neg other] at step
    cases step
  simp only [glance, Glance.run_bind, Glance.run_tokenAt, Padded.sight_kind, kind, word,
    Glance.run_ite, named, if_true] at seen
  rw [if_pos (by decide)] at seen
  exact ofNames_ne_keyword seen

end StatementShape

namespace Grammar

theorem nothing_fills : Reading.Fills nothing .operand :=
  fun _ _ folded => Outcome.yields_done.mpr (.nil folded)

section

variable {eof : Padded} (isEnd : eof.token.kind = .eof)
include isEnd

theorem level_fills (room : Nat) : LevelsFill eof (level eof room) := by
  induction room with
  | zero =>
    exact ⟨isEnd, fun _ _ _ _ => Outcome.yields_failed, fun _ _ _ _ => Outcome.yields_failed⟩
  | succ room ih =>
    refine ⟨isEnd, fun goal => goal.form_fills.filled ih nothing_fills,
      fun setting rest folded step => ?_⟩
    obtain ⟨next, same, -, fills⟩ := statementRule_eq
    rw [level, Goal.form, same, Form.read]
    exact (fills .operand .operand _ (StatementShape.ne_case step)).filled ih nothing_fills setting
      rest folded

/-- What a whole text makes may stand anywhere. -/
theorem sourceFile_filled (room : Nat) : Reading.Fills (read eof room sourceFile) .operand :=
  sourceFile_fills.filled (level_fills isEnd room) nothing_fills

end

end Grammar

/-- In the tree of any text every node stands where its kind may: a range is what a loop runs
through, an index, the size of an array or the value of a case; what a list is made of stands right
in the list, and a piece of a string in the string; a case stands in no case; an error node is made
of tokens only; and a list of returned types below parameters begins with a parenthesis or holds
one type. Whatever a rule reads fills the place that the rule is for, and no statement goes on under
a case with another case. -/
theorem parse_contained (text : String) : (parse text).root.kind = .sourceFile
    ∧ ∀ n ∈ (parse text).root.descendants, n.Contained := by
  obtain ⟨body, root, -, ended⟩ := parse_built text
  refine ⟨by rw [root]; rfl, fun n member => ?_⟩
  have folded : Folded (Cursor.ofText text).tokens := fun p among =>
    Cursor.folded_of_mem_ofText (List.mem_append_left _ among)
  have filled := Grammar.sourceFile_filled (Cursor.isEnd_ofText text) Grammar.maxNesting
    (Cursor.ofText text).setting (Cursor.ofText text).tokens folded
  rw [ended, Outcome.yields_done] at filled
  refine filled.contained n ?_
  rw [descendantsOf, Child.descendants]
  exact List.mem_append_left _ member

end JaiTree
