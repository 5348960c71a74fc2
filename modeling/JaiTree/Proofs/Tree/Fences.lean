import JaiTree.Proofs.Tree.Braced
import JaiTree.Proofs.Tree.Origins
import JaiTree.Proofs.Tree.Spans

/-!
Fences: the braces of a block, of the body of a struct or an enum, of a composite literal and of an
assembly block are partners, whatever could not be read between them. Main statement:
`parse_fenced`.
-/

namespace JaiTree

/-- Children around a pair of braces of their own, the closing one last: no other child is a brace,
and the braces between the two are well nested, down to each node between them. -/
def Fenced (children : List Child) : Prop :=
  ∃ before opening inner closing,
    children = before ++ .leaf none opening :: (inner ++ [.leaf none closing])
    ∧ opening.kind = .openCurly ∧ closing.kind = .closeCurly
    ∧ (∀ field t, .leaf field t ∈ before ++ inner → t.isBrace = false)
    ∧ Braced (leavesOf inner)
    ∧ ∀ m ∈ descendantsOf inner, Braced m.leaves

/-- The children come from the tokens, and none of them is a brace. -/
def Unbraced (eof : Padded) (tokens : List Padded) : Post := fun children after =>
  AllSourced eof tokens children after ∧ ∀ field t, .leaf field t ∈ children → t.isBrace = false

/-- The last child is an opening brace, and no other is a brace. -/
def Opened (tokens : List Padded) : Post := fun children after =>
  ∃ before opening, children = before ++ [.leaf none opening] ∧ opening.kind = .openCurly
    ∧ (∀ field t, .leaf field t ∈ before → t.isBrace = false) ∧ after <:+ tokens

open Grammar

section

variable {eof : Padded} {tokens rest after : List Padded} {children more : List Child}

theorem unbraced_nil (inside : rest <:+ tokens) : Unbraced eof tokens [] rest :=
  ⟨allSourced_nil inside, fun _ _ none => nomatch none⟩

theorem unbraced_append (h : Unbraced eof tokens children rest)
    (h' : Unbraced eof tokens more after) : Unbraced eof tokens (children ++ more) after := by
  refine ⟨allSourced_append h.1 h'.1, ?_⟩
  intro field t member
  rcases List.mem_append.mp member with member | member
  · exact h.2 field t member
  · exact h'.2 field t member

theorem unbraced_node {field : Option Field} {n : Node}
    (sourced : AllSourced eof tokens [.node field n] rest) :
    Unbraced eof tokens [.node field n] rest := by
  refine ⟨sourced, ?_⟩
  intro field t member
  cases List.mem_singleton.mp member

theorem leaf_of_mem_leading {leading : List Token} (trivial : ∀ t ∈ leading, t.isTrivia = true)
    {field : Option Field} {t : Token}
    (member : Child.leaf field t ∈ leading.map (Child.leaf none)) :
    t.isBrace = false := by
  obtain ⟨u, among, same⟩ := List.mem_map.mp member
  cases same
  exact Token.isBrace_of_isTrivia (trivial t among)

variable (folded : Folded (tokens ++ [eof]))
include folded

theorem next_folded (inside : rest <:+ tokens) :
    ∀ t ∈ (Reading.next eof rest).1.leading, t.isTrivia = true := by
  cases rest with
  | nil => exact folded eof (List.mem_append_right tokens List.mem_cons_self)
  | cons p ps => exact folded p (List.mem_append_left _ (inside.subset List.mem_cons_self))

theorem unbraced_next {field : Option Field} (inside : rest <:+ tokens)
    (other : (ahead eof rest 0).token.isBrace = false) :
    Unbraced eof tokens (Child.ofPadded field (Reading.next eof rest).1)
      (Reading.next eof rest).2 := by
  refine ⟨allSourced_next field inside, ?_⟩
  intro part t member
  have trivial := next_folded folded inside
  rw [Child.ofPadded, List.mem_append, List.mem_singleton] at member
  rcases member with member | same
  · exact leaf_of_mem_leading trivial member
  · cases same
    rw [Reading.next_fst]
    exact other

end

section

variable {eof : Padded} (isEnd : eof.token.kind = .eof) {tokens : List Padded}
  (folded : Folded (tokens ++ [eof])) {room : Nat} {self : Reading} {setting : Setting}
  {rest : List Padded} {item first second : Form} {spot : Spot}

theorem seq_unbraced
    (h : (first.read eof (level eof room) self setting rest).Yields (Unbraced eof tokens))
    (h' : ∀ rest, rest <:+ tokens →
      (second.read eof (level eof room) self setting rest).Yields (Unbraced eof tokens)) :
    ((first ++ second).read eof (level eof room) self setting rest).Yields
      (Unbraced eof tokens) := by
  refine h.andThen fun children after holds => ?_
  exact (h' after holds.1.1).imp fun more _ holds' => unbraced_append holds holds'

theorem opt_unbraced {allowed : Sight → Bool} (inside : rest <:+ tokens)
    (h : allowed (ahead eof rest 0).sight = true →
      (first.read eof (level eof room) self setting rest).Yields (Unbraced eof tokens)) :
    ((Form.opt allowed first).read eof (level eof room) self setting rest).Yields
      (Unbraced eof tokens) := by
  rw [Form.opt, Form.onSight, Form.read, Glance.run_tokenAt]
  split
  · next holds => exact h holds
  · exact Outcome.yields_done.mpr (unbraced_nil inside)

theorem label_unbraced {field : Field}
    (h : (first.read eof (level eof room) self setting rest).Yields (Unbraced eof tokens)) :
    ((Form.label field first).read eof (level eof room) self setting rest).Yields
      (Unbraced eof tokens) := by
  rw [Form.read, Outcome.yields_map]
  refine h.imp fun children after holds => ⟨allSourced_labelled holds.1, ?_⟩
  intro part t member
  obtain ⟨old, among, same⟩ := List.mem_map.mp member
  cases old with
  | leaf part' u =>
    cases same
    exact holds.2 part t among
  | node part' n => cases same

theorem nothing_sourced (setting : Setting) (rest : List Padded) (inside : rest <:+ tokens) :
    (nothing setting rest).Yields (AllSourced eof tokens) :=
  Outcome.yields_done.mpr (allSourced_nil inside)

include folded in
theorem any_unbraced (inside : rest <:+ tokens) {kind : TokenKind}
    (found : (ahead eof rest 0).token.kind = kind) (ne_open : kind ≠ .openCurly)
    (ne_close : kind ≠ .closeCurly) {field : Option Field} :
    ((Form.take field).read eof (level eof room) self setting rest).Yields
      (Unbraced eof tokens) := by
  refine Outcome.yields_done.mpr (unbraced_next folded inside ?_)
  simp [Token.isBrace, found, ne_open, ne_close]

include folded in
theorem token_unbraced (inside : rest <:+ tokens) {kind : TokenKind} (ne_open : kind ≠ .openCurly)
    (ne_close : kind ≠ .closeCurly) :
    ((Form.token kind).read eof (level eof room) self setting rest).Yields
      (Unbraced eof tokens) := by
  rw [Form.token, Form.read]
  split
  · next found =>
    exact @any_unbraced _ _ folded room self setting _ inside _ found ne_open ne_close _
  · exact Outcome.yields_failed

/-- A loop takes no brace when no turn of it does behind which the turns to come take none. -/
theorem fix_unbraced {body : Form} (inside : rest <:+ tokens)
    (turn : ∀ self : Reading,
      (∀ setting rest, rest <:+ tokens → (self setting rest).Yields (Unbraced eof tokens)) →
      (∀ setting rest, rest <:+ tokens → (self setting rest).Yields (AllSourced eof tokens)) →
      ∀ setting rest, rest <:+ tokens →
      (body.read eof (level eof room) self setting rest).Yields (Unbraced eof tokens)) :
    ((Form.fix body).read eof (level eof room) self setting rest).Yields
      (Unbraced eof tokens) := by
  rw [Form.read]
  refine Reading.unrolled_inside (fun _ inside => unbraced_nil inside)
    (fun self holds setting rest inside => ?_) _ setting inside
  refine turn self holds (fun setting rest inside => ?_) setting rest inside
  exact (holds setting rest inside).imp fun _ _ holds => holds.1

include isEnd

/-- A form that is done with one node, wherever it stands. -/
theorem single_unbraced (safe : Form.Safe eof true item spot)
    (one : item.MakesOne (fun _ => True) (· = .statement))
    (self_sourced : ∀ setting rest, rest <:+ tokens →
      (self setting rest).Yields (AllSourced eof tokens)) (inside : rest <:+ tokens) :
    (item.read eof (level eof room) self setting rest).Yields (Unbraced eof tokens) := by
  have levels (goal : Goal) (setting : Setting) (rest : List Padded) (inside : rest <:+ tokens) :=
    level_sourced isEnd room goal setting inside
  have sourced := @Form.Guarded.sourced eof tokens room self setting rest isEnd _ _ _ _ _ _ _ _ _
    levels safe self_sourced inside trivial
  have single : (item.read eof (level eof room) self setting rest).Yields (One fun _ => True) :=
    one.yields fun goal isStatement => isStatement ▸ level_statement isEnd room
  refine (sourced.and single).imp fun children after holds => ?_
  obtain ⟨⟨parts, -⟩, n, rfl, -⟩ := holds
  exact unbraced_node parts

/-- An item of a list, or the region that stands for it. -/
theorem item_unbraced (safe : Form.Safe eof true item spot)
    (one : item.MakesOne (fun _ => True) (· = .statement))
    (self_sourced : ∀ setting rest, rest <:+ tokens →
      (self setting rest).Yields (AllSourced eof tokens)) (inside : rest <:+ tokens) :
    ((Form.guard item).read eof (level eof room) self setting rest).Yields
      (Unbraced eof tokens) := by
  have body := @single_unbraced eof isEnd tokens room self setting rest item spot safe one
    self_sourced inside
  rw [Form.read]
  generalize item.read eof (level eof room) self setting rest = outcome at body ⊢
  cases outcome with
  | done children after => exact body
  | failed failure _ =>
    exact Outcome.yields_done.mpr (unbraced_node (allSourced_region failure inside))

include folded

theorem statements_unbraced (inside : rest <:+ tokens) :
    ((statements .closeCurly).read eof (level eof room) nothing setting rest).Yields
      (Unbraced eof tokens) := by
  refine fix_unbraced inside fun self holds self_sourced setting rest inside => ?_
  rw [Form.read]
  split
  · exact Outcome.yields_done.mpr (unbraced_nil inside)
  · next step =>
    have kind := listStep_semicolon step
    exact seq_unbraced (any_unbraced folded inside kind (by decide) (by decide))
      (holds setting)
  · exact seq_unbraced (item_unbraced isEnd statement_safe rfl self_sourced inside) (holds setting)

theorem bodyItems_unbraced (safe : Form.Safe eof true item .plain)
    (one : item.MakesOne (fun _ => True) (· = .statement)) (inside : rest <:+ tokens) :
    ((bodyItems item).read eof (level eof room) nothing setting rest).Yields
      (Unbraced eof tokens) := by
  refine fix_unbraced inside fun self holds self_sourced setting rest inside => ?_
  rw [Form.onSight, Form.read, Glance.run_tokenAt]
  split
  · exact Outcome.yields_done.mpr (unbraced_nil inside)
  · exact Outcome.yields_done.mpr (unbraced_nil inside)
  · next kind =>
    rw [Padded.sight_kind] at kind
    exact seq_unbraced (any_unbraced folded inside kind (by decide) (by decide))
      (holds setting)
  · exact seq_unbraced (item_unbraced isEnd safe one self_sourced inside) (holds setting)

theorem elements_unbraced (inside : rest <:+ tokens) :
    ((Form.items .closeCurly compositeElement).read eof (level eof room) nothing setting
      rest).Yields (Unbraced eof tokens) := by
  have element (self : Reading) (setting : Setting)
      (self_sourced : ∀ setting rest, rest <:+ tokens →
        (self setting rest).Yields (AllSourced eof tokens)) {rest : List Padded}
      (inside : rest <:+ tokens) :
      (compositeElement.read eof (level eof room) self setting rest).Yields
        (Unbraced eof tokens) := by
    have safe : Form.Safe eof true compositeElement .plain := compositeElement_safe isEnd
    exact single_unbraced isEnd safe trivial self_sourced inside
  refine opt_unbraced inside fun _ => seq_unbraced
    (element nothing setting nothing_sourced inside) fun rest inside => ?_
  refine fix_unbraced inside fun self holds self_sourced setting rest inside => ?_
  rw [Form.ifelse, Form.read]
  cases comma : (Glance.isNext .comma).run eof rest with
  | false => exact Outcome.yields_done.mpr (unbraced_nil inside)
  | true =>
    have kind : (ahead eof rest 0).token.kind = .comma := of_decide_eq_true comma
    refine seq_unbraced (seq_unbraced
      (any_unbraced folded inside kind (by decide) (by decide)) fun rest inside => ?_)
      (holds setting)
    exact opt_unbraced inside fun _ => element self setting self_sourced inside

theorem features_unbraced (inside : rest <:+ tokens) :
    (asmFeatures.read eof (level eof room) nothing setting rest).Yields
      (Unbraced eof tokens) := by
  refine fix_unbraced inside fun self holds self_sourced setting rest inside => ?_
  have feature : (identifier.read eof (level eof room) self setting rest).Yields
      (Unbraced eof tokens) :=
    single_unbraced isEnd (@identifier_safe eof .plain false) trivial self_sourced inside
  refine opt_unbraced inside fun _ => seq_unbraced (label_unbraced feature) fun rest inside => ?_
  refine opt_unbraced inside fun comma => ?_
  have kind : (ahead eof rest 0).token.kind = .comma := of_decide_eq_true comma
  exact seq_unbraced (any_unbraced folded inside kind (by decide) (by decide)) (holds setting)

end

section

variable {eof : Padded} (isEnd : eof.token.kind = .eof) {tokens : List Padded}
  (folded : Folded (tokens ++ [eof])) {room : Nat} {setting : Setting} {rest : List Padded}
  {first opener items : Form} {m : Bool} {spot : Spot}

theorem leavesOf_trivia (trivia : List Token) : leavesOf (trivia.map (.leaf none)) = trivia := by
  induction trivia with
  | nil => rfl
  | cons t ts ih => simp [leavesOf, Child.leaves, ih]

theorem descendantsOf_trivia (trivia : List Token) :
    descendantsOf (trivia.map (.leaf none)) = [] := by
  induction trivia with
  | nil => rfl
  | cons t ts ih => simp [descendantsOf, Child.descendants, ih]

include folded

theorem brace_opened (inside : rest <:+ tokens) :
    ((Form.token .openCurly).read eof (level eof room) nothing setting rest).Yields
      (Opened tokens) := by
  rw [Form.token, Form.read]
  split
  · next kind =>
    have trivial := next_folded folded inside
    refine Outcome.yields_done.mpr ⟨_, _, rfl, ?_, ?_, (Reading.next_suffix eof rest).trans inside⟩
    · exact (Reading.next_fst eof rest).symm ▸ kind
    · exact fun field t member => leaf_of_mem_leading trivial member
  · exact Outcome.yields_failed

theorem seq_opened
    (h : (first.read eof (level eof room) nothing setting rest).Yields (Unbraced eof tokens)) :
    ((first ++ Form.token .openCurly).read eof (level eof room) nothing setting rest).Yields
      (Opened tokens) := by
  refine h.andThen fun children after holds => ?_
  refine (brace_opened folded holds.1.1).imp fun more last opened => ?_
  obtain ⟨before, opening, rfl, kind, others, inside⟩ := opened
  refine ⟨children ++ before, opening, (List.append_assoc ..).symm, kind, ?_, inside⟩
  intro field t member
  rcases List.mem_append.mp member with member | member
  · exact holds.2 field t member
  · exact others field t member

include isEnd

/-- What is read between two braces leaves them partners. -/
theorem fenced_yields
    (opened : (opener.read eof (level eof room) nothing setting rest).Yields (Opened tokens))
    (others : ∀ rest, rest <:+ tokens →
      (items.read eof (level eof room) nothing setting rest).Yields (Unbraced eof tokens))
    (safe : Form.Safe eof m items spot) :
    ((opener ++ items ++ Form.token .closeCurly).read eof (level eof room) nothing setting
      rest).Yields fun children _ => Fenced children := by
  -- Behind the items and before the closing brace, their braces are closed.
  have between : ((opener ++ items).read eof (level eof room) nothing setting rest).Yields
      fun children after => ∃ before opening inner taken,
        children = before ++ .leaf none opening :: inner ∧ opening.kind = .openCurly
        ∧ (∀ field t, .leaf field t ∈ before ++ inner → t.isBrace = false)
        ∧ taken ++ after <:+ tokens ∧ Built eof taken after inner
        ∧ Balanced 0 0 taken after := by
    refine opened.andThen fun children after opens => ?_
    obtain ⟨before, opening, rfl, kind, unbraced, inside⟩ := opens
    intro inner last ended
    have inner_unbraced := others after inside inner last ended
    have covers := read_covers isEnd safe room setting after
    rw [Grammar.read, ended] at covers
    obtain ⟨taken, split, built, balanced, -, -⟩ := covers
    refine ⟨before, opening, inner, taken, ?_, kind, ?_, split ▸ inside, built, balanced⟩
    · rw [List.append_assoc, List.singleton_append]
    · intro field t member
      rcases List.mem_append.mp member with member | member
      · exact unbraced field t member
      · exact inner_unbraced.2 field t member
  refine between.andThen fun children after holds => ?_
  obtain ⟨before, opening, inner, taken, rfl, kind, unbraced, inside, built, balanced⟩ := holds
  rw [Form.token, Form.read]
  split
  · next close =>
    cases after with
    | nil => exact absurd (close.symm.trans isEnd) (by decide)
    | cons p ps =>
      have close : p.token.kind = .closeCurly := close
      have trivial : ∀ t ∈ p.leading, t.isTrivia = true :=
        folded p (List.mem_append_left _ (inside.subset (by simp)))
      have taken_folded : Folded taken := fun q among =>
        folded q (List.mem_append_left _ (inside.subset (List.mem_append_left _ among)))
      obtain ⟨whole, nodes⟩ :=
        built.braced_before taken_folded (List.cons_ne_nil p ps) balanced
      refine Outcome.yields_done.mpr ⟨before, opening, inner ++ p.leading.map (.leaf none),
        p.token, ?_, kind, close, ?_, ?_, ?_⟩
      · simp [Child.ofPadded]
      · intro field t member
        rw [← List.append_assoc] at member
        rcases List.mem_append.mp member with member | member
        · exact unbraced field t member
        · exact leaf_of_mem_leading trivial member
      · rw [leavesOf_append, leavesOf_trivia]
        exact whole.append (.trivia trivial)
      · rw [descendantsOf_append, descendantsOf_trivia, List.append_nil]
        exact nodes
  · exact Outcome.yields_failed

theorem blockItems_unbraced (inside : rest <:+ tokens) :
    ((Form.enter .blockItems).read eof (level eof room) nothing setting rest).Yields
      (Unbraced eof tokens) := by
  cases room with
  | zero => exact Outcome.yields_failed
  | succ room => exact statements_unbraced isEnd folded inside

end

theorem structItem_makes : structItem.MakesOne (fun _ => True) (· = .statement) := by
  intro s _
  dsimp only
  split
  · exact trivial
  · intro declares _
    cases declares with
    | true => exact trivial
    | false => exact rfl

theorem enumItem_makes : enumItem.MakesOne (fun _ => True) (· = .statement) := by
  intro s _
  dsimp only
  split
  · exact trivial
  · exact rfl

/-- Whether nodes of the kind have braces of their own. -/
def NodeKind.isFenced : NodeKind → Bool
  | .block | .structBody | .enumBody | .compositeLiteral | .asmBlock => true
  | _ => false

theorem NodeKind.isFramed_of_isFenced {kind : NodeKind} (fenced : kind.isFenced = true) :
    kind.isFramed = true ∨ kind = Growth.composite.kind := by
  unfold isFenced at fenced
  split at fenced
  · exact .inl rfl
  · exact .inl rfl
  · exact .inl rfl
  · exact .inr rfl
  · exact .inl rfl
  · cases fenced

theorem Fenced.headed {children head : List Child} (h : Fenced children)
    (nodes : head = [] ∨ ∃ field n, head = [.node field n]) : Fenced (head ++ children) := by
  obtain ⟨before, opening, inner, closing, rfl, opens, closes, others, whole, parts⟩ := h
  refine ⟨head ++ before, opening, inner, closing, (List.append_assoc ..).symm, opens, closes, ?_,
    whole, parts⟩
  intro field t member
  rw [List.append_assoc, List.mem_append] at member
  rcases member with member | member
  · rcases nodes with rfl | ⟨field, n, rfl⟩
    · cases member
    · cases List.mem_singleton.mp member
  · exact others field t member

theorem Sourced.fenced {eof : Padded} (isEnd : eof.token.kind = .eof) {tokens : List Padded}
    (folded : Folded (tokens ++ [eof])) {n : Node} (sourced : Sourced eof tokens n)
    (kind : n.kind.isFenced = true) : Fenced n.children := by
  cases sourced with
  | error error =>
    have same : n.kind = .error := of_decide_eq_true error
    rw [same] at kind
    cases kind
  | @plain sort children unframed other =>
    rcases NodeKind.isFramed_of_isFenced kind with framed | composite
    · exact absurd (unframed.symm.trans framed) (by decide)
    · exact absurd composite (other .composite)
  | @framed _ sort body room setting rest after children frames knows inside ended =>
    cases frames with
    | block =>
      have safe : Form.Safe eof false (.enter .blockItems) .plain := .enter .blockItems nofun
      exact fenced_yields isEnd folded (brace_opened folded inside)
        (fun rest inside => blockItems_unbraced isEnd folded inside) safe children after ended
    | structBody =>
      have safe := structItem_safe isEnd
      exact fenced_yields isEnd folded (brace_opened folded inside)
        (fun rest inside => bodyItems_unbraced isEnd folded safe structItem_makes inside)
        (bodyItems_safe isEnd safe) children after ended
    | enumBody =>
      have safe := enumItem_safe isEnd
      exact fenced_yields isEnd folded (brace_opened folded inside)
        (fun rest inside => bodyItems_unbraced isEnd folded safe enumItem_makes inside)
        (bodyItems_safe isEnd safe) children after ended
    | asmBlock word =>
      have asm := word rest knows
      have head : ((Form.any ++ asmFeatures).read eof (level eof room) nothing setting rest).Yields
          (Unbraced eof tokens) :=
        seq_unbraced (any_unbraced folded inside asm (by decide) (by decide)) fun rest inside =>
          features_unbraced isEnd folded inside
      have content (rest : List Padded) (inside : rest <:+ tokens) :
          ((Form.optToken .asmContent).read eof (level eof room) nothing setting rest).Yields
            (Unbraced eof tokens) :=
        opt_unbraced inside fun seen =>
          any_unbraced folded inside (of_decide_eq_true seen) (by decide) (by decide)
      have safe : Form.Safe eof false (Form.optToken .asmContent) .plain :=
        Form.optToken_safe isEnd rfl
      exact fenced_yields isEnd folded (seq_opened folded head) content safe children after ended
    | quotedString | hereString => cases kind
  | @grown growth room setting rest after head more headed inside ended =>
    cases growth with
    | composite =>
      have point : ((Form.token .dot).read eof (level eof room) nothing setting rest).Yields
          (Unbraced eof tokens) := token_unbraced folded inside (by decide) (by decide)
      have elements (rest : List Padded) (inside : rest <:+ tokens) :
          ((Form.within .literal (Form.items .closeCurly compositeElement)).read eof
            (level eof room) nothing setting rest).Yields (Unbraced eof tokens) :=
        elements_unbraced isEnd folded inside
      have safe : Form.Safe eof false
          (.within .literal (Form.items .closeCurly compositeElement)) .plain :=
        Form.Safe.within (Form.items_safe isEnd (compositeElement_safe isEnd)) rfl
      have fenced := fenced_yields isEnd folded (seq_opened folded point) elements safe more after
        ended
      exact fenced.headed (headed.imp id fun ⟨n, single⟩ => ⟨_, n, single⟩)
    | binary power | member | array | index | call => cases kind

/-- Whatever is wrong with a text, in its tree each block, body of a struct or of an enum, composite
literal and assembly block stands around two braces that are its own, and these are partners among
the tokens of the text: what could not be read between them is an error node that closes the braces
it opens, so that it neither takes the closing brace nor leaves it to another. -/
theorem parse_fenced (text : String) :
    ∀ n ∈ (parse text).root.descendants, n.kind.isFenced = true →
      ∃ before opening inner closing,
        n.children = before ++ .leaf none opening :: (inner ++ [.leaf none closing])
        ∧ (∀ field t, .leaf field t ∈ before ++ inner →
          t.kind ≠ .openCurly ∧ t.kind ≠ .closeCurly)
        ∧ Braced (leavesOf inner)
        ∧ Partners (tokenize text) opening closing
        ∧ ∀ m ∈ descendantsOf inner, Braced m.leaves := by
  intro n member fenced
  have folded : Folded ((Cursor.ofText text).tokens ++ [(Cursor.ofText text).eof]) :=
    fun p among => Cursor.folded_of_mem_ofText among
  obtain ⟨before, opening, inner, closing, children, opens, closes, others, whole, parts⟩ :=
    (parse_sourced text n member).fenced (Cursor.isEnd_ofText text) folded fenced
  refine ⟨before, opening, inner, closing, children, ?_, whole, ?_, parts⟩
  · intro field t among
    simpa [Token.isBrace] using others field t among
  · obtain ⟨earlier, later, split⟩ := leaves_infix_tokenize member
    have leaves : n.leaves = leavesOf before ++ opening :: (leavesOf inner ++ [closing]) := by
      obtain ⟨sort, children', error⟩ := n
      rw [show children' = _ from children, Node.leaves]
      simp [leavesOf, Child.leaves]
    refine ⟨earlier ++ leavesOf before, leavesOf inner, later, ?_, opens, closes, whole⟩
    rw [← split, leaves]
    simp

/-- A block around a statement that cannot be read, with braces of its own. -/
theorem parse_fenced_recovered :
    ∃ n ∈ (parse "\x7b x := ) \x7b 1 \x7d y; \x7d").root.descendants,
      n.kind = .block ∧ n.errorNodes ≠ []
      ∧ ∃ opening closing, .leaf none opening ∈ n.children ∧ .leaf none closing ∈ n.children
        ∧ Partners (tokenize "\x7b x := ) \x7b 1 \x7d y; \x7d") opening closing := by
  have found : ((parse "\x7b x := ) \x7b 1 \x7d y; \x7d").root.descendants.any fun n =>
      n.kind = .block ∧ n.errorNodes.isEmpty = false) = true := by decide +kernel
  obtain ⟨n, member, sort⟩ := List.any_eq_true.mp found
  obtain ⟨kind, errors⟩ := of_decide_eq_true sort
  have fenced : n.kind.isFenced = true := by rw [kind]; rfl
  obtain ⟨before, opening, inner, closing, children, -, -, partners, -⟩ :=
    parse_fenced _ n member fenced
  refine ⟨n, member, kind, List.isEmpty_eq_false_iff.mp errors, opening, closing, ?_, ?_, partners⟩
  · simp [children]
  · simp [children]

end JaiTree
