import JaiTree.Proofs.Grammar.Statements
import JaiTree.Proofs.Grammar.Yields
import JaiTree.Proofs.Tree.Built

/-!
Groups: the forms that take tokens which are cut off together are read from tokens of such kinds,
and put one node around them. Main statement: `Form.Groups.bundled`.
-/

namespace JaiTree

/-- The kinds of some tokens. -/
def kindsOf (tokens : List Padded) : List TokenKind := tokens.map fun t => t.token.kind

@[simp] theorem kindsOf_cons (t : Padded) (ts : List Padded) :
    kindsOf (t :: ts) = t.token.kind :: kindsOf ts := rfl

@[simp] theorem kindsOf_append (s t : List Padded) : kindsOf (s ++ t) = kindsOf s ++ kindsOf t :=
  List.map_append

/-- The tokens that were taken from the head of `rest` are of kinds like these. -/
def Took (kinds : List TokenKind → Prop) (rest : List Padded) : Post :=
  fun _ after => ∃ taken, rest = taken ++ after ∧ kinds (kindsOf taken)

/-- These kinds are cut off together and put under a node of the kind. -/
def GroupedAs (kind : NodeKind) (kinds : List TokenKind) : Prop :=
  Grouped kinds ∧ NodeKind.ofGroup kinds = kind

/-- The tokens that were taken from the head of `rest` are bundled in the children. -/
def Bundled (rest : List Padded) : Post :=
  fun children after => ∃ taken, rest = taken ++ after ∧ Bundle taken children

/-- All nodes of the children are fragments. -/
def Fragments : Post := fun children _ => ∀ n ∈ descendantsOf children, n.kind.isFragment = true

theorem Took.nothing {kinds : List TokenKind → Prop} (h : kinds []) {rest : List Padded}
    {children : List Child} : Took kinds rest children rest := ⟨[], rfl, h⟩

namespace Form

/-- Forms that put nothing but fragments around the tokens they take. Only inside a loop `again`
may be one of their parts. -/
def IsFragment : (inLoop : Bool) → Form → Prop
  | _, .empty | _, .take _ | _, .expect _ _ | _, .refuse _ => True
  | inLoop, .again => inLoop = true
  | inLoop, .seq first second => first.IsFragment inLoop ∧ second.IsFragment inLoop
  | inLoop, .node kind body => kind.isFragment = true ∧ body.IsFragment inLoop
  | inLoop, .label _ body => body.IsFragment inLoop
  | inLoop, .choose _ next => ∀ k, (next k).IsFragment inLoop
  | _, .fix body => body.IsFragment true
  | _, .faulty | _, .enter _ | _, .within _ _ | _, .grow _ _ _ _ _ _ | _, .lead _ _ _ _ _
  | _, .guard _ => False

section Fragments

variable {eof : Padded} {deeper : Goal → Reading}

theorem read_fragments {form : Form} {inLoop : Bool} (fragment : form.IsFragment inLoop)
    {self : Reading}
    (again : inLoop = true → ∀ setting rest, (self setting rest).Yields Fragments)
    (setting : Setting) (rest : List Padded) :
    (form.read eof deeper self setting rest).Yields Fragments := by
  induction form generalizing inLoop self setting rest with
  | empty => exact Outcome.yields_done.mpr (List.forall_mem_nil _)
  | seq first second ih ih' =>
    refine (ih fragment.1 again setting rest).andThen fun children after sound => ?_
    refine (ih' fragment.2 again setting after).imp fun more _ sound' n member => ?_
    rw [descendantsOf_append, List.mem_append] at member
    exact member.elim (sound n) (sound' n)
  | take field =>
    refine Outcome.yields_done.mpr fun n member => ?_
    rw [descendantsOf_ofPadded] at member
    cases member
  | expect kind field =>
    rw [read]
    split
    · refine Outcome.yields_done.mpr fun n member => ?_
      rw [descendantsOf_ofPadded] at member
      cases member
    · exact Outcome.yields_failed
  | refuse cause => exact Outcome.yields_failed
  | node kind body ih =>
    refine Outcome.yields_map.mpr ((ih fragment.2 again setting rest).imp ?_)
    intro children _ sound n member
    rw [descendantsOf_under, List.mem_cons] at member
    rcases member with rfl | member
    · exact fragment.1
    · exact sound n member
  | label field body ih =>
    refine Outcome.yields_map.mpr ((ih fragment again setting rest).imp ?_)
    intro children _ sound n member
    rw [Child.labelled, descendantsOf_relabel] at member
    exact sound n member
  | choose look next ih => exact ih _ (fragment _) again setting rest
  | fix body ih =>
    have nothing (rest : List Padded) : Fragments [] rest := List.forall_mem_nil _
    exact @Reading.unrolled_yields _ (fun _ => Fragments) nothing
      (fun self again => ih fragment fun _ => again) _ setting rest
  | again => exact again fragment setting rest
  | faulty | enter | within | grow | lead | guard => exact fragment.elim

theorem opt_isFragment {inLoop : Bool} {allowed : Sight → Bool} {body : Form}
    (fragment : body.IsFragment inLoop) : (opt allowed body).IsFragment inLoop := by
  intro s
  dsimp only
  split
  · exact fragment
  · exact trivial

theorem pieces_isFragment :
    (many Grammar.atStringPiece Grammar.stringPiece).IsFragment false := by
  intro more
  cases more with
  | false => exact trivial
  | true =>
    refine ⟨fun s => ?_, rfl⟩
    dsimp only
    split
    · exact ⟨rfl, trivial⟩
    · exact ⟨rfl, trivial⟩
    · exact trivial

/-- A form that takes tokens which are cut off together puts a node around what it takes, and in it
nothing but fragments. -/
theorem Groups.node {known : Known} {form : Form} (h : Groups eof known form) :
    ∃ kind body, form = .node kind body ∧ body.IsFragment false := by
  cases h with
  | quotedString => exact ⟨_, _, rfl, ⟨trivial, pieces_isFragment⟩, trivial⟩
  | hereString =>
    exact ⟨_, _, rfl, ⟨⟨trivial, rfl, trivial⟩, opt_isFragment trivial⟩, rfl, trivial⟩
  | asmBlock =>
    have features : Grammar.asmFeatures.IsFragment false :=
      @opt_isFragment true _ _ ⟨⟨rfl, trivial⟩, opt_isFragment ⟨trivial, rfl⟩⟩
    exact ⟨_, _, rfl, ⟨⟨⟨trivial, features⟩, trivial⟩, opt_isFragment trivial⟩, trivial⟩

end Fragments

variable {eof : Padded} (isEnd : eof.token.kind = .eof) {deeper : Goal → Reading} {self : Reading}
  {setting : Setting} {rest : List Padded} {first second body : Form}
  {kinds kinds' : List TokenKind → Prop}

theorem seq_took (whole : List TokenKind → Prop)
    (h : (first.read eof deeper self setting rest).Yields (Took kinds rest))
    (h' : ∀ rest, (second.read eof deeper self setting rest).Yields (Took kinds' rest))
    (both : ∀ a b, kinds a → kinds' b → whole (a ++ b)) :
    ((first ++ second).read eof deeper self setting rest).Yields (Took whole rest) := by
  refine h.andThen fun _ after ⟨taken, split, holds⟩ => (h' after).imp ?_
  rintro _ last ⟨more, split', holds'⟩
  refine ⟨taken ++ more, by rw [split, split', List.append_assoc], ?_⟩
  rw [kindsOf_append]
  exact both _ _ holds holds'

theorem node_took {kind : NodeKind}
    (h : (body.read eof deeper self setting rest).Yields (Took kinds rest)) :
    ((node kind body).read eof deeper self setting rest).Yields (Took kinds rest) :=
  Outcome.yields_map.mpr h

theorem opt_took (kinds : List TokenKind → Prop) {allowed : Sight → Bool} (none : kinds [])
    (h : allowed (ahead eof rest 0).sight = true →
      (body.read eof deeper self setting rest).Yields (Took kinds rest)) :
    ((opt allowed body).read eof deeper self setting rest).Yields (Took kinds rest) := by
  rw [opt, onSight, read, Glance.run_tokenAt]
  split
  · next holds => exact h holds
  · exact Outcome.yields_done.mpr (.nothing none)

include isEnd

theorem take_took {kind : TokenKind} {field : Option Field} (ne_eof : kind ≠ .eof)
    (h : (ahead eof rest 0).token.kind = kind) :
    ((take field).read eof deeper self setting rest).Yields (Took (· = [kind]) rest) := by
  cases rest with
  | nil => exact absurd (h.symm.trans isEnd) ne_eof
  | cons t ts =>
    refine Outcome.yields_done.mpr ⟨[t], rfl, ?_⟩
    rw [kindsOf_cons, ← h]
    rfl

theorem expect_took {kind : TokenKind} {field : Option Field} (ne_eof : kind ≠ .eof) :
    ((expect kind field).read eof deeper self setting rest).Yields (Took (· = [kind]) rest) := by
  rw [read]
  split
  · next h => exact @take_took eof isEnd deeper self setting rest kind field ne_eof h
  · exact Outcome.yields_failed

theorem identifier_took :
    (Grammar.identifier.read eof deeper self setting rest).Yields (Took (· = [.identifier]) rest) :=
  node_took (expect_took isEnd (by decide))

/-- What each token of a loop is like, all that the loop takes are like. -/
theorem pieces_took :
    ((many Grammar.atStringPiece Grammar.stringPiece).read eof deeper self setting rest).Yields
      (Took (∀ kind ∈ ·, kind.isStringPiece = true) rest) := by
  rw [many, read]
  refine Reading.unrolled_yields (fun rest => .nothing (List.forall_mem_nil _))
    (fun self again setting rest => ?_) _ setting rest
  rw [ifelse, read]
  cases more : Grammar.atStringPiece.run eof rest with
  | false => exact Outcome.yields_done.mpr (.nothing (List.forall_mem_nil _))
  | true =>
    have isPiece : (ahead eof rest 0).token.kind.isStringPiece = true := by
      simp only [Grammar.atStringPiece, Glance.run_bind, Glance.run_kindAt] at more
      split at more
      iterate 3 next kind => rw [kind]; rfl
      cases more
    have ne_eof : (ahead eof rest 0).token.kind ≠ .eof := by
      intro kind
      rw [kind] at isPiece
      cases isPiece
    have piece : (Grammar.stringPiece.read eof deeper self setting rest).Yields
        (Took (· = [(ahead eof rest 0).token.kind]) rest) := by
      rw [Grammar.stringPiece, onSight, read]
      split
      · exact node_took (take_took isEnd ne_eof rfl)
      · exact node_took (take_took isEnd ne_eof rfl)
      · exact take_took isEnd ne_eof rfl
    refine seq_took _ piece (again setting) fun a b one others kind member => ?_
    rw [one, List.singleton_append, List.mem_cons] at member
    exact member.elim (fun same => same ▸ isPiece) (others kind)

theorem features_took :
    (Grammar.asmFeatures.read eof deeper self setting rest).Yields
      (Took (∀ kind ∈ ·, kind = .identifier ∨ kind = .comma) rest) := by
  rw [Grammar.asmFeatures, read]
  refine Reading.unrolled_yields (fun rest => .nothing (List.forall_mem_nil _))
    (fun self again setting rest => ?_) _ setting rest
  refine opt_took _ (List.forall_mem_nil _) fun _ => ?_
  have feature : ((label .features Grammar.identifier).read eof deeper self setting rest).Yields
      (Took (· = [.identifier]) rest) := Outcome.yields_map.mpr (identifier_took isEnd)
  refine seq_took _ feature (fun rest => opt_took (∀ kind ∈ ·, kind = .identifier ∨ kind = .comma)
    (List.forall_mem_nil _) fun comma => ?_) ?_
  · refine seq_took _ (take_took isEnd (by decide) (of_decide_eq_true comma)) (again setting) ?_
    rintro _ b rfl others kind member
    exact (List.mem_cons.mp member).elim .inr (others kind)
  · rintro _ b rfl others kind member
    exact (List.mem_cons.mp member).elim .inl (others kind)

theorem quotedString_took :
    (Grammar.quotedString.read eof deeper self setting rest).Yields
      (Took (GroupedAs .stringLiteral) rest) := by
  have quote (rest : List Padded) :
      ((token .doubleQuote).read eof deeper self setting rest).Yields
        (Took (· = [.doubleQuote]) rest) := expect_took isEnd (by decide)
  have opened := seq_took
    (fun ks => ∃ pieces, ks = .doubleQuote :: pieces ∧ ∀ kind ∈ pieces, kind.isStringPiece = true)
    (quote rest) (fun rest => pieces_took isEnd) (by
      rintro _ pieces rfl sound
      exact ⟨pieces, rfl, sound⟩)
  refine node_took (seq_took _ opened quote ?_)
  rintro _ _ ⟨pieces, rfl, sound⟩ rfl
  exact ⟨.quotedString sound, rfl⟩

theorem hereString_took :
    (Grammar.hereString.read eof deeper self setting rest).Yields
      (Took (GroupedAs .stringLiteral) rest) := by
  have word : ((token (.directive .string)).read eof deeper self setting rest).Yields
      (Took (· = [.directive .string]) rest) := expect_took isEnd (by decide)
  have name (field : Field) {rest : List Padded} :
      ((label field Grammar.identifier).read eof deeper self setting rest).Yields
        (Took (· = [.identifier]) rest) := Outcome.yields_map.mpr (identifier_took isEnd)
  have content {rest : List Padded} :
      ((opt (fun s => s.kind = .hereStringContent) (.take (some .content))).read eof deeper self
        setting rest).Yields (Took (fun ks => ks = [] ∨ ks = [.hereStringContent]) rest) := by
    refine opt_took _ (.inl rfl) fun seen => ?_
    refine (take_took isEnd (by decide) (of_decide_eq_true seen)).imp ?_
    rintro _ _ ⟨taken, split, kinds⟩
    exact ⟨taken, split, .inr kinds⟩
  have named := seq_took (· = [.directive .string, .identifier])
    word (fun rest => name .delimiter) (by rintro _ _ rfl rfl; rfl)
  have filled := seq_took
    (fun ks => ∃ content, ks = .directive .string :: .identifier :: content
      ∧ (content = [] ∨ content = [.hereStringContent]))
    named (fun rest => content) (by rintro _ b rfl sound; exact ⟨b, rfl, sound⟩)
  refine node_took (seq_took _ filled (fun rest => name .endDelimiter) ?_)
  rintro _ _ ⟨content, rfl, sound⟩ rfl
  exact ⟨.hereString sound, rfl⟩

theorem asmBlock_took (h : (ahead eof rest 0).token.kind = .directive .asm) :
    (Grammar.asmBlock.read eof deeper self setting rest).Yields
      (Took (GroupedAs .asmBlock) rest) := by
  have word : (any.read eof deeper self setting rest).Yields (Took (· = [.directive .asm]) rest) :=
    take_took isEnd (by decide) h
  have brace (kind : TokenKind) (ne_eof : kind ≠ .eof) {rest : List Padded} :
      ((token kind).read eof deeper self setting rest).Yields (Took (· = [kind]) rest) :=
    expect_took isEnd ne_eof
  have content {rest : List Padded} :
      ((optToken .asmContent).read eof deeper self setting rest).Yields
        (Took (fun ks => ks = [] ∨ ks = [.asmContent]) rest) := by
    refine opt_took _ (.inl rfl) fun seen => ?_
    refine (take_took isEnd (by decide) (of_decide_eq_true seen)).imp ?_
    rintro _ _ ⟨taken, split, kinds⟩
    exact ⟨taken, split, .inr kinds⟩
  have asked := seq_took
    (fun ks => ∃ features, ks = .directive .asm :: features
      ∧ ∀ kind ∈ features, kind = .identifier ∨ kind = .comma)
    word (fun rest => features_took isEnd) (by rintro _ b rfl sound; exact ⟨b, rfl, sound⟩)
  have opened := seq_took
    (fun ks => ∃ features, ks = .directive .asm :: features ++ [.openCurly]
      ∧ ∀ kind ∈ features, kind = .identifier ∨ kind = .comma)
    asked (fun rest => brace .openCurly (by decide)) (by
      rintro _ _ ⟨features, rfl, sound⟩ rfl
      exact ⟨features, rfl, sound⟩)
  have filled := seq_took
    (fun ks => ∃ features content,
      ks = .directive .asm :: features ++ .openCurly :: content
      ∧ (∀ kind ∈ features, kind = .identifier ∨ kind = .comma)
      ∧ (content = [] ∨ content = [.asmContent]))
    opened (fun rest => content) (by
      rintro _ b ⟨features, rfl, sound⟩ held
      exact ⟨features, b, by simp, sound, held⟩)
  refine node_took (seq_took _ filled (fun rest => brace .closeCurly (by decide)) ?_)
  rintro _ _ ⟨features, content, rfl, sound, held⟩ rfl
  exact ⟨by simpa using Grouped.asmBlock sound held, rfl⟩

/-- What such a form takes are tokens of kinds that are cut off together, and it puts the node of
such a group around them. -/
theorem Groups.bundled {known : Known} {form : Form} (h : Groups eof known form)
    (knows : known rest) :
    (form.read eof deeper self setting rest).Yields (Bundled rest) := by
  have took : ∃ kind body, form = .node kind body
      ∧ (form.read eof deeper self setting rest).Yields (Took (GroupedAs kind) rest) := by
    cases h with
    | quotedString => exact ⟨_, _, rfl, quotedString_took isEnd⟩
    | hereString => exact ⟨_, _, rfl, hereString_took isEnd⟩
    | asmBlock asm => exact ⟨_, _, rfl, asmBlock_took isEnd (asm rest knows)⟩
  obtain ⟨kind, body, rfl, took⟩ := took
  obtain ⟨_, _, same, fragment⟩ := h.node
  obtain ⟨rfl, rfl⟩ := Form.node.inj same
  have inner : (body.read eof deeper self setting rest).Yields Fragments :=
    read_fragments fragment (fun no => nomatch no) setting rest
  rw [read, Outcome.yields_map] at took ⊢
  refine (took.and inner).imp fun children after both => ?_
  obtain ⟨⟨taken, split, grouped, kind⟩, sound⟩ := both
  exact ⟨taken, split, grouped, children, by rw [← kind]; rfl, sound⟩

end Form

end JaiTree
