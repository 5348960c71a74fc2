import JaiTree.Proofs.Lexer.HereStrings
import JaiTree.Proofs.Tree.Origins
import JaiTree.Proofs.Tree.Spans

/-!
Here-strings in the tree: a string between two names is what the lexer has cut as one only where the
first name stands on the line of the directive. Main statement: `parse_delimiters`.
-/

namespace JaiTree

/-- The node holds some content right between two names that are spelled alike. -/
def Node.Encloses (n delimiter ending : Node) : Prop :=
  ∃ first content last before,
    delimiter.firstToken? = some first ∧ ending.firstToken? = some last
    ∧ first.kind = .identifier ∧ last.kind = .identifier ∧ last.text = first.text
    ∧ n.children = before ++ [.node (some .delimiter) delimiter, .leaf (some .content) content,
        .node (some .endDelimiter) ending]
    ∧ content.kind = .hereStringContent
    ∧ first.stop = content.start ∧ content.stop = last.start

/-- A name as a node, with the trivia before it. -/
def Node.named (padded : Padded) : Node := .sound .identifier (Child.ofPadded none padded)

/-- The children of a string between two names, over the tokens that were taken for them. -/
inductive HereString : List Padded → List Child → Prop
  | empty {mark first last : Padded} : mark.token.kind = .directive .string →
      first.token.kind = .identifier → last.token.kind = .identifier →
      HereString [mark, first, last] (Child.ofPadded none mark
        ++ [.node (some .delimiter) (.named first), .node (some .endDelimiter) (.named last)])
  | held {mark first content last : Padded} : mark.token.kind = .directive .string →
      first.token.kind = .identifier → content.token.kind = .hereStringContent →
      last.token.kind = .identifier →
      HereString [mark, first, content, last] (Child.ofPadded none mark
        ++ .node (some .delimiter) (.named first) :: (Child.ofPadded (some .content) content
          ++ [.node (some .endDelimiter) (.named last)]))

/-- The children are made in a way from the tokens that were taken for them. -/
def Making (made : List Padded → List Child → Prop) (rest : List Padded) : Post :=
  fun children after => ∃ taken, rest = taken ++ after ∧ made taken children

/-- The children of a token or a name, made from it. -/
def Single (kind : TokenKind) (make : Padded → List Child) (taken : List Padded)
    (children : List Child) : Prop :=
  ∃ t : Padded, taken = [t] ∧ t.token.kind = kind ∧ children = make t

open Grammar

section

variable {eof : Padded} (isEnd : eof.token.kind = .eof) {deeper : Goal → Reading} {self : Reading}
  {setting : Setting} {rest : List Padded} {first second : Form}
  {made made' : List Padded → List Child → Prop}

theorem seq_making (h : (first.read eof deeper self setting rest).Yields (Making made rest))
    (h' : ∀ rest, (second.read eof deeper self setting rest).Yields (Making made' rest)) :
    ((first ++ second).read eof deeper self setting rest).Yields (Making (fun taken children =>
      ∃ a b more more', taken = a ++ b ∧ children = more ++ more' ∧ made a more ∧ made' b more')
      rest) := by
  refine h.andThen fun children after makes => ?_
  obtain ⟨taken, rfl, left⟩ := makes
  refine (h' after).imp fun more last makes => ?_
  obtain ⟨taken', rfl, right⟩ := makes
  exact ⟨taken ++ taken', by simp, taken, taken', children, more, rfl, rfl, left, right⟩

include isEnd

theorem take_making {kind : TokenKind} (ne_eof : kind ≠ .eof) (field : Option Field)
    (found : (ahead eof rest 0).token.kind = kind) :
    ((Form.take field).read eof deeper self setting rest).Yields
      (Making (Single kind (Child.ofPadded field)) rest) := by
  cases rest with
  | nil => exact absurd (found.symm.trans isEnd) ne_eof
  | cons t ts => exact Outcome.yields_done.mpr ⟨[t], rfl, t, rfl, found, rfl⟩

theorem token_making {kind : TokenKind} (ne_eof : kind ≠ .eof) :
    ((Form.token kind).read eof deeper self setting rest).Yields
      (Making (Single kind (Child.ofPadded none)) rest) := by
  rw [Form.token, Form.read]
  split
  · next found => exact @take_making eof isEnd deeper self setting rest _ ne_eof none found
  · exact Outcome.yields_failed

theorem name_making (field : Field) :
    ((Form.label field identifier).read eof deeper self setting rest).Yields
      (Making (Single .identifier fun t => [.node (some field) (.named t)]) rest) := by
  rw [Form.read, Outcome.yields_map, identifier, Form.read, Outcome.yields_map]
  refine (token_making isEnd (by decide)).imp fun children after makes => ?_
  obtain ⟨_, rfl, t, rfl, kind, rfl⟩ := makes
  exact ⟨[t], rfl, t, rfl, kind, rfl⟩

theorem content_making :
    ((Form.opt (fun s => s.kind = .hereStringContent) (.take (some .content))).read eof deeper self
      setting rest).Yields (Making (fun taken children => (taken = [] ∧ children = [])
        ∨ Single .hereStringContent (Child.ofPadded (some .content)) taken children) rest) := by
  rw [Form.opt, Form.onSight, Form.read, Glance.run_tokenAt]
  split
  · next found =>
    refine (take_making isEnd (by decide) _ (of_decide_eq_true found)).imp
      fun children after makes => ?_
    obtain ⟨taken, split, single⟩ := makes
    exact ⟨taken, split, .inr single⟩
  · exact Outcome.yields_done.mpr ⟨[], rfl, .inl ⟨rfl, rfl⟩⟩

/-- A string between two names is made of its directive, the names, and content if there is any. -/
theorem hereString_making {kind : NodeKind} {body : Form} (same : hereString = .node kind body) :
    (body.read eof deeper self setting rest).Yields (Making HereString rest) := by
  cases same
  refine (seq_making (seq_making (seq_making (token_making isEnd (by decide))
    fun rest => name_making isEnd _) fun rest => content_making isEnd)
    fun rest => name_making isEnd _).imp fun children after makes => ?_
  obtain ⟨_, split, _, _, _, _, rfl, rfl, ⟨_, _, _, _, rfl, rfl, ⟨_, _, _, _, rfl, rfl, mark,
    first⟩, content⟩, last⟩ := makes
  obtain ⟨mark, rfl, string, rfl⟩ := mark
  obtain ⟨first, rfl, named, rfl⟩ := first
  obtain ⟨last, rfl, named', rfl⟩ := last
  rcases content with ⟨rfl, rfl⟩ | ⟨content, rfl, held, rfl⟩
  · exact ⟨_, split, by simpa using HereString.empty string named named'⟩
  · exact ⟨_, split, by simpa using HereString.held string named held named'⟩

end

/-- No child of a string between quotes stands in a part. -/
theorem quotedString_within {eof : Padded} (isEnd : eof.token.kind = .eof) {room : Nat}
    {setting : Setting} {rest : List Padded} {kind : NodeKind} {body : Form}
    (same : quotedString = .node kind body) :
    (Grammar.read eof room body setting rest).Yields (Within []) := by
  cases same
  have piece : stringPiece.PartsIn [] true := fun s => by
    dsimp only
    split
    · trivial
    · trivial
    · exact .any
  have parts : (Form.token .doubleQuote ++ Form.many atStringPiece stringPiece
      ++ Form.token .doubleQuote).PartsIn [] := ⟨⟨.token, .many piece⟩, .token⟩
  exact parts.yields (level_sorted isEnd room).toHeads.single nofun

theorem Sourced.hereString {eof : Padded} (isEnd : eof.token.kind = .eof) {tokens : List Padded}
    {n delimiter : Node} (sourced : Sourced eof tokens n) (kind : n.kind = .stringLiteral)
    (part : .node (some .delimiter) delimiter ∈ n.children) :
    ∃ taken, (∀ p ∈ taken, p ∈ tokens) ∧ HereString taken n.children := by
  cases sourced with
  | error error =>
    have same : n.kind = .error := of_decide_eq_true error
    rw [same] at kind
    cases kind
  | plain unframed other =>
    cases kind
    cases unframed
  | @framed _ sort body room setting rest after children frames knows inside ended =>
    cases frames with
    | block | structBody | enumBody | asmBlock => cases kind
    | quotedString =>
      have parts := quotedString_within isEnd rfl children after ended
      cases parts _ part _ rfl
    | hereString =>
      obtain ⟨taken, split, made⟩ := hereString_making isEnd rfl children after ended
      refine ⟨taken, fun p member => inside.subset ?_, made⟩
      rw [split]
      exact List.mem_append_left after member
  | @grown growth _ _ _ _ _ _ _ _ _ => cases growth <;> cases kind

theorem Node.named_leaves (padded : Padded) : (Node.named padded).leaves = padded.tokens := by
  rw [named, sound, leaves, leavesOf_ofPadded]

/-- The first token of a name is the name. -/
theorem Node.firstToken?_named {padded : Padded}
    (trivial : ∀ t ∈ padded.leading, t.isTrivia = true) (kind : padded.token.kind = .identifier) :
    (Node.named padded).firstToken? = some padded.token := by
  have seen : padded.token.isTrivia = false := by rw [Token.isTrivia, kind]; rfl
  have none : padded.leading.find? (fun t => !t.isTrivia) = none := by
    refine List.find?_eq_none.mpr fun t member => ?_
    simp [trivial t member]
  rw [firstToken?, named_leaves, Padded.tokens, List.find?_append, none]
  simp [seen]

theorem Child.node_of_mem_ofPadded {field part : Option Field} {padded : Padded} {n : Node} :
    .node part n ∉ Child.ofPadded field padded := by
  intro member
  simp [ofPadded] at member

/-- What holds of the trivia of a name holds of what stands before its token. -/
theorem Node.forall_trivia_named {padded : Padded} {holds : Token → Prop}
    (trivial : ∀ t ∈ padded.leading, t.isTrivia = true) (kind : padded.token.kind = .identifier) :
    (∀ t ∈ (Node.named padded).leaves, t.isTrivia = true → holds t)
      ↔ ∀ t ∈ padded.leading, holds t := by
  have seen : padded.token.isTrivia = false := by rw [Token.isTrivia, kind]; rfl
  rw [named_leaves, Padded.tokens]
  constructor
  · intro all t member
    exact all t (List.mem_append_left _ member) (trivial t member)
  · intro all t member trivia
    rcases List.mem_append.mp member with member | member
    · exact all t member
    · rw [List.mem_singleton.mp member, seen] at trivia
      cases trivia

section

variable {text : String} {before behind : List Token} {mark first last content : Padded}
  (trivial : ∀ t ∈ first.leading, t.isTrivia = true)
  (string : mark.token.kind = .directive .string) (named : first.token.kind = .identifier)
  (named' : last.token.kind = .identifier)
include trivial string named named'

/-- Where a name follows another behind a directive, the first is on another line. -/
theorem not_indents_of_name (trivial' : ∀ t ∈ last.leading, t.isTrivia = true)
    (whole : tokenize text = before ++ mark.token :: (first.leading ++ first.token
      :: (last.leading ++ last.token :: behind))) :
    ¬ ∀ t ∈ first.leading, ∀ c ∈ t.text.toList, Text.isIndent c = true := by
  intro indents
  obtain ⟨other, _, _, follows, held, -⟩ :=
    content_of_indents whole string trivial named indents
  have seen : other.isTrivia = false := by rw [Token.isTrivia, held]; rfl
  have seen' : last.token.isTrivia = false := by rw [Token.isTrivia, named']; rfl
  obtain ⟨-, rfl, -⟩ := @eq_of_trivia _ [] _ _ _ _ follows trivial' (by simp) seen' seen
  cases held.symm.trans named'

/-- Where content follows a name behind a directive, the name is on its line and follows again. -/
theorem encloses_of_content (held : content.token.kind = .hereStringContent)
    (trivial' : ∀ t ∈ content.leading, t.isTrivia = true)
    (trivial'' : ∀ t ∈ last.leading, t.isTrivia = true)
    (whole : tokenize text = before ++ mark.token :: (first.leading ++ first.token
      :: (content.leading ++ content.token :: (last.leading ++ last.token :: behind)))) :
    (∀ t ∈ first.leading, ∀ c ∈ t.text.toList, Text.isIndent c = true)
      ∧ content.leading = [] ∧ last.leading = [] ∧ last.token.text = first.token.text
      ∧ first.token.stop = content.token.start ∧ content.token.stop = last.token.start := by
  have indents := indents_of_content whole string trivial named rfl trivial' held
  obtain ⟨c, l, rest, follows, held', again, same⟩ :=
    content_of_indents whole string trivial named indents
  have seen : content.token.isTrivia = false := by rw [Token.isTrivia, held]; rfl
  have seen' : c.isTrivia = false := by rw [Token.isTrivia, held']; rfl
  obtain ⟨bare, rfl, later⟩ := @eq_of_trivia _ [] _ _ _ _ follows trivial' (by simp) seen seen'
  have seen : last.token.isTrivia = false := by rw [Token.isTrivia, named']; rfl
  have seen' : l.isTrivia = false := by rw [Token.isTrivia, again]; rfl
  obtain ⟨bare', rfl, -⟩ := @eq_of_trivia _ [] _ _ _ _ later trivial'' (by simp) seen seen'
  have chain := (tokenize_tiles text).isChain
  rw [whole, bare, bare', List.nil_append, List.nil_append, List.isChain_append] at chain
  have behind_mark := chain.2.1.tail
  rw [List.tail_cons, List.isChain_append] at behind_mark
  have names := behind_mark.2.1
  rw [List.isChain_cons_cons, List.isChain_cons_cons] at names
  exact ⟨indents, bare, bare', same, names.1, names.2.1⟩

end

/-- A string between two names holds content right between two names that are spelled alike just
when only blanks stand between its directive and the first name. Elsewhere the first two names
behind a directive are taken for its delimiters, whatever they are. -/
theorem parse_delimiters (text : String) :
    ∀ n ∈ (parse text).root.descendants, n.kind = .stringLiteral →
      ∀ delimiter ending, .node (some .delimiter) delimiter ∈ n.children →
        .node (some .endDelimiter) ending ∈ n.children →
        (n.Encloses delimiter ending
          ↔ ∀ t ∈ delimiter.leaves, t.isTrivia = true →
            ∀ c ∈ t.text.toList, Text.isIndent c = true) := by
  intro n member kind delimiter ending part part'
  obtain ⟨taken, among, made⟩ :=
    (parse_sourced text n member).hereString (Cursor.isEnd_ofText text) kind part
  have folded (p : Padded) (inside : p ∈ taken) : ∀ t ∈ p.leading, t.isTrivia = true :=
    Cursor.folded_of_mem_ofText (List.mem_append_left _ (among p inside))
  obtain ⟨earlier, later, split⟩ := leaves_infix_tokenize member
  obtain ⟨sort, children, error⟩ := n
  rw [Node.children] at made part part'
  rw [Node.leaves] at split
  cases made with
  | @empty mark first last string named named' =>
    obtain rfl : delimiter = .named first := by
      simpa [Child.node_of_mem_ofPadded] using part
    have trivial := folded first (by simp)
    have whole : tokenize text = (earlier ++ mark.leading) ++ mark.token
        :: (first.leading ++ first.token :: (last.leading ++ last.token :: later)) := by
      rw [← split]
      simp [leavesOf, Child.leaves, Node.named_leaves, Padded.tokens]
    rw [Node.forall_trivia_named trivial named]
    refine iff_of_false ?_ (not_indents_of_name trivial string named named' (folded last (by simp))
      whole)
    intro encloses
    obtain ⟨_, content, _, before, -, -, -, -, -, parts, -⟩ := encloses
    have among : .leaf (some .content) content ∈ Child.ofPadded none mark
        ++ [.node (some .delimiter) (.named first), .node (some .endDelimiter) (.named last)] := by
      rw [Node.children] at parts
      rw [parts]
      simp
    simp [Child.ofPadded] at among
  | @held mark first content last string named held named' =>
    obtain rfl : delimiter = .named first := by
      simpa [Child.node_of_mem_ofPadded] using part
    obtain rfl : ending = .named last := by
      simpa [Child.node_of_mem_ofPadded] using part'
    have trivial := folded first (by simp)
    have whole : tokenize text = (earlier ++ mark.leading) ++ mark.token
        :: (first.leading ++ first.token :: (content.leading ++ content.token
          :: (last.leading ++ last.token :: later))) := by
      rw [← split]
      simp [leavesOf, Child.leaves, Node.named_leaves, Padded.tokens]
    obtain ⟨indents, bare, bare', same, left, right⟩ :=
      encloses_of_content trivial string named named' held (folded content (by simp))
        (folded last (by simp)) whole
    rw [Node.forall_trivia_named trivial named]
    refine iff_of_true ⟨first.token, content.token, last.token, Child.ofPadded none mark,
      Node.firstToken?_named trivial named, Node.firstToken?_named (folded last (by simp)) named',
      named, named', same, ?_, held, left, right⟩ indents
    have held : Child.ofPadded (some .content) content = [.leaf (some .content) content.token] := by
      rw [Child.ofPadded, bare]
      rfl
    rw [Node.children, held]
    rfl

theorem Node.mem_of_node? {n m : Node} {field : Field} (found : n.node? field = some m) :
    .node (some field) m ∈ n.children := by
  obtain ⟨c, among, same⟩ := List.exists_of_findSome?_eq_some found
  obtain ⟨member, part⟩ := List.mem_filter.mp among
  cases c with
  | leaf => cases same
  | node part' m' =>
    cases same
    rw [← show part' = some field from of_decide_eq_true part]
    exact member

/-- A string whose delimiter stands on the line of its directive. -/
theorem parse_delimiters_online :
    ∃ n ∈ (parse "x :: #string A hello A;").root.descendants, n.kind = .stringLiteral
      ∧ ∃ delimiter ending, .node (some .delimiter) delimiter ∈ n.children
        ∧ .node (some .endDelimiter) ending ∈ n.children ∧ n.Encloses delimiter ending := by
  have found : ((parse "x :: #string A hello A;").root.descendants.any fun n =>
      n.kind = .stringLiteral && (n.node? .endDelimiter).isSome && (n.node? .delimiter).any fun d =>
        d.leaves.all fun t => !t.isTrivia || t.text.toList.all Text.isIndent) = true := by
    decide +kernel
  obtain ⟨n, member, shape⟩ := List.any_eq_true.mp found
  simp only [Bool.and_eq_true, decide_eq_true_eq, Option.isSome_iff_exists, Option.any_eq_true,
    List.all_eq_true, Bool.or_eq_true, Bool.not_eq_true'] at shape
  obtain ⟨⟨kind, ending, part'⟩, delimiter, part, blanks⟩ := shape
  have part := Node.mem_of_node? part
  have part' := Node.mem_of_node? part'
  refine ⟨n, member, kind, delimiter, ending, part, part', ?_⟩
  refine (parse_delimiters _ n member kind delimiter ending part part').mpr ?_
  intro t among trivial
  have indents := blanks t among
  rw [trivial] at indents
  exact indents.resolve_left (by decide)

/-- Two names on the line after a directive are taken for the delimiters of a string, though they
are not spelled alike, and nothing is reported. -/
theorem parse_delimiters_differ :
    (parse "x :: #string\nA B;").errors = []
      ∧ ∃ n ∈ (parse "x :: #string\nA B;").root.descendants, n.kind = .stringLiteral
        ∧ ∃ delimiter ending, .node (some .delimiter) delimiter ∈ n.children
          ∧ .node (some .endDelimiter) ending ∈ n.children ∧ ¬ n.Encloses delimiter ending := by
  have found : ((parse "x :: #string\nA B;").root.descendants.any fun n =>
      n.kind = .stringLiteral
        && ((n.node? .delimiter).bind Node.firstToken?).map (fun t => t.text) = some "A"
        && ((n.node? .endDelimiter).bind Node.firstToken?).map (fun t => t.text) = some "B")
        = true := by decide +kernel
  refine ⟨by decide +kernel, ?_⟩
  obtain ⟨n, member, shape⟩ := List.any_eq_true.mp found
  simp only [Bool.and_eq_true, decide_eq_true_eq, Option.map_eq_some_iff,
    Option.bind_eq_some_iff] at shape
  obtain ⟨⟨kind, first, ⟨delimiter, part, begins⟩, spelled⟩, last, ⟨ending, part', ends⟩,
    spelled'⟩ := shape
  refine ⟨n, member, kind, delimiter, ending, Node.mem_of_node? part, Node.mem_of_node? part', ?_⟩
  intro encloses
  obtain ⟨_, _, _, _, begins', ends', -, -, same, -⟩ := encloses
  cases begins.symm.trans begins'
  cases ends.symm.trans ends'
  rw [spelled, spelled'] at same
  exact absurd same (by decide)

end JaiTree
