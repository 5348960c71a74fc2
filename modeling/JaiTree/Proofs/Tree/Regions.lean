import JaiTree.Proofs.Tree.Errors
import JaiTree.Proofs.Tree.Spans

/-!
Regions: where an error node stands, and where the mistake that it reports lies. Main statement:
`parse_error_positions`.
-/

namespace JaiTree

/-- Why an error node stands over a region that `after` follows: a token is wrong in itself, or a
rule gave up. -/
inductive Stands (eof : Padded) : (region after : List Padded) → Node → Prop where
  | faulty {after : List Padded} {padded : Padded} :
      padded.token.kind = .error → Stands eof [padded] after (.faulty padded)
  | region {failure : Diagnostic} {region after left : List Padded} :
      region ≠ [] → Recovery.region 0 true (region ++ after) = (region, after) →
      Refusal eof 0 (region ++ after) left failure →
      Stands eof region after (Recovery.node failure region)

namespace Built

variable {eof : Padded} {taken after : List Padded} {children : List Child} {n : Node}
  {a b : List Delimiter} {g : Bool}

/-- Every error node stands over some of the tokens that were taken. -/
theorem stands (h : Built eof taken after children a b g) (member : n ∈ descendantsOf children)
    (isError : n.isError = true) :
    ∃ before region later, taken = before ++ region ++ later
      ∧ Stands eof region (later ++ after) n := by
  induction h with
  | empty => cases member
  | @append first second after _ _ _ _ _ _ _ _ ih ih' =>
    rw [descendantsOf_append, List.mem_append] at member
    rcases member with member | member
    · obtain ⟨before, region, later, rfl, stands⟩ := ih member
      rw [← List.append_assoc] at stands
      exact ⟨before, region, later ++ second, by simp, stands⟩
    · obtain ⟨before, region, later, rfl, stands⟩ := ih' member
      exact ⟨first ++ before, region, later, by simp, stands⟩
  | token _ =>
    rw [descendantsOf_ofPadded] at member
    cases member
  | @faulty after padded _ wrong =>
    rw [descendantsOf_faulty, List.mem_singleton] at member
    rw [member]
    exact ⟨[], [padded], [], rfl, .faulty wrong⟩
  | under ne_error _ _ ih =>
    rw [descendantsOf_under, List.mem_cons] at member
    rcases member with rfl | member
    · exact absurd (of_decide_eq_true isError) ne_error
    · exact ih member
  | relabel _ ih =>
    rw [descendantsOf_relabel] at member
    exact ih member
  | @region failure region after _ _ some_token ends refusal =>
    rw [descendantsOf_region, List.mem_singleton] at member
    rw [member]
    exact ⟨[], region, [], by simp, .region some_token ends refusal⟩
  | inside _ ih | anywhere _ ih | group _ _ ih => exact ih member

/-- Error nodes lie one after the other, none in another. -/
theorem pairwise_errorNodes (h : Built eof taken after children a b g) :
    ((descendantsOf children).filter Node.isError).Pairwise fun a b =>
      ∃ between, a.leaves ++ between ++ b.leaves <:+: leavesOf children := by
  induction h with
  | empty => exact .nil
  | @append _ _ _ children more _ _ _ _ _ _ ih ih' =>
    rw [descendantsOf_append, leavesOf_append, List.filter_append, List.pairwise_append]
    refine ⟨ih.imp ?_, ih'.imp ?_, ?_⟩
    · rintro a b ⟨between, inner⟩
      exact ⟨between, inner.trans (List.prefix_append _ _).isInfix⟩
    · rintro a b ⟨between, inner⟩
      exact ⟨between, inner.trans (List.suffix_append _ _).isInfix⟩
    · intro a first b second
      obtain ⟨x, y, whole⟩ := infix_of_mem_descendantsOf children (List.mem_filter.mp first).1
      obtain ⟨u, v, whole'⟩ := infix_of_mem_descendantsOf more (List.mem_filter.mp second).1
      exact ⟨y ++ u, x, v, by rw [← whole, ← whole']; simp⟩
  | token _ =>
    rw [descendantsOf_ofPadded]
    exact .nil
  | faulty _ =>
    rw [descendantsOf_faulty]
    exact (List.pairwise_singleton _ _).filter _
  | under ne_error _ _ ih =>
    rw [descendantsOf_under, leavesOf_under, List.filter_cons_of_neg]
    · exact ih
    · exact fun isError => ne_error (of_decide_eq_true isError)
  | relabel _ ih =>
    rw [descendantsOf_relabel, leavesOf_relabel]
    exact ih
  | region _ _ _ =>
    rw [descendantsOf_region]
    exact (List.pairwise_singleton _ _).filter _
  | inside _ ih | anywhere _ ih | group _ _ ih => exact ih

end Built

/-- The last token of the node is a semicolon or a closing brace: the region that it stands over may
have ended there, wherever the rule gave up. -/
def Node.endsItself (n : Node) : Bool :=
  n.leaves.getLast?.any fun t => t.kind = .semicolon || t.kind = .closeCurly

namespace Stands

variable {eof : Padded} {region after : List Padded} {n : Node}

theorem ne_nil (h : Stands eof region after n) : region ≠ [] := by
  cases h with
  | faulty _ => exact List.cons_ne_nil _ _
  | region some_token _ _ => exact some_token

theorem leaves (h : Stands eof region after n) : n.leaves = region.flatMap Padded.tokens := by
  cases h with
  | faulty _ => rw [Node.faulty, Node.leaves, leavesOf_ofPadded, List.flatMap_singleton]
  | region _ _ _ => exact Recovery.node_leaves _ _

theorem endsItself (h : Stands eof region after n) (own : Recovery.EndsItself region) :
    n.endsItself = true := by
  obtain ⟨before, t, parts, kind⟩ := own
  have last : n.leaves.getLast? = some t.token := by
    rw [h.leaves, parts, List.flatMap_append, List.flatMap_singleton, Padded.tokens,
      ← List.append_assoc, List.getLast?_concat]
  rw [Node.endsItself, last]
  simpa using kind

/-- What an error node reports lies at a token: at a wrong one of its region, or where the rule gave
up, which is in the region or right after it unless the region ended before the rule did. -/
theorem reported (h : Stands eof region after n) {d : Diagnostic} (carried : n.error? = some d) :
    ∃ passed q more, region ++ (after ++ [eof]) = passed ++ q :: more ∧ d.position = q.token.start
      ∧ (d.cause.isLexical = true → passed.length < region.length)
      ∧ (n.endsItself = true ∨ passed.length ≤ region.length) := by
  have stands := h
  cases h with
  | @faulty after padded wrong =>
    rw [Node.faulty, Node.error?, if_pos wrong, Token.diagnostic?] at carried
    obtain ⟨cause, -, rfl⟩ := Option.map_eq_some_iff.mp carried
    exact ⟨[], padded, after ++ [eof], rfl, rfl, fun _ => Nat.one_pos, .inr (Nat.zero_le _)⟩
  | @region failure region after left some_token ends refusal =>
    rw [Recovery.node, Node.error?, Option.some.injEq] at carried
    -- A wrong token in the region is reported first, wherever the rule gave up.
    cases found : region.findSome? fun t => t.token.diagnostic? with
    | some e =>
      obtain ⟨passed, q, later, parts, own, -⟩ := List.findSome?_eq_some_iff.mp found
      rw [found, Option.getD_some] at carried
      obtain ⟨cause, -, rfl⟩ := Option.map_eq_some_iff.mp own
      have inner : passed.length < region.length := by
        rw [parts, List.length_append, List.length_cons]
        omega
      refine ⟨passed, q, later ++ (after ++ [eof]), ?_, ?_, fun _ => inner,
        .inr (Nat.le_of_lt inner)⟩
      · rw [parts, List.append_assoc, List.cons_append]
      · rw [← carried]
    | none =>
      rw [found, Option.getD_none] at carried
      obtain ⟨passed, split, kept⟩ := refusal.passed
      have next : ∃ more, left ++ [eof] = ahead eof left 0 :: more := by
        cases left with
        | nil => exact ⟨[], rfl⟩
        | cons q more => exact ⟨more ++ [eof], rfl⟩
      obtain ⟨more, next⟩ := next
      refine ⟨passed, ahead eof left 0, more, ?_, ?_, ?_, ?_⟩
      · rw [← List.append_assoc, split, List.append_assoc, next]
      · rw [← carried]
        exact refusal.position
      · intro lexical
        rw [← carried, Cause.isLexical_of_isSyntactic refusal.syntactic] at lexical
        cases lexical
      · have reach := Recovery.passed_le split kept
        rw [ends] at reach
        rcases reach with inner | own
        · exact .inr inner
        · exact .inl (stands.endsItself own)

end Stands

/-- Where the mistake lies that an error node of a text reports. -/
structure Node.Located (text : String) (n : Node) (d : Diagnostic) : Prop where
  start_le : n.start ≤ d.position
  seen : ∃ t ∈ tokenize text, t.isTrivia = false ∧ d.position = t.start
  lexical : d.cause.isLexical = true → d.position ≤ n.stop
  near : n.endsItself = true ∨ ∀ t ∈ tokenize text, t.isTrivia = false → n.stop ≤ t.start →
    d.position ≤ t.start

/-- What the grammar sees lies in order. -/
theorem Cursor.pairwise_ofText (text : String) :
    ((ofText text).tokens ++ [(ofText text).eof]).Pairwise fun p q =>
      p.token.stop ≤ q.token.start := by
  have ordered := (tokenize_tiles text).pairwise
  rw [← (ofText_seen text).2.2, List.pairwise_flatMap] at ordered
  refine ordered.2.imp fun {p q} before => ?_
  exact before p.token (List.mem_append_right _ List.mem_cons_self) q.token
    (List.mem_append_right _ List.mem_cons_self)

theorem mem_or_of_append_eq {α : Type} {region rest passed more : List α} {q : α}
    (reach : region ++ rest = passed ++ q :: more) :
    q ∈ region ∨ ∃ between, passed = region ++ between ∧ rest = between ++ q :: more := by
  rcases List.append_eq_append_iff.mp reach with ⟨between, parts, later⟩ | ⟨inner, parts, later⟩
  · exact .inr ⟨between, parts, later⟩
  · cases inner with
    | nil => exact .inr ⟨[], by simpa using parts.symm, later.symm⟩
    | cons u us =>
      obtain ⟨rfl, -⟩ := List.cons.inj later
      exact .inl (by simp [parts])

/-- The error nodes of a text are those that reading its tokens comes to. -/
theorem errorNodes_parse (text : String) :
    ∃ body, Built (Cursor.ofText text).eof (Cursor.ofText text).tokens [] body
      ∧ (parse text).root.errorNodes = (descendantsOf body).filter Node.isError
      ∧ leavesOf body <:+: tokenize text := by
  obtain ⟨body, root, built, -⟩ := parse_built text
  refine ⟨body, built, ?_, ?_⟩
  · rw [Node.errorNodes, root, descendants_sound_ofPadded, List.filter_cons_of_neg]
    intro isError
    cases isError
  · rw [← leaves_parse, root, Node.sound, Node.leaves, leavesOf_append]
    exact (List.prefix_append _ _).isInfix

theorem below_of_mem_errorNodes {text : String} {n : Node}
    (member : n ∈ (parse text).root.errorNodes) : n ∈ (parse text).root.descendants :=
  (List.mem_filter.mp member).1

theorem stands_of_mem_parse {text : String} {n : Node}
    (member : n ∈ (parse text).root.errorNodes) :
    ∃ before region later, (Cursor.ofText text).tokens = before ++ region ++ later
      ∧ Stands (Cursor.ofText text).eof region later n := by
  obtain ⟨body, built, nodes, -⟩ := errorNodes_parse text
  rw [nodes] at member
  obtain ⟨among, isError⟩ := List.mem_filter.mp member
  obtain ⟨before, region, later, split, stands⟩ := built.stands among isError
  rw [List.append_nil] at stands
  exact ⟨before, region, later, split, stands⟩

namespace Stands

variable {text : String} {before region later : List Padded} {n : Node} {p q : Padded}

theorem bounds (h : Stands (Cursor.ofText text).eof region later n)
    (below : n ∈ (parse text).root.descendants) (inner : p ∈ region) :
    n.start ≤ p.token.start ∧ p.token.stop ≤ n.stop := by
  apply bounds_of_mem_leaves below
  rw [h.leaves]
  exact List.mem_flatMap.mpr ⟨p, inner, List.mem_append_right _ List.mem_cons_self⟩

/-- What lies past the node is not before what follows its region. -/
theorem next_le (h : Stands (Cursor.ofText text).eof region later n)
    (below : n ∈ (parse text).root.descendants)
    (split : (Cursor.ofText text).tokens = before ++ region ++ later) {more : List Padded}
    (next : later ++ [(Cursor.ofText text).eof] = q :: more) {t : Token}
    (member : t ∈ tokenize text) (significant : t.isTrivia = false) (beyond : n.stop ≤ t.start) :
    q.token.start ≤ t.start := by
  have ordered := Cursor.pairwise_ofText text
  rw [split, List.append_assoc, next, List.append_assoc, List.pairwise_append,
    List.pairwise_append] at ordered
  obtain ⟨-, ⟨-, following, -⟩, preceding⟩ := ordered
  obtain ⟨p, among, rfl⟩ := Cursor.exists_of_mem_tokenize member significant
  -- No token but the end of the text is empty, so one that begins past the node does not end by it.
  have ahead_of_stop (own : p ∈ (Cursor.ofText text).tokens) : ¬p.token.stop ≤ n.stop := by
    intro back
    have ne_eof := (Cursor.ofText_seen text).1 p own
    have length := start_lt_stop_of_mem_tokenize member ne_eof
    omega
  have parts : (Cursor.ofText text).tokens ++ [(Cursor.ofText text).eof]
      = before ++ (region ++ q :: more) := by
    rw [split, ← next]
    simp
  rw [parts, List.mem_append, List.mem_append, List.mem_cons] at among
  rcases among with back | inner | rfl | ahead
  · obtain ⟨first, inside⟩ := List.exists_mem_of_ne_nil region h.ne_nil
    have meets := preceding p back first (List.mem_append_left _ inside)
    have ends := (h.bounds below inside).2
    have back_of_stop : p.token.stop ≤ n.stop :=
      Nat.le_trans meets (Nat.le_trans first.token.start_le_stop ends)
    exact absurd back_of_stop (ahead_of_stop (by rw [split]; simp [back]))
  · exact absurd (h.bounds below inner).2 (ahead_of_stop (by rw [split]; simp [inner]))
  · exact Nat.le_refl _
  · have meets := (List.pairwise_cons.mp following).1 p ahead
    exact Nat.le_trans q.token.start_le_stop meets

end Stands

theorem located_of_mem_parse {text : String} {n : Node}
    (member : n ∈ (parse text).root.errorNodes) {d : Diagnostic} (carried : n.error? = some d) :
    n.Located text d := by
  have below := below_of_mem_errorNodes member
  obtain ⟨before, region, later, split, stands⟩ := stands_of_mem_parse member
  obtain ⟨passed, q, more, reach, position, lexical, near⟩ := stands.reported carried
  have whole : (Cursor.ofText text).tokens ++ [(Cursor.ofText text).eof]
      = before ++ (region ++ (later ++ [(Cursor.ofText text).eof])) := by
    rw [split]
    simp
  have seen : q.token ∈ tokenize text ∧ q.token.isTrivia = false := by
    apply Cursor.token_of_mem_ofText
    rw [whole, reach]
    simp
  -- The mistake is at a token of the region or past all of them.
  rcases mem_or_of_append_eq reach with inner | ⟨between, parts, outside⟩
  · have bounds := stands.bounds below inner
    have inside : d.position ≤ n.stop := by
      rw [position]
      exact Nat.le_trans q.token.start_le_stop bounds.2
    exact {
      start_le := position ▸ bounds.1
      seen := ⟨q.token, seen.1, seen.2, position⟩
      lexical := fun _ => inside
      near := .inr fun t _ _ beyond => Nat.le_trans inside beyond }
  · have past : region.length ≤ passed.length := by
      rw [parts, List.length_append]
      omega
    refine ⟨?_, ⟨q.token, seen.1, seen.2, position⟩, ?_, ?_⟩
    · obtain ⟨first, inside⟩ := List.exists_mem_of_ne_nil region stands.ne_nil
      have ordered := Cursor.pairwise_ofText text
      rw [whole, outside, List.pairwise_append, List.pairwise_append] at ordered
      have meets := ordered.2.1.2.2 first inside q (by simp)
      rw [position]
      exact Nat.le_trans (stands.bounds below inside).1
        (Nat.le_trans first.token.start_le_stop meets)
    · intro wrong
      have inner := lexical wrong
      omega
    · refine near.imp id fun inner t member significant beyond => ?_
      have none : between = [] := by
        rw [parts, List.length_append] at inner
        exact List.length_eq_zero_iff.mp (by omega)
      rw [none, List.nil_append] at outside
      rw [position]
      exact stands.next_le below split outside member significant beyond

/-- Error nodes lie side by side, in order of the text. -/
theorem pairwise_errorNodes_parse (text : String) :
    (parse text).root.errorNodes.Pairwise fun m n => m.stop ≤ n.start := by
  obtain ⟨body, built, nodes, whole⟩ := errorNodes_parse text
  have below : ∀ n ∈ (descendantsOf body).filter Node.isError,
      n ∈ (parse text).root.descendants := fun n among =>
    below_of_mem_errorNodes (nodes ▸ among)
  rw [nodes]
  refine built.pairwise_errorNodes.imp_of_mem ?_
  rintro m n first second ⟨between, inner⟩
  have ordered := (tokenize_tiles text).pairwise.sublist (inner.trans whole).sublist
  rw [List.append_assoc, List.pairwise_append] at ordered
  obtain ⟨earlier, last, end_parts, ends⟩ := exists_last_leaf (below m first)
  obtain ⟨head, later, begin_parts, begins⟩ := exists_first_leaf (below n second)
  rw [← ends, ← begins]
  exact ordered.2.2 last (by simp [end_parts]) head (by simp [begin_parts])

/-- What is reported lies at a token that is no trivia. -/
theorem exists_token_of_mem_errors {text : String} {d : Diagnostic}
    (reported : d ∈ (parse text).errors) :
    ∃ t ∈ tokenize text, t.isTrivia = false ∧ d.position = t.start := by
  obtain ⟨n, member, carried⟩ := List.mem_filterMap.mp reported
  exact (located_of_mem_parse member carried).seen

/-- The positions of what is reported fit in 32 bits where the text has fewer than 2^32 bytes. -/
theorem position_lt_of_mem_errors {text : String} {d : Diagnostic}
    (reported : d ∈ (parse text).errors) (short : text.utf8ByteSize < 2 ^ 32) :
    d.position < 2 ^ 32 := by
  obtain ⟨t, among, -, position⟩ := exists_token_of_mem_errors reported
  rw [position]
  exact Nat.lt_of_le_of_lt t.start_le_stop (stop_lt_of_mem_tokenize among short)

/-- What an error node reports lies at a token that is no trivia, not before the node. A mistake of
the lexer lies in the node. A rule gave up in the node or at the first such token after it, unless
the region ended before that with a semicolon or a closing brace of its own. Error nodes lie one
after the other, and so do the mistakes that they report, but for those of such a region. Positions
are natural numbers; where they are kept in 32 bits, this is said of texts of fewer than 2^32 bytes
(`position_lt_of_mem_errors`). -/
theorem parse_error_positions (text : String) :
    (∀ n ∈ (parse text).root.errorNodes, ∀ d, n.error? = some d →
      n.start ≤ d.position
      ∧ (∃ t ∈ tokenize text, t.isTrivia = false ∧ d.position = t.start)
      ∧ (d.cause.isLexical = true → d.position ≤ n.stop)
      ∧ (n.endsItself = true ∨ ∀ t ∈ tokenize text, t.isTrivia = false → n.stop ≤ t.start →
        d.position ≤ t.start))
    ∧ ((parse text).root.errorNodes.Pairwise fun m n => m.stop ≤ n.start
      ∧ ∀ d e, m.error? = some d → n.error? = some e →
        d.position ≤ e.position ∨ m.endsItself = true ∧ d.cause.isLexical = false) := by
  constructor
  · intro n member d carried
    have located := located_of_mem_parse member carried
    exact ⟨located.start_le, located.seen, located.lexical, located.near⟩
  · refine (pairwise_errorNodes_parse text).imp_of_mem ?_
    intro m n first second apart
    refine ⟨apart, fun d e carried carried' => ?_⟩
    have located := located_of_mem_parse first carried
    have located' := located_of_mem_parse second carried'
    have begins := located'.start_le
    cases lexical : d.cause.isLexical with
    | true =>
      have ends := located.lexical lexical
      left
      omega
    | false =>
      rcases located.near with own | near
      · exact .inr ⟨own, rfl⟩
      · obtain ⟨t, member, significant, position⟩ := located'.seen
        have next := near t member significant (by omega)
        left
        omega

/-- A region may end before the token that a rule gave up at, and that may be past the mistake of
the next region. -/
theorem parse_error_past_node :
    (¬∀ n ∈ (parse "* ").root.errorNodes, ∀ d ∈ n.error?,
      n.start ≤ d.position ∧ d.position ≤ n.stop)
    ∧ ¬((parse "x := .\x7b1\x7d + )").errors.map Diagnostic.position).Pairwise (· ≤ ·) := by
  decide +kernel

end JaiTree
