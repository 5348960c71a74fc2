import JaiTree.CommandLine
import JaiTree.Proofs.Tree.Below
import JaiTree.Proofs.Tree.Lossless

/-!
Errors: every error node says what is wrong, and no other node does. A token that is wrong in
itself lies right under an error node, which says what the first of its wrong tokens says. Main
statement: `parse_errors`.
-/

namespace JaiTree

/-- The node says what is wrong just when it is an error node, and that is what its first wrong
token says or else why a rule gave up. -/
structure Node.Accounted (n : Node) : Prop where
  carries : n.isError = true ↔ n.error?.isSome = true
  direct : ∀ field t, .leaf field t ∈ n.children → t.kind = .error → n.isError = true
  lexical : ∀ d ∈ n.error?, d.cause.isLexical = true ↔ ∃ t ∈ n.leaves, t.kind = .error
  first : ∀ d ∈ n.error?, ∀ t ∈ n.leaves.find? fun t => t.kind = .error,
    t.error = some d.cause ∧ d.position = t.start
  cause : ∀ d ∈ n.error?, d.cause.isLexical = true ∨ d.cause.isSyntactic = true

/-- What a region says accounts for its node when it is about the first wrong token of the region,
or about none where it has none. -/
theorem Recovery.accounted_of_said {failure d : Diagnostic} {region : List Padded}
    (said : (Recovery.node failure region).error? = some d)
    (lexical : d.cause.isLexical = true ↔ ∃ t ∈ region.flatMap Padded.tokens, t.kind = .error)
    (first : ∀ t ∈ (region.flatMap Padded.tokens).find? fun t => t.kind = .error,
      t.error = some d.cause ∧ d.position = t.start)
    (cause : d.cause.isLexical = true ∨ d.cause.isSyntactic = true) :
    (Recovery.node failure region).Accounted := by
  have isError : (Recovery.node failure region).isError = true := rfl
  have own : ∀ e ∈ (Recovery.node failure region).error?, d = e := by
    intro e carried
    rwa [said, Option.mem_some] at carried
  constructor
  · simp [isError, said]
  · exact fun _ _ _ _ => isError
  · rw [Recovery.node_leaves]
    intro e carried
    exact own e carried ▸ lexical
  · rw [Recovery.node_leaves]
    intro e carried
    exact own e carried ▸ first
  · intro e carried
    exact own e carried ▸ cause

section Region

variable {region : List Padded} (sound : ∀ p ∈ region, p.Sound)
include sound

/-- The trivia is passed over: the first token that has something to say is the first leaf that is
wrong. -/
theorem findSome?_diagnostic :
    region.findSome? (fun p => p.token.diagnostic?)
      = ((region.flatMap Padded.tokens).find? fun t => t.kind = .error).bind
        Token.diagnostic? := by
  induction region with
  | nil => rfl
  | cons p ps ih =>
    have here := sound p List.mem_cons_self
    have later := ih fun q among => sound q (List.mem_cons_of_mem p among)
    have blanks : p.leading.find? (fun t => t.kind = .error) = none := by
      rw [List.find?_eq_none]
      intro t member
      simpa using here.leading t member
    rw [List.findSome?_cons, List.flatMap_cons, Padded.tokens, List.append_assoc,
      List.find?_append, blanks, Option.none_or, List.singleton_append, List.find?_cons, later]
    by_cases wrong : p.token.kind = .error
    · obtain ⟨cause, found⟩ := Option.isSome_iff_exists.mp (here.error_iff.mpr wrong)
      simp [Token.diagnostic?, found, wrong]
    · have none : p.token.error = none := by
        rw [← Option.not_isSome_iff_eq_none, here.error_iff]
        exact wrong
      simp [Token.diagnostic?, none, wrong]

theorem exists_of_mem_flatMap_tokens {t : Token} (member : t ∈ region.flatMap Padded.tokens)
    (wrong : t.kind = .error) : ∃ p ∈ region, p.token = t := by
  obtain ⟨p, among, own⟩ := List.mem_flatMap.mp member
  rw [Padded.tokens, List.mem_append, List.mem_singleton] at own
  rcases own with leading | rfl
  · exact absurd wrong ((sound p among).leading t leading)
  · exact ⟨p, among, rfl⟩

/-- A region says what its first wrong token says. Where it has none, it says why it could not be
read, and that is no mistake of the lexer. -/
theorem Recovery.node_accounted {failure : Diagnostic}
    (own : failure.cause.isSyntactic = true ∨ ∃ p ∈ region, p.token.kind = .error) :
    (Recovery.node failure region).Accounted := by
  have said : (Recovery.node failure region).error?
      = some ((((region.flatMap Padded.tokens).find? fun t => t.kind = .error).bind
        Token.diagnostic?).getD failure) := by
    rw [Recovery.node, Node.error?, findSome?_diagnostic sound]
  cases found : (region.flatMap Padded.tokens).find? fun t => t.kind = .error with
  | none =>
    rw [found, Option.bind_none, Option.getD_none] at said
    have clean : ∀ t ∈ region.flatMap Padded.tokens, t.kind ≠ .error := by
      intro t member wrong
      have ne := List.find?_eq_none.mp found t member
      simp [wrong] at ne
    have syntactic : failure.cause.isSyntactic = true := by
      rcases own with syntactic | ⟨p, among, wrong⟩
      · exact syntactic
      · have member : p.token ∈ region.flatMap Padded.tokens :=
          List.mem_flatMap.mpr ⟨p, among, List.mem_append_right _ List.mem_cons_self⟩
        exact absurd wrong (clean p.token member)
    refine Recovery.accounted_of_said said ?_ ?_ (.inr syntactic)
    · rw [Cause.isLexical_of_isSyntactic syntactic]
      constructor
      · intro no
        cases no
      · rintro ⟨t, member, wrong⟩
        exact absurd wrong (clean t member)
    · intro t first
      rw [found] at first
      cases first
  | some t =>
    have member := List.mem_of_find?_eq_some found
    have wrong : t.kind = .error := by simpa using List.find?_some found
    obtain ⟨p, among, rfl⟩ := exists_of_mem_flatMap_tokens sound member wrong
    obtain ⟨cause, blamed⟩ := Option.isSome_iff_exists.mp ((sound p among).error_iff.mpr wrong)
    have lexical := (sound p among).lexical cause blamed
    rw [found, Option.bind_some, Token.diagnostic?, blamed, Option.map_some,
      Option.getD_some] at said
    refine Recovery.accounted_of_said said ⟨fun _ => ⟨p.token, member, wrong⟩, fun _ => lexical⟩
      (fun t first => ?_) (.inl lexical)
    rw [found, Option.mem_some] at first
    rw [← first]
    exact ⟨blamed, rfl⟩

end Region

/-- A token that is wrong in itself stands for a region of its own. -/
theorem Node.faulty_eq {padded : Padded} {d : Diagnostic} (wrong : padded.token.kind = .error)
    (found : padded.token.diagnostic? = some d) :
    Node.faulty padded = Recovery.node d [padded] := by
  simp [Node.faulty, Recovery.node, wrong, found]

theorem Node.sound_accounted {kind : NodeKind} {children : List Child} (ne_error : kind ≠ .error)
    (clean : ∀ field t, .leaf field t ∈ children → t.kind ≠ .error) :
    (Node.sound kind children).Accounted where
  carries := by simp [Node.sound, Node.isError, Node.kind, Node.error?, ne_error]
  direct field t child wrong := absurd wrong (clean field t child)
  lexical d carried := by cases carried
  first d carried := by cases carried
  cause d carried := by cases carried

namespace Built

variable {eof : Padded} {taken after : List Padded} {children : List Child}
  {a b : List Delimiter} {g : Bool}

/-- A token by itself is wrong only if it is one that is wrong in itself: the trivia is not. -/
theorem ofPadded_ne_error {padded : Padded} (sound : padded.Sound)
    (ne_error : padded.token.kind ≠ .error) {field old : Option Field} {t : Token}
    (child : .leaf field t ∈ Child.ofPadded old padded) : t.kind ≠ .error := by
  rw [Child.ofPadded, List.mem_append, List.mem_map, List.mem_singleton] at child
  rcases child with ⟨u, leading, same⟩ | same
  · cases same
    exact sound.leading t leading
  · cases same
    exact ne_error

/-- No wrong token is left outside of an error node. -/
theorem leaf_ne_error (h : Built eof taken after children a b g) (sound : ∀ p ∈ taken, p.Sound)
    {field : Option Field} {t : Token} (child : .leaf field t ∈ children) : t.kind ≠ .error := by
  induction h generalizing field with
  | empty => cases child
  | append _ _ ih ih' =>
    rcases List.mem_append.mp child with child | child
    · exact ih (fun p among => sound p (List.mem_append_left _ among)) child
    · exact ih' (fun p among => sound p (List.mem_append_right _ among)) child
  | token takes => exact ofPadded_ne_error (sound _ List.mem_cons_self) takes.ne_error child
  | faulty _ => simp at child
  | under _ _ _ _ => simp [Child.under] at child
  | relabel _ ih =>
    obtain ⟨c, member, same⟩ := List.mem_map.mp child
    cases c with
    | leaf old u =>
      cases same
      exact ih sound member
    | node old n => cases same
  | region _ _ _ => simp at child
  | inside _ ih | anywhere _ ih | group _ _ ih => exact ih sound child

theorem accounted (h : Built eof taken after children a b g) (sound : ∀ p ∈ taken, p.Sound)
    {n : Node} (member : n ∈ descendantsOf children) : n.Accounted := by
  induction h with
  | empty => cases member
  | append _ _ ih ih' =>
    rw [descendantsOf_append, List.mem_append] at member
    rcases member with member | member
    · exact ih (fun p among => sound p (List.mem_append_left _ among)) member
    · exact ih' (fun p among => sound p (List.mem_append_right _ among)) member
  | token _ =>
    rw [descendantsOf_ofPadded] at member
    cases member
  | @faulty _ padded _ wrong =>
    have own := sound padded List.mem_cons_self
    obtain ⟨cause, blamed⟩ := Option.isSome_iff_exists.mp (own.error_iff.mpr wrong)
    have found : padded.token.diagnostic? = some ⟨cause, padded.token.start⟩ := by
      rw [Token.diagnostic?, blamed, Option.map_some]
    rw [descendantsOf_faulty, List.mem_singleton] at member
    rw [member, Node.faulty_eq wrong found]
    exact Recovery.node_accounted sound (.inr ⟨padded, List.mem_cons_self, wrong⟩)
  | under ne_error some_token built ih =>
    rw [descendantsOf_under, List.mem_cons] at member
    rcases member with rfl | member
    · exact Node.sound_accounted ne_error fun _ _ child => built.leaf_ne_error sound child
    · exact ih sound member
  | relabel _ ih =>
    rw [descendantsOf_relabel] at member
    exact ih sound member
  | region _ _ refusal =>
    rw [descendantsOf_region, List.mem_singleton] at member
    rw [member]
    exact Recovery.node_accounted sound (.inl refusal.syntactic)
  | inside _ ih | anywhere _ ih | group _ _ ih => exact ih sound member

end Built

/-- Every node of a tree is accounted for. -/
theorem accounted_of_mem_parse {text : String} {n : Node}
    (member : n ∈ (parse text).root.descendants) : n.Accounted := by
  obtain ⟨body, root, built, -⟩ := parse_built text
  have seen : ∀ p ∈ (Cursor.ofText text).tokens, p.Sound := fun p among =>
    Cursor.sound_of_mem_ofText (List.mem_append_left _ among)
  have last : (Cursor.ofText text).eof.Sound :=
    Cursor.sound_of_mem_ofText (List.mem_append_right _ List.mem_cons_self)
  have ne_error : (Cursor.ofText text).eof.token.kind ≠ .error := by
    rw [Cursor.isEnd_ofText]
    decide
  rw [root, descendants_sound_ofPadded, List.mem_cons] at member
  rcases member with rfl | member
  · refine Node.sound_accounted (by decide) fun field t child => ?_
    rcases List.mem_append.mp child with child | child
    · exact built.leaf_ne_error seen child
    · exact Built.ofPadded_ne_error last ne_error child
  · exact built.accounted seen member

theorem length_errors_parse (text : String) :
    (parse text).errors.length = (parse text).root.errorNodes.length := by
  rw [Tree.errors, Node.errors, List.filterMap_length_eq_length]
  intro n member
  obtain ⟨below, isError⟩ := List.mem_filter.mp member
  exact (accounted_of_mem_parse below).carries.mp isError

theorem hasErrors_parse (text : String) :
    (parse text).hasErrors = true ↔ (parse text).errors ≠ [] := by
  have lengths := length_errors_parse text
  rw [Tree.hasErrors, Bool.not_eq_true', List.isEmpty_eq_false_iff, ← List.length_pos_iff,
    ← lengths, List.length_pos_iff]

/-- A wrong token lies right under an error node. -/
theorem errorNode_of_mem_leaves {text : String} {t : Token}
    (member : t ∈ (parse text).root.leaves) (wrong : t.kind = .error) :
    ∃ n ∈ (parse text).root.errorNodes, ∃ field, .leaf field t ∈ n.children := by
  obtain ⟨n, below, field, child⟩ := Node.parent_of_mem_leaves _ member
  have isError := (accounted_of_mem_parse below).direct field t child wrong
  exact ⟨n, List.mem_filter.mpr ⟨below, isError⟩, field, child⟩

/-- An error node carries a diagnostic and no other node does, so there are as many diagnostics as
error nodes, and a run ends with one when there are some. A token that is wrong in itself is a child
of error nodes only. The diagnostic of an error node is a mistake of the lexer when such a token is
below it and only then, and then it is what the first of them says, at its start. -/
theorem parse_errors (text : String) :
    (∀ n ∈ (parse text).root.descendants,
      (n.isError = true ↔ n.error?.isSome = true)
      ∧ (∀ field t, .leaf field t ∈ n.children → t.kind = .error → n.isError = true)
      ∧ ∀ d, n.error? = some d →
        (d.cause.isLexical = true ↔ ∃ t ∈ n.leaves, t.kind = .error)
        ∧ ∀ t, n.leaves.find? (fun t => t.kind = .error) = some t →
          t.error = some d.cause ∧ d.position = t.start)
    ∧ (parse text).errors.length = (parse text).root.errorNodes.length
    ∧ ((parse text).hasErrors = true ↔ (parse text).errors ≠ [])
    ∧ (∀ path, (CommandLine.run (fun _ => .ok text) [path]).code
      = if (parse text).hasErrors then 1 else 0)
    ∧ (∀ t ∈ (parse text).root.leaves, t.kind = .error →
      ∃ n ∈ (parse text).root.errorNodes, ∃ field, .leaf field t ∈ n.children)
    ∧ ((∃ t ∈ tokenize text, t.kind = .error) → (parse text).hasErrors = true) := by
  have there := hasErrors_parse text
  refine ⟨fun n member => ?_, length_errors_parse text, there, fun path => ?_,
    fun t => errorNode_of_mem_leaves, ?_⟩
  · have accounted := accounted_of_mem_parse member
    exact ⟨accounted.carries, accounted.direct, fun d carried =>
      ⟨accounted.lexical d carried, fun t found => accounted.first d carried t found⟩⟩
  · have code : (CommandLine.run (fun _ => .ok text) [path]).code
        = if (parse text).errors.isEmpty then 0 else 1 := rfl
    rw [code]
    cases errors : (parse text).errors with
    | nil =>
      have none : (parse text).hasErrors = false := by
        rw [Bool.eq_false_iff, Ne, there, errors]
        simp
      rw [none]
      rfl
    | cons d ds =>
      have some := there.mpr (by rw [errors]; exact List.cons_ne_nil d ds)
      rw [some]
      rfl
  · rintro ⟨t, member, wrong⟩
    rw [← leaves_parse] at member
    obtain ⟨n, among, -⟩ := errorNode_of_mem_leaves member wrong
    rw [Tree.hasErrors, Bool.not_eq_true', List.isEmpty_eq_false_iff]
    exact List.ne_nil_of_mem among

end JaiTree
