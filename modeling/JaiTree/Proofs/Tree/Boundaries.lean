import JaiTree.Proofs.Tree.Fresh
import JaiTree.Proofs.Tree.Precedence
import JaiTree.Proofs.Tree.Shift
import JaiTree.Proofs.Tree.Spans

/-!
Boundaries: what comes behind a statement of a text is read as it would be by itself. Main
statement: `parse_boundary`.
-/

namespace JaiTree

open Grammar

/-- Whether the child is a token that the grammar looks past. -/
def Child.isTrivia : Child → Bool
  | .leaf _ token => token.isTrivia
  | .node _ _ => false

section Split

variable {before after : List Child} {child : Child}

/-- Of the leaves that a token stands as only the last is no trivia. -/
theorem Child.last_of_ofPadded {field : Option Field} {padded : Padded}
    (trivial : ∀ t ∈ padded.leading, t.isTrivia = true) (seen : child.isTrivia = false)
    (parts : ofPadded field padded = before ++ child :: after) : after = [] := by
  rcases List.eq_nil_or_concat after with rfl | ⟨init, last, rfl⟩
  · rfl
  · rw [ofPadded, List.concat_eq_append, ← List.cons_append, ← List.append_assoc] at parts
    obtain ⟨leaves, -⟩ := List.append_inj' parts rfl
    have member : child ∈ padded.leading.map (.leaf none) := by simp [leaves]
    obtain ⟨t, leading, rfl⟩ := List.mem_map.mp member
    rw [isTrivia, trivial t leading] at seen
    cases seen

end Split

section Statements

variable {eof eof' : Padded} (isEnd : eof.token.kind = .eof)
include isEnd

/-- A statement, or the region that stands for it, is one node. -/
theorem Grammar.statement_single (room : Nat) (setting : Setting) (rest : List Padded) :
    ((Form.guard statement).read eof (level eof room) nothing setting rest).Yields
      fun children _ => ∃ n, children = [.node none n] := by
  have statements := level_statement isEnd room setting rest
  exact Form.guard_yields (statements.imp fun _ _ ⟨n, single, _⟩ => ⟨n, single⟩)
    fun _ _ _ => ⟨_, rfl⟩

namespace Listed

variable {like : Padded → Padded → Prop} {same : Diagnostic → Diagnostic → Prop}
  {room : Nat} {setting : Setting} {rest rest' : List Padded} {children children' : List Child}

/-- From alike tokens alike statements are listed. -/
theorem alike (unseen : Unseen like same) (ends : like eof eof')
    (listed : Listed eof room setting rest children)
    (listed' : Listed eof' room setting rest' children')
    (tokens : List.Forall₂ like rest rest') : Alike like same children children' := by
  have steps {rest rest' : List Padded} (tokens : List.Forall₂ like rest rest') :
      (listStep .endOfInput).run eof rest = (listStep .endOfInput).run eof' rest' :=
    Glance.run_alike unseen ends tokens isEnd _
  induction listed generalizing rest' children' with
  | stop =>
    cases listed' with
    | stop => exact .nil
    | semicolon => cases tokens
    | item _ some_token =>
      rw [List.forall₂_nil_left_iff] at tokens
      exact absurd (List.append_eq_nil_iff.mp tokens).1 some_token
  | semicolon step _ ih =>
    have step' := (steps tokens).symm.trans step
    cases listed' with
    | stop => cases tokens
    | semicolon _ listed' =>
      cases tokens with
      | cons first later => exact .append (.padded first) (ih listed' later)
    | item other => cases other.symm.trans step'
  | item step some_token ended _ _ ih =>
    have step' := (steps tokens).symm.trans step
    cases listed' with
    | stop =>
      rw [List.forall₂_nil_right_iff] at tokens
      exact absurd (List.append_eq_nil_iff.mp tokens).1 some_token
    | semicolon other => cases other.symm.trans step'
    | item _ _ ended' _ listed' =>
      have none : Reading.Alike like same nothing nothing := fun _ _ _ alike => .done .nil alike
      have read := Form.read_alike unseen isEnd ends (level_alike unseen isEnd ends room)
        (Form.guard statement) none setting _ _ tokens
      rw [ended, ended'] at read
      cases read with
      | done made left => exact .append made (ih listed' left)

/-- Behind a node or a token that the grammar sees, the listing goes on from a fresh place. -/
theorem behind {before after : List Child} {child : Child} (fresh : Fresh eof rest)
    (listed : Listed eof room setting rest (before ++ child :: after))
    (seen : child.isTrivia = false) :
    ∃ left, Fresh eof left ∧ Listed eof room setting left after := by
  generalize parts : before ++ child :: after = children at listed
  induction listed generalizing before with
  | stop => exact absurd parts (List.append_ne_nil_of_right_ne_nil _ (List.cons_ne_nil _ _))
  | @semicolon t rest children step listed ih =>
    have single : t.token.kind.beginsGroup = false := listStep_semicolon step ▸ rfl
    have later := Fresh.strides.behind_single fresh single
    rcases split_at parts with ⟨more, -, rest⟩ | ⟨more, first, rfl⟩
    · exact ih later rest.symm
    · obtain rfl := Child.last_of_ofPadded fresh.leading seen first
      exact ⟨rest, later, listed⟩
  | @item taken rest made children step some_token ended built listed ih =>
    have later := Fresh.strides.behind_built built rfl fresh
    obtain ⟨n, rfl⟩ := statement_single isEnd room setting _ _ _ ended
    rcases split_at parts with ⟨more, -, rest⟩ | ⟨more, first, rfl⟩
    · exact ih later rest.symm
    · obtain rfl : more = [] := by
        cases before with
        | nil => exact (List.cons.inj first).2.symm
        | cons c cs => simp at first
      exact ⟨rest, later, listed⟩

end Listed

end Statements

/-- What is listed from a fresh place on, with the end, is what the rest of the text by itself is
parsed to, that many bytes further on. -/
theorem parse_of_fresh {eof : Padded} {rest : List Padded} {children : List Child} {start : Nat}
    {text : List Char} (fresh : Padded.attach [] (Lexer.scan 0 start text) = rest ++ [eof])
    (listed : Listed eof maxNesting { inSwitch := false, inParameters := false } rest children) :
    children ++ Child.ofPadded none eof
      = (parse (String.ofList text)).root.children.map (Child.shift start) := by
  obtain ⟨body, root, listed', -⟩ := parse_listed (String.ofList text)
  obtain ⟨-, -, whole⟩ := Cursor.ofText_parts (String.ofList text)
  have isEnd := Cursor.isEnd_ofText (String.ofList text)
  have further : rest ++ [eof]
      = (Cursor.ofText (String.ofList text)).tokens.map (Padded.shift start)
        ++ [(Cursor.ofText (String.ofList text)).eof.shift start] := by
    have scanned : Lexer.scan 0 (0 + start) text
        = (Lexer.scan 0 0 text).map (Token.shift start) := Lexer.scan_shift 0 0 text
    rw [Nat.zero_add] at scanned
    rw [← fresh, scanned, ← List.map_nil, Padded.attach_shift, ← List.map_singleton,
      ← List.map_append, whole, Padded.ofTokens, tokenize, String.toList_ofList]
  obtain ⟨rfl, ends⟩ := List.append_inj' further rfl
  have alike := listed'.alike isEnd (unseen_shift start) (List.cons.inj ends).1 listed
    (List.forall₂_map_right_iff.mpr (List.forall₂_same.mpr fun _ _ => rfl))
  rw [root, Node.sound, Node.children, List.map_append, Child.map_shift_ofPadded,
    ← (List.cons.inj ends).1, alike.shifted]

/-- Where the tokens behind some children are those of the rest of the text by itself, just the
children behind them start there or later. -/
theorem filter_of_fresh {source : String} {first later : List Child} {start : Nat}
    {text : List Char} (parts : (parse source).root.children = first ++ later)
    (fresh : leavesOf later = Lexer.scan 0 start text) :
    Text.slice? source start source.utf8ByteSize = some (String.ofList text)
      ∧ (parse source).root.children.filter (fun c => start ≤ c.start) = later
      ∧ ∀ c ∈ first.getLast?, c.stop = start := by
  have whole : tokenize source = leavesOf first ++ Lexer.scan 0 start text := by
    rw [← leaves_parse, ← fresh, ← leavesOf_append, ← parts]
    cases (parse source).root
    rfl
  obtain ⟨head, chars, rfl, tiles, no_end⟩ := tokenize_split whole
  have full {c : Child} (member : c ∈ first ++ later) : AllFull c.descendants :=
    full_of_mem_children (parts ▸ member)
  refine ⟨?_, ?_, fun c last => ?_⟩
  · have bytes : source.utf8ByteSize = Text.width head + Text.width text := by
      rw [← Text.width_append, ← chars, ← Text.utf8ByteSize_ofList, String.ofList_toList]
    have slice := Text.slice?_middle head text []
    rwa [List.append_nil, ← chars, String.ofList_toList, ← bytes] at slice
  · have before : first.filter (fun c => Text.width head ≤ c.start) = [] := by
      refine List.filter_eq_nil_iff.mpr fun c member => ?_
      obtain ⟨t, found, begins⟩ := Option.map_eq_some_iff.mp
        (c.head_leaves (full (List.mem_append_left later member)))
      have leaf := leaves_subset member (List.mem_of_head? found)
      have inside := tiles.stop_le leaf
      have forward := start_lt_stop_of_mem_tokenize (whole ▸ List.mem_append_left _ leaf)
        (no_end t leaf)
      rw [decide_eq_true_iff]
      omega
    have behind : later.filter (fun c => Text.width head ≤ c.start) = later := by
      refine List.filter_eq_self.mpr fun c member => ?_
      obtain ⟨t, found, begins⟩ := Option.map_eq_some_iff.mp
        (c.head_leaves (full (List.mem_append_right first member)))
      have leaf := leaves_subset member (List.mem_of_head? found)
      rw [fresh] at leaf
      rw [decide_eq_true_iff, ← begins]
      exact (Lexer.scan_tiles _ text).start_le leaf
    rw [parts, List.filter_append, before, behind, List.nil_append]
  · obtain ⟨init, rfl⟩ := List.getLast?_eq_some_iff.mp last
    obtain ⟨t, found, ends⟩ := Option.map_eq_some_iff.mp
      (c.getLast_leaves (full (by simp)))
    obtain ⟨others, leaves⟩ := List.getLast?_eq_some_iff.mp found
    have tokens : leavesOf (init ++ [c]) = (leavesOf init ++ others) ++ [t] := by
      rw [leavesOf_append, leavesOf, leavesOf, leaves, List.append_nil, List.append_assoc]
    have stop := tiles.getLast_stop (by rw [tokens]; simp)
    simp only [tokens, List.getLast_concat] at stop
    rw [← ends, stop, Nat.zero_add]

/-- Where children of a text are listed from a fresh place on, they are the children of the rest of
the text by itself, that many bytes further on. -/
theorem parse_behind {source : String} {first later : List Child} {eof : Padded}
    {rest : List Padded} {start : Nat} {text : List Char}
    (parts : (parse source).root.children = first ++ (later ++ Child.ofPadded none eof))
    (fresh : Padded.attach [] (Lexer.scan 0 start text) = rest ++ [eof])
    (listed : Listed eof maxNesting { inSwitch := false, inParameters := false } rest later) :
    Text.slice? source start source.utf8ByteSize = some (String.ofList text)
      ∧ (parse source).root.children.filter (fun c => start ≤ c.start)
        = (parse (String.ofList text)).root.children.map (Child.shift start)
      ∧ ∀ c ∈ first.getLast?, c.stop = start := by
  have leaves : leavesOf (later ++ Child.ofPadded none eof) = Lexer.scan 0 start text := by
    rw [← Padded.flatMap_attach_scan, fresh, leavesOf_append, listed.built.leaves,
      leavesOf_ofPadded, List.flatMap_append, List.flatMap_singleton]
  obtain ⟨slice, filtered, stop⟩ := filter_of_fresh parts leaves
  exact ⟨slice, by rw [filtered, parse_of_fresh fresh listed], stop⟩

/-- Parsing a text again from where a node right below its root or such a token but trivia ends
gives the children of the root that start there or later, each that many bytes less far on, with
all that is below it and what is wrong with it. -/
theorem parse_boundary (source : String) {child : Child}
    (member : child ∈ (parse source).root.children) (seen : child.isTrivia = false) :
    ∃ tail, Text.slice? source child.stop source.utf8ByteSize = some tail
      ∧ (parse source).root.children.filter (fun c => child.stop ≤ c.start)
        = (parse tail).root.children.map (Child.shift child.stop) := by
  obtain ⟨body, root, listed, -⟩ := parse_listed source
  obtain ⟨-, ends, whole⟩ := Cursor.ofText_parts source
  have isEnd := Cursor.isEnd_ofText source
  have folded : ∀ t ∈ (Cursor.ofText source).eof.leading, t.isTrivia = true :=
    Cursor.folded_of_mem_ofText (List.mem_append_right _ List.mem_cons_self)
  have children : (parse source).root.children
      = body ++ Child.ofPadded none (Cursor.ofText source).eof := by rw [root]; rfl
  generalize (Cursor.ofText source).eof = eof at listed whole ends isEnd folded children
  rw [children, List.mem_append] at member
  rcases member with member | member
  · obtain ⟨before, after, rfl⟩ := List.append_of_mem member
    have fresh : Fresh eof (Cursor.ofText source).tokens := ⟨0, source.toList, whole.symm⟩
    obtain ⟨left, ⟨start, text, behind⟩, listed⟩ := listed.behind isEnd fresh seen
    have parts : (parse source).root.children
        = (before ++ [child]) ++ (after ++ Child.ofPadded none eof) := by
      rw [children]
      simp
    obtain ⟨slice, filtered, stop⟩ := parse_behind parts behind listed
    obtain rfl := stop child (by simp)
    exact ⟨String.ofList text, slice, filtered⟩
  · rw [Child.ofPadded, List.mem_append, List.mem_singleton] at member
    rcases member with leading | rfl
    · obtain ⟨t, among, rfl⟩ := List.mem_map.mp leading
      rw [Child.isTrivia, folded t among] at seen
      cases seen
    · -- Behind the end of the text nothing is left of it but the end.
      have parts : (parse source).root.children = (body ++ eof.leading.map (.leaf none))
          ++ ([] ++ Child.ofPadded none ⟨[], .eofAt source.utf8ByteSize⟩) := by
        rw [children, List.append_assoc, ← ends]
        rfl
      have stop : (Child.leaf none eof.token).stop = source.utf8ByteSize := by
        rw [ends]
        rfl
      obtain ⟨slice, filtered, -⟩ := @parse_behind source _ _ _ [] _ [] parts rfl .stop
      rw [stop]
      exact ⟨String.ofList [], slice, filtered⟩

/-- A boundary behind a node for what could not be read, before raw text and a string. -/
theorem parse_boundary_region :
    let source := "a ] b;\n#asm AVX \x7b mov \x7d c := \"d\";"
    ∃ child ∈ (parse source).root.children, child.isTrivia = false ∧ child.stop = 6
      ∧ ∃ tail, Text.slice? source child.stop source.utf8ByteSize = some tail
        ∧ (parse source).root.children.filter (fun c => child.stop ≤ c.start)
          = (parse tail).root.children.map (Child.shift child.stop) := by
  intro source
  have found : ((parse source).root.children.any fun child =>
      child.isTrivia = false ∧ child.stop = 6) = true := by decide +kernel
  obtain ⟨child, member, holds⟩ := List.any_eq_true.mp found
  obtain ⟨seen, stop⟩ := of_decide_eq_true holds
  exact ⟨child, member, seen, stop, parse_boundary source member seen⟩

end JaiTree
