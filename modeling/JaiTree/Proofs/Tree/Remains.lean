import JaiTree.Proofs.Token.Gaps
import JaiTree.Proofs.Tree.Fresh

/-!
What remains of the groups of a text at a place among its tokens. What is built over tokens from a
place between two groups holds each group whole: in a node of its own, or right below an error node.
Main statements: `Remains.step`, `Built.keeps`, `Built.groupwise`.
-/

namespace JaiTree

variable {eof t : Padded} {groups used left : List (List Token)} {rest taken after : List Padded}
  {children : List Child} {a b : List Delimiter} {g : Bool}

theorem Padded.attach_folded {blanks : List Token} (trivial : ∀ t ∈ blanks, t.isTrivia = true)
    (leading more : List Token) :
    attach leading (blanks ++ more) = attach (leading ++ blanks) more := by
  induction blanks generalizing leading with
  | nil => rw [List.nil_append, List.append_nil]
  | cons t ts ih =>
    rw [List.forall_mem_cons] at trivial
    rw [List.cons_append, attach_trivia trivial.1, ih trivial.2, List.append_assoc]
    rfl

/-- The tokens and the end from a place on are what these groups and the end come to, with trivia
from before the place. -/
structure Remains (eof : Padded) (groups : List (List Token)) (rest : List Padded) : Prop where
  entire : ∀ group ∈ groups, Entire group
  ends : eof.token.isTrivia = false
  whole : ∃ leading, (∀ t ∈ leading, t.isTrivia = true)
    ∧ Padded.attach leading (groups.flatten ++ [eof.token]) = rest ++ [eof]

namespace Remains

theorem tokens (h : Remains eof groups rest) :
    Token.significant groups.flatten = rest.map fun p => p.token := by
  obtain ⟨leading, -, whole⟩ := h.whole
  have seen := congrArg (List.map fun p => p.token) whole
  have last : Token.significant [eof.token] = [eof.token] := by
    simp [Token.significant, h.ends]
  rw [Padded.map_token_attach, Token.significant_append, last, List.map_append] at seen
  exact List.append_cancel_right seen

/-- The groups between two places are all that is seen between them. -/
theorem between (h : Remains eof (used ++ left) (taken ++ after)) (h' : Remains eof left after) :
    Token.significant used.flatten = taken.map fun p => p.token := by
  have whole := h.tokens
  rw [List.flatten_append, Token.significant_append, h'.tokens, List.map_append] at whole
  exact List.append_cancel_right whole

/-- Of the tokens from a place on each comes with trivia only, and is none. -/
theorem folded (h : Remains eof groups rest) {p : Padded} (member : p ∈ rest) :
    (∀ t ∈ p.leading, t.isTrivia = true) ∧ p.token.isTrivia = false := by
  obtain ⟨leading, trivial, whole⟩ := h.whole
  have among : p ∈ Padded.attach leading (groups.flatten ++ [eof.token]) := by
    rw [whole]
    exact List.mem_append_left _ member
  exact ⟨Padded.isTrivia_of_mem_attach trivial among, Padded.token_of_mem_attach among⟩

theorem significant_taken (h : Remains eof groups (taken ++ after)) :
    Token.significant (taken.flatMap Padded.tokens) = taken.map fun p => p.token := by
  have folded (p : Padded) (member : p ∈ taken) := h.folded (List.mem_append_left after member)
  clear h
  induction taken with
  | nil => rfl
  | cons p ps ih =>
    obtain ⟨leading, seen⟩ := folded p List.mem_cons_self
    rw [List.flatMap_cons, Padded.tokens, Token.significant_append, Token.significant_append,
      Token.significant_eq_nil leading, ih fun q member => folded q (List.mem_cons_of_mem p member)]
    simp [Token.significant, seen]

/-- Behind the first token and all that is cut off together with it fewer groups remain. -/
theorem step (h : Remains eof groups (t :: rest)) :
    ∃ used left trail after, groups = used ++ left ∧ rest = trail ++ after
      ∧ Trails t.token.kind (kindsOf trail) ∧ Remains eof left after := by
  obtain ⟨entire, ends, leading, folded, whole⟩ := h
  induction groups generalizing leading with
  | nil =>
    rw [List.flatten_nil, List.nil_append, Padded.attach_seen ends, Padded.attach] at whole
    simp at whole
  | cons group groups ih =>
    rw [List.forall_mem_cons] at entire
    obtain ⟨⟨first, others, rfl, together, trivial⟩, entire⟩ := entire
    rw [List.flatten_cons, List.append_assoc, List.append_assoc] at whole
    cases first with
    | nil => cases together
    | cons u us =>
      rw [List.cons_append] at whole
      generalize kinds : us.map _ = trail at together
      rw [List.map_cons, kinds] at together
      have blank (more : List Token) : Padded.attach [] (others ++ more)
          = Padded.attach others more := by
        rw [Padded.attach_folded trivial, List.nil_append]
      cases together with
      | trivia trivial' =>
        -- The group is trivia that stands before the token.
        obtain rfl := List.map_eq_nil_iff.mp kinds
        rw [Padded.attach_trivia trivial', List.nil_append,
          Padded.attach_folded trivial] at whole
        have folded' : ∀ t ∈ leading ++ [u] ++ others, t.isTrivia = true := by
          simp only [List.forall_mem_append, List.forall_mem_singleton]
          exact ⟨⟨folded, trivial'⟩, trivial⟩
        obtain ⟨used, left, trail, after, rfl, parts⟩ := ih entire _ folded' whole
        exact ⟨(u :: others) :: used, left, trail, after, rfl, parts⟩
      | seen seen trails ends' =>
        subst kinds
        rw [Padded.attach_seen seen, Padded.attach_behind ends' (.inl rfl), blank,
          List.cons_append, List.cons.injEq] at whole
        obtain ⟨rfl, whole⟩ := whole
        obtain ⟨after, trivia, attached, -⟩ :=
          Padded.attach_append others groups.flatten eof.token ends
        rw [attached, ← List.append_assoc] at whole
        obtain ⟨rfl, last⟩ := List.append_inj' whole rfl
        refine ⟨[u :: us ++ others], groups, _, after, rfl, rfl, ?_, entire, ends, others, trivial,
          by rw [attached, last]⟩
        rwa [Padded.kindsOf_attach]

end Remains

/-- Some of the groups remain from here on. -/
def Reached (eof : Padded) (groups : List (List Token)) (after : List Padded) : Prop :=
  ∃ used left, groups = used ++ left ∧ Remains eof left after

theorem strides_reached : Strides (Reached eof groups) := by
  rintro t rest ⟨used, left, rfl, remains⟩
  obtain ⟨more, left, trail, after, rfl, rfl, trails, remains⟩ := remains.step
  exact ⟨trail, after, rfl, trails, used ++ more, left, (List.append_assoc ..).symm, remains⟩

/-- Some of the groups remain behind what was built from where they do. -/
theorem Remains.behind_built (h : Remains eof groups (taken ++ after))
    (built : Built eof taken after children a b g) (outside : g = false) :
    Reached eof groups after :=
  strides_reached.behind_built built outside ⟨[], groups, rfl, h⟩

/-- The group is held whole below the children: by a node of its own over nothing else, or by an
error node right below it. -/
def Held (children : List Child) (group : List Token) : Prop :=
  ∃ n ∈ descendantsOf children,
    (n.kind = .ofGroup ((Token.significant group).map fun t => t.kind)
      ∧ Token.significant n.leaves = Token.significant group)
    ∨ (n.kind = .error ∧ ∀ t ∈ Token.significant group, .leaf none t ∈ n.children)

theorem Held.mono {more : List Child} {group : List Token} (h : Held children group)
    (below : descendantsOf children ⊆ descendantsOf more) : Held more group := by
  obtain ⟨n, member, holds⟩ := h
  exact ⟨n, below member, holds⟩

/-- The kinds of what is seen of a group are cut off together. -/
def IsGrouped (group : List Token) : Prop :=
  Grouped ((Token.significant group).map fun t => t.kind)

section Kinds

variable {kind : TokenKind} {more : List TokenKind}

theorem Grouped.trails (h : Grouped (kind :: more)) : Trails kind more := by
  cases h with
  | quotedString sound => exact .quotedString sound
  | hereString held => exact .hereString held
  | asmBlock sound held => exact .asmBlock sound held

theorem Grouped.begins {kinds : List TokenKind} (h : Grouped kinds) :
    ∃ kind next more, kinds = kind :: next :: more ∧ kind.beginsGroup = true := by
  cases h with
  | @quotedString pieces _ => cases pieces <;> exact ⟨_, _, _, rfl, rfl⟩
  | hereString => exact ⟨_, _, _, rfl, rfl⟩
  | @asmBlock features _ _ _ => cases features <;> exact ⟨_, _, _, rfl, rfl⟩

/-- Nothing but the last of the tokens that are cut off together could begin another group. -/
theorem Grouped.singles_dropLast (h : Grouped (kind :: more)) :
    ∀ k ∈ more.dropLast, k.beginsGroup = false := by
  by_cases quote : kind = .doubleQuote
  · subst quote
    generalize same : TokenKind.doubleQuote :: more = kinds at h
    cases h with
    | @quotedString pieces sound =>
      obtain rfl := (List.cons.inj same).2
      rw [List.dropLast_concat]
      intro k member
      have isPiece := sound k member
      cases k
      all_goals first | rfl | cases isPiece
    | hereString | asmBlock => cases same
  · exact fun k member => h.singles quote k (List.dropLast_subset more member)

end Kinds

theorem length_significant_le {group : List Token} (member : group ∈ used) :
    (Token.significant group).length ≤ (Token.significant used.flatten).length := by
  obtain ⟨before, after, rfl⟩ := List.append_of_mem member
  simp only [List.flatten_append, List.flatten_cons, Token.significant_append, List.length_append]
  omega

namespace IsGrouped

variable {group : List Token}

/-- No group of one token or none is cut off together. -/
theorem two_le (h : IsGrouped group) : 2 ≤ (Token.significant group).length := by
  obtain ⟨kind, next, more, kinds, -⟩ := Grouped.begins h
  have two := congrArg List.length kinds
  rw [List.length_map, List.length_cons, List.length_cons] at two
  omega

/-- Where all of some groups are cut off together one of them is all that is seen of them. -/
theorem eq_flatten (h : IsGrouped group) (member : group ∈ used)
    (whole : Grouped ((Token.significant used.flatten).map fun t => t.kind)) :
    Token.significant group = Token.significant used.flatten := by
  obtain ⟨before, after, rfl⟩ := List.append_of_mem member
  obtain ⟨kind, next, more, kinds, begins⟩ := Grouped.begins h
  rw [List.flatten_append, List.flatten_cons, Token.significant_append,
    Token.significant_append] at whole ⊢
  rw [IsGrouped, kinds] at h
  rw [List.map_append, List.map_append, kinds] at whole
  generalize Token.significant before.flatten = earlier at whole ⊢
  generalize Token.significant after.flatten = later at whole ⊢
  have first : earlier = [] := by
    cases earlier with
    | nil => rfl
    | cons t ts =>
      have inner : kind ∈ ((ts.map fun t => t.kind)
          ++ (kind :: next :: more ++ later.map fun t => t.kind)).dropLast := by
        rw [List.dropLast_append_of_ne_nil (by simp)]
        simp
      rw [whole.singles_dropLast kind inner] at begins
      cases begins
  subst first
  have last : later = [] := List.map_eq_nil_iff.mp (h.trail_le whole.trails)
  rw [last, List.nil_append, List.append_nil]

end IsGrouped

/-- One token alone is of no group that is cut off together. -/
theorem Remains.not_isGrouped (h : Remains eof (used ++ left) ([t] ++ after))
    (h' : Remains eof left after) {group : List Token} (member : group ∈ used) :
    ¬ IsGrouped group := fun isGroup => by
  have one := length_significant_le member
  have two := isGroup.two_le
  rw [h.between h', List.map_singleton, List.length_singleton] at one
  omega

theorem leavesOf_singleton (field : Option Field) (n : Node) :
    leavesOf [.node field n] = n.leaves := by
  rw [leavesOf, leavesOf, Child.leaves, List.append_nil]

/-- The leaves are those of some tokens in a row, and what is seen of these and of those before them
is what is seen of some groups in a row. -/
def Groupwise (groups : List (List Token)) (taken : List Padded) (leaves : List Token) : Prop :=
  ∃ before inner later earlier own left, taken = before ++ inner ++ later
    ∧ groups = earlier ++ own ++ left ∧ leaves = inner.flatMap Padded.tokens
    ∧ Token.significant earlier.flatten = before.map (fun p => p.token)
    ∧ Token.significant own.flatten = inner.map (fun p => p.token)

namespace Groupwise

variable {leaves : List Token} {more : List Padded}

theorem before (h : Groupwise groups taken leaves) : Groupwise groups (taken ++ more) leaves := by
  obtain ⟨before, inner, later, earlier, own, left, rfl, groups⟩ := h
  exact ⟨before, inner, later ++ more, earlier, own, left, by simp, groups⟩

theorem behind (h : Groupwise left taken leaves)
    (seen : Token.significant used.flatten = more.map fun p => p.token) :
    Groupwise (used ++ left) (more ++ taken) leaves := by
  obtain ⟨before, inner, later, earlier, own, left, rfl, rfl, leaves, ahead, inside⟩ := h
  refine ⟨more ++ before, inner, later, used ++ earlier, own, left, by simp, by simp, leaves, ?_,
    inside⟩
  rw [List.flatten_append, Token.significant_append, seen, ahead, List.map_append]

/-- Where nothing is seen but what is seen of the groups, each group stands before the leaves, among
them or behind them. -/
theorem apart (h : Groupwise groups taken leaves)
    (all : Token.significant groups.flatten = taken.map fun p => p.token) :
    ∃ before later, taken.flatMap Padded.tokens = before ++ leaves ++ later ∧
      ∀ group ∈ groups, Token.significant group ⊆ before ∨ Token.significant group ⊆ leaves
        ∨ Token.significant group ⊆ later := by
  obtain ⟨before, inner, later, earlier, own, left, rfl, rfl, rfl, ahead, inside⟩ := h
  have behind : Token.significant left.flatten = later.map fun p => p.token := by
    simp only [List.flatten_append, Token.significant_append, List.map_append, ahead, inside]
      at all
    exact List.append_cancel_left all
  have among {some : List (List Token)} {ps : List Padded} {group : List Token}
      (seen : Token.significant some.flatten = ps.map fun p => p.token) (member : group ∈ some) :
      Token.significant group ⊆ ps.flatMap Padded.tokens := fun t found => by
    have found := Token.significant_subset_flatten member found
    rw [seen] at found
    obtain ⟨p, taken, rfl⟩ := List.mem_map.mp found
    exact List.mem_flatMap.mpr ⟨p, taken, List.mem_append_right _ List.mem_cons_self⟩
  refine ⟨_, _, by rw [List.flatMap_append, List.flatMap_append], fun group member => ?_⟩
  rw [List.mem_append, List.mem_append] at member
  rcases member with (member | member) | member
  · exact .inl (among ahead member)
  · exact .inr (.inl (among inside member))
  · exact .inr (.inr (among behind member))

end Groupwise

/-- What is built from a place between two groups lies over whole groups. -/
theorem Remains.groupwise (h : Remains eof groups (taken ++ after))
    (built : Built eof taken after children a b g) (outside : g = false) :
    Groupwise groups taken (leavesOf children) := by
  obtain ⟨own, left, rfl, later⟩ := h.behind_built built outside
  exact ⟨[], taken, [], [], own, left, by simp, rfl, built.leaves, rfl, h.between later⟩

namespace Built

/-- What is built from a place between two groups uses some of them up, and each of those that is
cut off together is held whole. -/
theorem keeps (built : Built eof taken after children a b g) (outside : g = false)
    (remains : Remains eof groups (taken ++ after)) :
    ∃ used left, groups = used ++ left ∧ Remains eof left after
      ∧ ∀ group ∈ used, IsGrouped group → Held children group := by
  induction built generalizing groups with
  | empty => exact ⟨[], groups, rfl, remains, List.forall_mem_nil _⟩
  | append _ _ ih ih' =>
    rw [List.append_assoc] at remains
    obtain ⟨used, left, rfl, remains, held⟩ := ih outside remains
    obtain ⟨used', left, rfl, remains, held'⟩ := ih' outside remains
    refine ⟨used ++ used', left, (List.append_assoc ..).symm, remains, ?_⟩
    intro group member isGroup
    rcases List.mem_append.mp member with member | member
    · refine (held group member isGroup).mono fun n below => ?_
      rw [descendantsOf_append]
      exact List.mem_append_left _ below
    · refine (held' group member isGroup).mono fun n below => ?_
      rw [descendantsOf_append]
      exact List.mem_append_right _ below
  | @token after field padded a b g takes =>
    obtain ⟨used, left, rfl, later⟩ :=
      remains.behind_built (@token eof after field padded a b g takes) outside
    exact ⟨used, left, rfl, later, fun _ member isGroup =>
      absurd isGroup (remains.not_isGrouped later member)⟩
  | @faulty after padded _ error =>
    obtain ⟨used, left, rfl, later⟩ := remains.behind_built (.faulty error) outside
    exact ⟨used, left, rfl, later, fun _ member isGroup =>
      absurd isGroup (remains.not_isGrouped later member)⟩
  | under _ _ _ ih =>
    obtain ⟨used, left, rfl, later, held⟩ := ih outside remains
    refine ⟨used, left, rfl, later, fun group member isGroup => ?_⟩
    refine (held group member isGroup).mono fun n below => ?_
    rw [descendantsOf_under]
    exact List.mem_cons_of_mem _ below
  | relabel _ ih =>
    obtain ⟨used, left, rfl, later, held⟩ := ih outside remains
    refine ⟨used, left, rfl, later, fun group member isGroup => ?_⟩
    refine (held group member isGroup).mono fun n below => ?_
    rwa [descendantsOf_relabel]
  | inside _ ih => exact ih outside remains
  | anywhere _ ih => exact ih rfl remains
  | @region failure region after left _ some_token ended refusal =>
    obtain ⟨used, left, rfl, later⟩ :=
      remains.behind_built (.region some_token ended refusal) outside
    refine ⟨used, left, rfl, later, fun group member isGroup => ?_⟩
    refine ⟨Recovery.node failure region, ?_, .inr ⟨rfl, fun t among => ?_⟩⟩
    · rw [descendantsOf_region]
      exact List.mem_singleton_self _
    · have found := Token.significant_subset_flatten member among
      rw [remains.between later] at found
      obtain ⟨p, taken, rfl⟩ := List.mem_map.mp found
      exact List.mem_flatMap.mpr ⟨p, taken, List.mem_append_right _ List.mem_cons_self⟩
  | @group taken after children bundle built _ =>
    obtain ⟨used, left, rfl, later⟩ := remains.behind_built (.group bundle built) rfl
    refine ⟨used, left, rfl, later, fun group member isGroup => ?_⟩
    have seen := remains.between later
    have whole : (taken.map fun p => p.token.kind)
        = (Token.significant used.flatten).map fun t => t.kind := by
      rw [seen, List.map_map]
      rfl
    have all := isGroup.eq_flatten member (whole ▸ bundle.grouped)
    obtain ⟨inner, rfl, -⟩ := bundle.single
    refine ⟨.sound _ inner, by rw [descendantsOf_under]; exact List.mem_cons_self, .inl ⟨?_, ?_⟩⟩
    · rw [all, ← whole]
      rfl
    · have leaves := built.leaves
      rw [leavesOf_under] at leaves
      rw [Node.sound, Node.leaves, leaves, all, seen]
      exact remains.significant_taken

/-- A node that is no part of a string or of an assembly block lies over whole groups, and so does
what was built before it. -/
theorem groupwise (built : Built eof taken after children a b g) (outside : g = false)
    (remains : Remains eof groups (taken ++ after)) {n : Node}
    (member : n ∈ descendantsOf children) (whole : n.kind.isFragment = false) :
    Groupwise groups taken n.leaves := by
  induction built generalizing groups with
  | empty => cases member
  | append first _ ih ih' =>
    rw [List.append_assoc] at remains
    rw [descendantsOf_append, List.mem_append] at member
    rcases member with member | member
    · exact (ih outside remains member).before
    · obtain ⟨used, left, rfl, later⟩ := remains.behind_built first outside
      exact (ih' outside later member).behind (remains.between later)
  | token _ =>
    rw [descendantsOf_ofPadded] at member
    cases member
  | faulty error =>
    rw [descendantsOf_faulty, List.mem_singleton] at member
    obtain rfl := member
    have all := remains.groupwise (.faulty error) outside
    rwa [leavesOf_singleton] at all
  | under ne_error some_token built ih =>
    rw [descendantsOf_under, List.mem_cons] at member
    rcases member with rfl | member
    · exact remains.groupwise built outside
    · exact ih outside remains member
  | relabel _ ih =>
    rw [descendantsOf_relabel] at member
    exact ih outside remains member
  | inside _ ih => exact ih outside remains member
  | anywhere _ ih => exact ih rfl remains member
  | region some_token ended refusal =>
    rw [descendantsOf_region, List.mem_singleton] at member
    obtain rfl := member
    have all := remains.groupwise (.region some_token ended refusal) outside
    rwa [leavesOf_singleton] at all
  | group bundle built _ =>
    obtain ⟨inner, rfl, fragments⟩ := bundle.single
    rw [descendantsOf_under, List.mem_cons] at member
    rcases member with rfl | member
    · have all := remains.groupwise (.group bundle built) rfl
      rwa [leavesOf_under] at all
    · rw [fragments n member] at whole
      cases whole

end Built

end JaiTree
