import JaiTree.Proofs.Grammar.Statements

/-!
Names ahead: what a name list and the shape of a declaration tell of the tokens at the head of it.
Main statements: `Names.of_nameList`, `Declares.seen`, `DeclarationShape.function_begins`.
-/

namespace JaiTree

/-- So many names with commas between them. -/
inductive Names : Nat → List Padded → Prop where
  | one {t : Padded} : t.token.kind = .identifier → Names 1 [t]
  | more {n : Nat} {t comma : Padded} {names : List Padded} : t.token.kind = .identifier →
      comma.token.kind = .comma → Names n names → Names (n + 1) (t :: comma :: names)

namespace Names

variable {n : Nat} {names rest : List Padded}

theorem pos (h : Names n names) : 0 < n := by
  cases h with
  | one => exact Nat.one_pos
  | more _ _ later => exact Nat.succ_pos _

/-- There is a comma between any two names. -/
theorem length (h : Names n names) : names.length + 1 = 2 * n := by
  induction h with
  | one _ => rfl
  | more _ _ _ ih =>
    simp only [List.length_cons]
    omega

theorem of_one (h : Names 1 names) : ∃ name, names = [name] ∧ name.token.kind = .identifier := by
  cases h with
  | @one name named => exact ⟨name, rfl, named⟩
  | more _ _ none => exact absurd none.pos (Nat.lt_irrefl 0)

/-- A run of names is made of names with commas between them. -/
theorem of_nameRun (some_names : nameRun rest ≠ 0) :
    ∃ n names after, rest = names ++ after ∧ Names n names ∧ nameRun rest = names.length := by
  fun_induction nameRun rest with
  | case1 => exact absurd rfl some_names
  | case2 first named comma second more both ih =>
    rw [Bool.and_eq_true, decide_eq_true_eq, decide_eq_true_eq] at both
    have later : nameRun (second :: more) ≠ 0 := by
      have found : 1 ≤ nameRun (second :: more) := one_le_nameRun both.2
      omega
    obtain ⟨n, names, after, split, holds, length⟩ := ih later
    refine ⟨n + 1, first :: comma :: names, after, by rw [split]; rfl, .more named both.1 holds, ?_⟩
    rw [length, List.length_cons, List.length_cons]
    omega
  | case3 first named comma second more _ => exact ⟨1, [first], _, rfl, .one named, rfl⟩
  | case4 first rest named _ => exact ⟨1, [first], rest, rfl, .one named, rfl⟩
  | case5 => exact absurd rfl some_names

/-- A name list is made of names with commas between them, and of a colon behind them. -/
theorem of_nameList {eof : Padded} (isEnd : eof.token.kind = .eof) {list : NameList}
    (found : (Glance.nameList 0).run eof rest = some list) :
    ∃ names colon after, rest = names ++ colon :: after ∧ Names list.names names
      ∧ list.colonOffset = names.length ∧ colon.token.kind = list.colon
      ∧ (list.colon = .colon ∨ list.colon = .colonColon) := by
  rw [Glance.nameList, Glance.run, List.drop_zero] at found
  split at found
  · cases found
  next some_names =>
  obtain ⟨n, names, after, rfl, holds, length⟩ := of_nameRun some_names
  rw [Nat.zero_add, Glance.run_bind, Glance.run_kindAt, Glance.run_ite, length] at found
  split at found
  · next sign =>
    obtain rfl := Option.some.inj found
    have behind : ahead eof (names ++ after) names.length = ahead eof after 0 := by
      have shift := ahead_drop eof (names ++ after) names.length 0
      rw [List.drop_left, Nat.add_zero] at shift
      exact shift.symm
    rw [behind, Bool.or_eq_true, decide_eq_true_eq, decide_eq_true_eq] at sign
    have count : (names.length + 1) / 2 = n := by
      have double := holds.length
      omega
    cases after with
    | nil =>
      have last : eof.token.kind = .colon ∨ eof.token.kind = .colonColon := sign
      rw [isEnd] at last
      rcases last with last | last
      all_goals cases last
    | cons colon after =>
      rw [behind]
      exact ⟨names, colon, after, rfl, count.symm ▸ holds, rfl, rfl, sign⟩
  · cases found

end Names

section

variable {eof : Padded} {rest : List Padded} {shape : DeclarationShape} {list : NameList}

/-- What is no plain value has one name, and a double colon behind it. -/
theorem DeclarationShape.one_name (seen : glance.run eof rest = shape) (special : shape ≠ .general)
    (found : (Glance.nameList 0).run eof rest = some list) :
    list.names ≤ 1 ∧ list.colon = .colonColon := by
  rw [glance, Glance.run_bind, found] at seen
  dsimp only at seen
  rw [Glance.run_ite] at seen
  split at seen
  · next colon =>
    rw [Glance.run_bind, Glance.run_pure] at seen
    split at seen
    · exact absurd seen.symm special
    · next few => exact ⟨Nat.le_of_not_lt few, colon⟩
  · exact absurd seen.symm special

/-- What is seen to declare a procedure declares one behind its names and the colon. -/
theorem DeclarationShape.constant_of_function (seen : glance.run eof rest = .function)
    (found : (Glance.nameList 0).run eof rest = some list) :
    ofConstant.run eof (rest.drop (list.colonOffset + 1)) = .function := by
  rw [glance, Glance.run_bind, found] at seen
  dsimp only at seen
  rw [Glance.run_ite] at seen
  split at seen
  · rw [Glance.run_bind, Glance.run_pure, Glance.run_after] at seen
    split at seen
    · cases seen
    · exact seen
  · cases seen

/-- No overload is declared where names stand before a colon. -/
theorem Glance.not_overload (isEnd : eof.token.kind = .eof)
    (found : (Glance.nameList 0).run eof rest = some list) :
    Glance.overload.run eof rest = false := by
  rw [Bool.eq_false_iff]
  intro overloads
  have operator := (Glance.run_overload overloads).2
  obtain ⟨names, colon, after, rfl, holds, -, kind, sign⟩ := Names.of_nameList isEnd found
  generalize list.names = n at holds
  cases holds with
  | one named =>
    change colon.token.kind.isOverloadable = true at operator
    rw [kind] at operator
    rcases sign with sign | sign
    all_goals
      rw [sign] at operator
      cases operator
  | @more _ _ comma _ _ between _ =>
    change comma.token.kind.isOverloadable = true at operator
    rw [between] at operator
    cases operator

/-- A place where a statement is seen to be a declaration of the shape, by itself, behind notes or
behind the word that brings its names into scope. -/
def Declares (eof : Padded) (rest : List Padded) (shape : DeclarationShape) : Prop :=
  StatementShape.glance.run eof rest = .declaration shape
    ∨ Grammar.annotatedShape.run eof rest = some shape
    ∨ Grammar.usingShape.run eof rest = some shape

theorem Declares.seen (isEnd : eof.token.kind = .eof) (declares : Declares eof rest shape)
    (found : (Glance.nameList 0).run eof rest = some list) :
    DeclarationShape.glance.run eof rest = shape := by
  rcases declares with plain | annotated | used
  · exact StatementShape.told_of_seen plain
  · simp only [Grammar.annotatedShape, Glance.run_bind, Glance.run_ite,
      Glance.not_overload isEnd found] at annotated
    split at annotated
    · next no => cases no
    · split at annotated
      · rw [Glance.run_map] at annotated
        exact Option.some.inj annotated
      · cases annotated
  · exact Grammar.usingShape_declared used

end

/-- A token of a kind that is not the end's is there to be taken. -/
theorem exists_of_ahead {eof : Padded} {rest : List Padded} {kind : TokenKind}
    (isEnd : eof.token.kind = .eof) (ne_eof : kind ≠ .eof)
    (seen : (ahead eof rest 0).token.kind = kind) :
    ∃ t ts, rest = t :: ts ∧ t.token.kind = kind := by
  cases rest with
  | nil => exact absurd (seen.symm.trans isEnd) ne_eof
  | cons t ts => exact ⟨t, ts, rfl, seen⟩

namespace Glance

variable {eof t : Padded} {rest : List Padded} {offset : Nat}

/-- A parameter list is told from its parenthesis on. -/
theorem procedure_paren (seen : (procedure offset).run eof rest = true) :
    (ahead eof rest offset).token.kind = .openParen := by
  rw [procedure, run_bind, run_kindAt, run_ite] at seen
  split at seen
  · cases seen
  · next paren => exact Decidable.not_not.mp paren

theorem procedure_cons :
    (procedure (offset + 1)).run eof (t :: rest) = (procedure offset).run eof rest := by
  have second : ahead eof (t :: rest) (offset + 1 + 1) = ahead eof rest (offset + 1) := rfl
  have third : ahead eof (t :: rest) (offset + 1 + 2) = ahead eof rest (offset + 2) := rfl
  have fourth : ahead eof (t :: rest) (offset + 1 + 3) = ahead eof rest (offset + 3) := rfl
  have named : (procedure.named (offset + 1)).run eof (t :: rest)
      = (procedure.named offset).run eof rest := by
    simp only [procedure.named, run_bind, run_kindAt, third]
    split
    · rfl
    · rfl
    · simp only [run_bind, run_kindAt, fourth]
      split
      all_goals rfl
    · rfl
  simp only [procedure, run_bind, run_kindAt, run_tokenAt, run_ite, second]
  change (if (ahead eof rest offset).token.kind ≠ .openParen then _ else _)
    = (if (ahead eof rest offset).token.kind ≠ .openParen then _ else _)
  split
  · rfl
  split
  · rfl
  · rfl
  · simp only [run_ite, run_bind, run_kindAt, third, named]
    split
    · split
      · rfl
      · rfl
      · exact named
    · rfl
  · rfl

theorem signature_cons :
    (signature (offset + 1)).run eof (t :: rest) = (signature offset).run eof rest := by
  simp only [signature, run_bind, run_tokenAt, run_ite, procedure_cons]
  rfl

/-- A signature begins with a parenthesis, or with a word on inlining and one. -/
theorem signature_begins (isEnd : eof.token.kind = .eof)
    (seen : (signature 0).run eof rest = true) :
    ∃ words paren inner, rest = words ++ paren :: inner ∧ paren.token.kind = .openParen
      ∧ (words = [] ∨ ∃ word : Padded, words = [word] ∧ word.sight.isInlining = true
        ∧ (procedure 1).run eof rest = true) := by
  rw [signature, run_bind, run_tokenAt, run_ite] at seen
  split at seen
  · next inlining =>
    obtain ⟨word, more, rfl, named⟩ :=
      exists_of_ahead isEnd (by decide) (Sight.kind_of_isInlining inlining)
    obtain ⟨paren, inner, rfl, kind⟩ :=
      exists_of_ahead isEnd (by decide) (procedure_paren (procedure_cons.symm.trans seen))
    exact ⟨[word], paren, inner, rfl, kind, .inr ⟨word, rfl, inlining, seen⟩⟩
  · obtain ⟨paren, inner, rfl, kind⟩ :=
      exists_of_ahead isEnd (by decide) (procedure_paren seen)
    exact ⟨[], paren, inner, rfl, kind, .inl rfl⟩

end Glance

variable {eof : Padded} {rest : List Padded}

theorem DeclarationShape.won_of_functionIf {conflict : Conflict} {winner : Winner}
    (seen : (functionIf conflict winner).run eof rest = .function) :
    (conflict.decide false).run eof rest = winner := by
  rw [functionIf, Glance.run_bind, Glance.run_pure] at seen
  split at seen
  · assumption
  · cases seen

theorem Winner.of_either {yes no : Winner} {condition : Bool}
    (won : either yes no condition = yes) (ne : yes ≠ no) : condition = true := by
  cases condition with
  | true => rfl
  | false => exact absurd won.symm ne

/-- What is declared as a procedure has a signature behind the double colon, or behind the mark of
a type there. -/
theorem DeclarationShape.function_begins (isEnd : eof.token.kind = .eof)
    (seen : ofConstant.run eof rest = .function) :
    (Glance.signature 0).run eof rest = true
    ∨ ∃ mark more, rest = mark :: more ∧ mark.token.kind = .directive .typeMark
      ∧ (Glance.signature 0).run eof more = true := by
  have value : ofValue.run eof rest = .function := by
    rw [ofConstant, Glance.run_bind] at seen
    split at seen
    · rw [Glance.run_bind] at seen
      split at seen
      all_goals cases seen
    · rw [Glance.run_bind] at seen
      split at seen
      all_goals cases seen
    · exact seen
  rw [ofValue, Glance.run_bind, Glance.run_tokenAt, Glance.run_ite] at value
  split at value
  · next inlining =>
    have won := won_of_functionIf value
    rw [Conflict.decide, Glance.run_bind, Glance.run_pure] at won
    refine .inl ?_
    rw [Glance.signature, Glance.run_bind, Glance.run_tokenAt, if_pos inlining]
    exact Winner.of_either won (by decide)
  next plain =>
  split at value
  · next d kind =>
    simp only [Glance.run_ite, Glance.run_pure] at value
    split at value
    · cases value
    split at value
    · cases value
    split at value
    · cases value
    split at value
    · next mark =>
      have won := won_of_functionIf value
      rw [Conflict.decide, Glance.run_bind, Glance.run_pure] at won
      obtain ⟨t, more, rfl, typed⟩ := exists_of_ahead isEnd (by simp) kind
      rw [mark] at typed
      exact .inr ⟨t, more, rfl, typed,
        Glance.signature_cons.symm.trans (Winner.of_either won (by decide))⟩
    · cases value
  · have won := won_of_functionIf value
    rw [Conflict.decide, Glance.run_bind, Glance.run_pure] at won
    refine .inl ?_
    rw [Glance.signature, Glance.run_bind, Glance.run_tokenAt, if_neg plain]
    exact Winner.of_either won (by decide)
  · cases value

end JaiTree
