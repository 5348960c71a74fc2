import JaiTree.Proofs.Grammar.Expressions

/-!
The rules of declarations are guarded. Some of them take the token after a double colon unseen:
what they declare was told by that token before.
-/

namespace JaiTree

theorem one_le_nameRun {first : Padded} {rest : List Padded}
    (named : first.token.kind = .identifier) : 1 ≤ nameRun (first :: rest) := by
  unfold nameRun
  rw [if_pos named]
  split
  · split
    all_goals omega
  · omega

theorem nameRun_eq_one {rest : List Padded} (some_names : nameRun rest ≠ 0)
    (one : ¬(nameRun rest + 1) / 2 > 1) : nameRun rest = 1 := by
  unfold nameRun at some_names one ⊢
  split
  · exact absurd rfl some_names
  · split
    · next named =>
      simp only [if_pos named] at one
      split
      · next comma second more =>
        split
        · next both =>
          simp only [if_pos both] at one
          rw [Bool.and_eq_true] at both
          have found : 1 ≤ nameRun (second :: more) := one_le_nameRun (of_decide_eq_true both.2)
          omega
        · rfl
      · rfl
    · next named =>
      simp only [if_neg named] at some_names
      exact absurd rfl some_names

namespace DeclarationShape

variable {eof : Padded} {rest : List Padded}

theorem run_functionIf {conflict : Conflict} {winner : Winner} :
    (functionIf conflict winner).run eof rest = .function
      ∨ (functionIf conflict winner).run eof rest = .general := by
  rw [functionIf, Glance.run_bind, Glance.run_pure]
  split
  · exact .inl rfl
  · exact .inr rfl

/-- What is declared as something special begins with a token that may be taken by itself, unless
it is a procedure. -/
theorem ofConstant_seen (special : ofConstant.run eof rest ≠ .general)
    (value : ofConstant.run eof rest ≠ .function) :
    (ahead eof rest 0).token.kind.isProper = true := by
  have plain (kind : (ahead eof rest 0).token.kind ≠ .identifier) :
      (ahead eof rest 0).sight.keyword? = none := by
    rw [Lexeme.keyword?, Padded.sight_kind, if_neg kind]
  apply TokenKind.isProper_of_ne
  case openParen =>
    intro kind
    have word := plain (by rw [kind]; decide)
    have procedure : ofConstant.run eof rest
        = (functionIf .functionDeclarationExpression .functionDeclaration).run eof rest := by
      simp [ofConstant, ofValue, Conflict.decide, Sight.isInlining, word, kind]
    rw [procedure] at special value
    exact run_functionIf.elim value special
  all_goals
    intro kind
    have word := plain (by rw [kind]; decide)
    refine special ?_
    simp [ofConstant, ofValue, Conflict.decide, Sight.isInlining, word, kind,
      Directive.isBake, Directive.isImport]

/-- One name, a double colon and what tells it lie ahead of what is no plain value. -/
theorem run_glance {shape : DeclarationShape} (seen : glance.run eof rest = shape)
    (special : shape ≠ .general) : ofConstant.run eof (rest.drop 2) = shape := by
  rw [glance, Glance.run_bind] at seen
  split at seen
  · exact absurd seen.symm special
  · next list found =>
    rw [Glance.run_ite] at seen
    split at seen
    · rw [Glance.run_bind, Glance.run_after, Glance.run_pure] at seen
      split at seen
      · exact absurd seen.symm special
      · next one =>
        change Glance.run eof rest (Glance.names 0 _) = some list at found
        rw [Glance.run, List.drop_zero] at found
        split at found
        · cases found
        · next some_names =>
          simp only [Glance.run_bind, Glance.run_kindAt, Glance.run_ite] at found
          split at found
          · obtain rfl := Option.some.inj found
            have single := nameRun_eq_one some_names one
            simpa [single] using seen
          · cases found
    · exact absurd seen.symm special

end DeclarationShape

theorem Glance.run_overload {eof : Padded} {rest : List Padded}
    (seen : Glance.overload.run eof rest = true) :
    (ahead eof rest 0).token.kind = .identifier
      ∧ (ahead eof rest 1).token.kind.isOverloadable = true := by
  simp only [overload, run_bind, run_keywordAt, run_ite] at seen
  split at seen
  · next word => exact ⟨Lexeme.kind_of_keyword? word, seen⟩
  · cases seen

namespace Grammar

open Form

variable {eof : Padded} {moved m : Bool} {known left : Known} {item : Form}
  {spot : Spot}

/-- Behind the name and the double colon stands the token that told what is declared. -/
theorem constant_seen {shape : DeclarationShape} {name colon : Padded} {rest : List Padded}
    (special : shape ≠ .general) (value : shape ≠ .function)
    (told : DeclarationShape.glance.run eof (name :: colon :: rest) = shape) :
    (ahead eof rest 0).token.kind.isProper = true := by
  have same : DeclarationShape.ofConstant.run eof rest = shape :=
    DeclarationShape.run_glance told special
  exact DeclarationShape.ofConstant_seen (same ▸ special) (same ▸ value)

theorem declaredName_safe : Safe eof true declaredName spot := identifier_safe.label

section

variable (isEnd : eof.token.kind = .eof)
include isEnd

theorem optSemicolon_safe : Safe eof false optSemicolon spot := optToken_safe isEnd rfl

theorem declaredNames_safe : Safe eof true declaredNames spot :=
  separated_safe isEnd declaredName_safe

theorem bodyItems_safe (h : Safe eof true item spot) : Safe eof false (bodyItems item) spot := by
  refine .fix (Safe.onSight fun s => ?_)
  split
  · exact Safe.empty.guarded
  · exact Safe.empty.guarded
  · next kind =>
    exact ((take_of_seen isEnd (by rw [kind]; rfl)).andThen .again).weak
  · next ne_close ne_eof _ =>
    have guarded :
        Guarded eof false (.seen eof s) (.guard item) true (fun _ => True) [] [] spot := by
      refine guard_of_kind isEnd h fun rest seen => ?_
      rw [← Padded.sight_kind, seen]
      exact ⟨ne_eof, ne_close⟩
    exact (guarded.andThen .again).weak

theorem memberRest_safe : Safe eof false memberRest spot := by
  have default : Safe eof false
      (opt (fun s => s.kind = .assignment) (any ++ .label .default expression)) spot :=
    .opt ((take_of_kind isEnd .assignment rfl fun _ seen => of_decide_eq_true seen).andThen
      expression_safe.label.guarded)
  exact (Safe.opt type_safe.label.guarded).seq default

theorem structMember_safe : Safe eof true structMember spot :=
  .node rfl ((((((declaredNames_safe isEnd).seq (.expect rfl)).seq (memberRest_safe isEnd)).seq
    (trailingDirectives_safe isEnd)).seq (.opt (note_safe isEnd).guarded)).seq
    (optSemicolon_safe isEnd))

theorem structItem_safe : Safe eof true structItem .plain := by
  refine .onSight fun s => ?_
  split
  · exact (note_safe isEnd).guarded
  · exact (Safe.ifelse (structMember_safe isEnd).guarded statement_safe.guarded).guarded

theorem structBody_safe : Safe eof true structBody .plain :=
  Guarded.framed .structBody (Safe.enclosed .curly (bodyItems_safe isEnd (structItem_safe isEnd)))

theorem enumMember_safe : Safe eof true enumMember spot := by
  have value : Safe eof false (opt (fun s => s.kind = .assignment || s.kind = .colonColon)
      (any ++ .label .value expression)) spot := by
    refine .opt (Guarded.andThen (.take (ready_of_kind isEnd fun rest seen => ?_))
      expression_safe.label.guarded)
    rw [Bool.or_eq_true] at seen
    have sign : (ahead eof rest 0).token.kind = .assignment
        ∨ (ahead eof rest 0).token.kind = .colonColon :=
      seen.imp of_decide_eq_true of_decide_eq_true
    rcases sign with sign | sign
    all_goals
      rw [sign]
      rfl
  exact .node rfl ((declaredName_safe.seq value).seq (optSemicolon_safe isEnd))

theorem enumItem_safe : Safe eof true enumItem .plain := by
  refine .onSight fun s => ?_
  split
  · exact (enumMember_safe isEnd).guarded
  · exact statement_safe.guarded

theorem enumBody_safe : Safe eof true enumBody .plain :=
  Guarded.framed .enumBody (Safe.enclosed .curly (bodyItems_safe isEnd (enumItem_safe isEnd)))

theorem constant_guarded {shape : DeclarationShape} {field : Field} (special : shape ≠ .general)
    (value : shape ≠ .function)
    (h : ∀ rest, known rest → DeclarationShape.glance.run eof rest = shape) :
    Guarded eof moved known (.label field identifier ++ token .colonColon ++ any) true
      (fun _ => True) [] [] spot := by
  have named : Guarded eof moved known (.label field identifier) true known.past [] [] spot :=
    .label identifier_guarded
  refine ((named.andThen (.expect rfl)).andThen (.take (ready_of_kind isEnd ?_))).forget
  rintro rest ⟨t, u, seen⟩
  exact constant_seen special value (h _ seen)

theorem structDeclaration_guarded
    (h : ∀ rest, known rest → DeclarationShape.glance.run eof rest = .struct) :
    Guarded eof moved known structDeclaration true (fun _ => True) [] [] .plain :=
  (((constant_guarded isEnd (by decide) (by decide) h).andThen
    (Safe.opt (parameters_safe isEnd).guarded).guarded).andThen
    (trailingDirectives_safe isEnd).guarded).andThen (structBody_safe isEnd).label.guarded

theorem enumDeclaration_guarded
    (h : ∀ rest, known rest → DeclarationShape.glance.run eof rest = .enum) :
    Guarded eof moved known enumDeclaration true (fun _ => True) [] [] .plain :=
  (((constant_guarded isEnd (by decide) (by decide) h).andThen
    (Safe.opt type_safe.label.guarded).guarded).andThen
    (trailingDirectives_safe isEnd).guarded).andThen (enumBody_safe isEnd).label.guarded

theorem foreignLibrary_guarded
    (h : ∀ rest, known rest → DeclarationShape.glance.run eof rest = .foreignLibrary) :
    Guarded eof moved known foreignLibrary true (fun _ => True) [] [] spot :=
  ((constant_guarded isEnd (by decide) (by decide) h).andThen
    (string_safe isEnd).label.guarded).andThen (optSemicolon_safe isEnd).guarded

theorem importedModule_guarded (ready : known.Ready) :
    Guarded eof moved known importedModule true (fun _ => True) [] [] spot :=
  (((Guarded.take ready).andThen (string_safe isEnd).label.guarded).andThen
    (Safe.opt (argumentList_safe isEnd).label.guarded).guarded).andThen
    (optSemicolon_safe isEnd).guarded

theorem importDeclaration_guarded
    (h : ∀ rest, known rest → DeclarationShape.glance.run eof rest = .importing) :
    Guarded eof moved known importDeclaration true (fun _ => True) [] [] spot := by
  have named : Guarded eof moved known (.label .nameSpace identifier) true known.past [] [] spot :=
    .label identifier_guarded
  refine (named.andThen (.expect rfl)).andThen
    (importedModule_guarded isEnd (ready_of_kind isEnd ?_))
  rintro rest ⟨t, u, seen⟩
  exact constant_seen (by decide) (by decide) (h _ seen)

theorem overloadedOperator_guarded
    (h : ∀ rest, known rest → (ahead eof rest 0).token.kind.isOverloadable = true) :
    Guarded eof moved known overloadedOperator true (fun _ => True) [] [] spot := by
  refine .choose fun s => ?_
  split
  · next bracket =>
    have opened : Guarded eof moved
        (fun rest => known rest ∧ ∃ _ : Setting, (Glance.tokenAt 0).run eof rest = s)
        (.take (some .op)) true _ [] [.bracket] spot :=
      (open_of_seen isEnd .bracket bracket).mono fun _ ⟨_, _, seen⟩ => seen
    have assigned : Safe eof false
        (opt (fun s => s.kind = .assignment) (.take (some .op))) spot :=
      .opt (take_of_kind isEnd .assignment rfl fun _ seen => of_decide_eq_true seen).forget
    exact (opened.andThen (.closes .bracket)).andThen assigned.guarded
  · next bracket =>
    refine .forget (.take (ready_of_kind isEnd fun rest ⟨seen, _, found⟩ => ?_))
    have overloadable := h rest seen
    change (ahead eof rest 0).sight = s at found
    rw [← found, Padded.sight_kind] at bracket
    apply TokenKind.isProper_of_ne
    case openBracket => exact bracket
    all_goals
      intro kind
      rw [kind] at overloadable
      cases overloadable

theorem procedure_safe : Safe eof true procedure spot := by
  have word : Safe eof false (ifelse
      (do if (← Glance.tokenAt 0).isInlining then Glance.procedure 1 else return false)
      any .empty) spot := by
    refine .ifelse (Guarded.weak (.forget (take_of_kind isEnd .identifier rfl fun rest seen => ?_)))
      Safe.empty.guarded
    simp only [Glance.run_bind, Glance.run_tokenAt, Glance.run_ite] at seen
    split at seen
    · next inlining => exact Sight.kind_of_isInlining inlining
    · cases seen
  refine ((word.seq (signature_safe isEnd)).seq (.many (directive_safe isEnd).guarded)).seq
    (Safe.settled (m := false) fun w => ?_)
  split
  · exact block_safe.label.guarded.weak
  · exact (optSemicolon_safe isEnd).guarded

theorem functionDeclaration_safe : Safe eof true functionDeclaration spot := by
  have head : Safe eof true
      (ifelse Glance.overload (any ++ overloadedOperator) declaredName) spot := by
    refine .ifelse (Guarded.andThen (take_of_kind isEnd .identifier rfl ?_)
      (overloadedOperator_guarded isEnd ?_)) declaredName_safe.guarded
    · exact fun rest seen => (Glance.run_overload seen).1
    · exact fun rest ⟨t, seen⟩ => (Glance.run_overload seen).2
  refine (head.seq (.expect rfl)).seq (Safe.onSight (m := true) fun s => ?_)
  split
  · exact (procedure_safe isEnd).guarded
  · next d which =>
    have kind : s.kind = .directive d := Lexeme.kind_of_directive? which
    have mark (string : d ≠ .string) (asm : d ≠ .asm) :
        Guarded eof false (.seen eof s) any true (Known.seen eof s).past [] [] spot :=
      take_of_seen isEnd (kind ▸ TokenKind.isProper_directive string asm)
    split
    · next bakes =>
      have baked : Guarded eof false (.seen eof s) any true (Known.seen eof s).past [] [] spot := by
        refine mark ?_ ?_
        all_goals
          rintro rfl
          cases bakes
      exact ((baked.andThen identifier_safe.guarded).andThen
        (argumentList_safe isEnd).label.guarded).andThen (optSemicolon_safe isEnd).guarded
    split
    · next typed =>
      exact (mark (typed ▸ by decide) (typed ▸ by decide)).andThen (procedure_safe isEnd).guarded
    · exact (procedure_safe isEnd).guarded

theorem declaredValues_safe : Safe eof true declaredValues spot :=
  separated_safe isEnd expression_safe.label

theorem generalDeclaration_safe : Safe eof true generalDeclaration spot := by
  refine ((declaredNames_safe isEnd).seq (Safe.onSight (m := true) fun s => ?_)).seq
    (optSemicolon_safe isEnd)
  split
  · next kind =>
    exact (take_of_seen isEnd (by rw [kind]; rfl)).andThen
      (declaredValues_safe isEnd).guarded
  · next kind =>
    have values : Safe eof false (opt startsValues (any ++ declaredValues)) spot := by
      refine .opt (Guarded.andThen (.take (ready_of_kind isEnd fun rest seen => ?_))
        (declaredValues_safe isEnd).guarded)
      apply TokenKind.isProper_of_ne
      all_goals
        intro kind
        simp [startsValues, kind] at seen
    exact ((take_of_seen isEnd (by rw [kind]; rfl)).andThen
      (Safe.opt type_safe.label.guarded).guarded).andThen values.guarded
  · exact (missing_safe fun _ => rfl).guarded

theorem declarationBody_guarded {shape : DeclarationShape}
    (h : shape ≠ .function → ∀ rest, known rest → DeclarationShape.glance.run eof rest = shape) :
    Guarded eof moved known (declarationBody shape) true (fun _ => True) [] [] .plain := by
  cases shape with
  | struct => exact structDeclaration_guarded isEnd (h (by decide))
  | enum => exact enumDeclaration_guarded isEnd (h (by decide))
  | function | bake => exact (functionDeclaration_safe isEnd).guarded
  | foreignLibrary => exact foreignLibrary_guarded isEnd (h (by decide))
  | importing => exact importDeclaration_guarded isEnd (h (by decide))
  | general => exact (generalDeclaration_safe isEnd).guarded

theorem declaration_guarded {shape : DeclarationShape}
    (h : shape ≠ .function → ∀ rest, known rest → DeclarationShape.glance.run eof rest = shape) :
    Guarded eof moved known (declaration shape) true (fun _ => True) [] [] .plain := by
  refine .node ?_ (declarationBody_guarded isEnd h)
  cases shape <;> rfl

end

end Grammar

end JaiTree
