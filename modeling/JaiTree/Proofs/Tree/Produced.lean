import JaiTree.Proofs.Grammar.Declared
import JaiTree.Proofs.Grammar.Spelled

/-!
Nodes are made as the productions of their kinds say: the rules of declarations and statements spell
words of them, as those of expressions do. Main statement: `parse_productions`.
-/

namespace JaiTree

open Production Computability

namespace Grammar

variable {eof : Padded} {known : Known} {field : Field} {item : Form}

section Declarations

theorem optSemicolon_spells : optSemicolon.Spells eof known (optional (token .semicolon)) :=
  .optToken rfl

theorem bodyItems_spells (h : ∀ known, item.Spells eof known ⊤) :
    (bodyItems item).Spells eof known ⊤ := by
  refine .fix (.onSight fun s => ?_)
  split
  iterate 2 exact Form.Spells.empty.top
  · exact (Form.Spells.seq .any .again).top
  · exact (Form.Spells.seq (.guard (h _)) .again).top

theorem structBody_spells : structBody.Spells eof known (inner .structBody) := by
  have names {known : Known} : declaredNames.Spells eof known (separated (part .name)) :=
    .separated fun _ => name_spells
  have rest {known : Known} : memberRest.Spells eof known ⊤ :=
    (Form.Spells.seq (.opt (.label type_spells)) (.opt (.seq .any (.label expression_spells)))).top
  have member {known : Known} : structMember.Spells eof known (inner .structMember) :=
    .under (.seq (.seq (.seq (.seq (.seq names (.token rfl)) rest) trailingDirectives_spells)
      (.opt note_spells)) optSemicolon_spells) le_top
  refine .under (.seq (.seq (.token rfl) (bodyItems_spells fun known => .onSight fun s => ?_))
    (.token rfl)) le_top
  split
  · exact note_spells.top
  · exact .ifelse member.top Form.Spells.statement.top

theorem enumBody_spells : enumBody.Spells eof known (inner .enumBody) := by
  have member {known : Known} : enumMember.Spells eof known (inner .enumMember) :=
    .under (.seq (.seq name_spells (.opt (.seq .any (.label expression_spells))))
      optSemicolon_spells) le_top
  refine .under (.seq (.seq (.token rfl) (bodyItems_spells fun known => .onSight fun s => ?_))
    (.token rfl)) le_top
  split
  · exact member.top
  · exact Form.Spells.statement.top

theorem structDeclaration_spells : structDeclaration.Spells eof known ⊤ :=
  (Form.Spells.seq (.seq (.seq (.seq (.seq name_spells (.token rfl)) .any)
    (.opt parameters_spells)) trailingDirectives_spells) (.label structBody_spells)).top

theorem enumDeclaration_spells : enumDeclaration.Spells eof known ⊤ :=
  (Form.Spells.seq (.seq (.seq (.seq (.seq name_spells (.token rfl)) .any)
    (.opt (.label type_spells))) trailingDirectives_spells) (.label enumBody_spells)).top

theorem procedure_spells : procedure.Spells eof known ⊤ := by
  have inlining {known : Known} : (Form.ifelse
      (do if (← Glance.tokenAt 0).isInlining then Glance.procedure 1 else return false)
      Form.any .empty).Spells eof known ⊤ := .ifelse .any Form.Spells.empty.top
  refine (Form.Spells.seq (.seq (.seq inlining signature_spells) (.many directive_spells))
    (@Form.Spells.settled eof _ ⊤ _ _ fun w => ?_)).top
  split
  · exact (Form.Spells.label block_spells).top
  · exact optSemicolon_spells.top

theorem functionDeclaration_spells : functionDeclaration.Spells eof known ⊤ := by
  have operator {known : Known} : overloadedOperator.Spells eof known ⊤ :=
    .onSight fun s => by
      split
      · exact (Form.Spells.seq (.seq .anything (.expect rfl)) (.opt .anything)).top
      · exact .anything
  have head {known : Known} : (Form.ifelse Glance.overload (Form.any ++ overloadedOperator)
      declaredName).Spells eof known ⊤ :=
    .ifelse (Form.Spells.seq .any operator).top name_spells.top
  refine (Form.Spells.seq (.seq head (.token rfl)) (@Form.Spells.onSight eof _ ⊤ _ fun s => ?_)).top
  split
  · exact procedure_spells
  split
  · exact (Form.Spells.seq (.seq (.seq .any identifier_spells) (.label argumentList_spells))
      optSemicolon_spells).top
  split
  · exact (Form.Spells.seq .any procedure_spells).top
  · exact procedure_spells

theorem importedModule_spells : importedModule.Spells eof known ⊤ :=
  (Form.Spells.seq (.seq (.seq .any (.label string_spells)) (.opt (.label argumentList_spells)))
    optSemicolon_spells).top

theorem declaredValues_spells : declaredValues.Spells eof known values :=
  .separated fun _ => .label expression_spells

/-- A token of the kind, which is seen to be there. -/
theorem seen_spells {s : Sight} {kind : TokenKind} (solid : kind.isSolid = true)
    (here : s.kind = kind) :
    Form.any.Spells eof (fun rest => known rest ∧ (ahead eof rest 0).sight = s) (token kind) :=
  .take fun rest ⟨_, seen⟩ => by
    have same : (ahead eof rest 0).token.kind = kind := by
      rw [← here, ← seen]
      rfl
    rw [Token.isTrivia, same]
    exact ⟨TokenKind.ne_eof_of_isSolid solid, TokenKind.not_isTrivia_of_isSolid solid, rfl⟩

/-- A token of one of two kinds. -/
theorem either_spells {a b : TokenKind} (solid : a.isSolid = true) (solid' : b.isSolid = true)
    (here : ∀ rest, known rest →
      (ahead eof rest 0).token.kind = a ∨ (ahead eof rest 0).token.kind = b) :
    Form.any.Spells eof known (token a + token b) := by
  have fit (rest : List Padded) (knows : known rest) :
      (ahead eof rest 0).token.kind ≠ .eof ∧ (ahead eof rest 0).token.isTrivia = false
        ∧ ((ahead eof rest 0).token.kind = a ∨ (ahead eof rest 0).token.kind = b) := by
    rw [Token.isTrivia]
    rcases here rest knows with kind | kind
    all_goals rw [kind]
    · exact ⟨TokenKind.ne_eof_of_isSolid solid, TokenKind.not_isTrivia_of_isSolid solid, .inl rfl⟩
    · exact ⟨TokenKind.ne_eof_of_isSolid solid', TokenKind.not_isTrivia_of_isSolid solid', .inr rfl⟩
  refine (@Form.Spells.take eof known none (fun t => t.kind = a ∨ t.kind = b) fit).mono ?_
  rintro _ ⟨t, kind | kind, rfl⟩
  · exact .inl ⟨t, kind, rfl⟩
  · exact .inr ⟨t, kind, rfl⟩

/-- Names, and behind them a type or values or both. -/
theorem generalDeclaration_spells : generalDeclaration.Spells eof known
    (separated (part .name) * declared * optional (token .semicolon)) := by
  refine .seq (.seq (.separated fun _ => name_spells) (.onSight fun s => ?_)) optSemicolon_spells
  split
  · next here =>
    refine (Form.Spells.seq (seen_spells rfl here) declaredValues_spells).mono ?_
    exact le_self_add
  · next here =>
    have sign {known : Known} :
        (Form.opt startsValues (Form.any ++ declaredValues)).Spells eof known
          (optional ((token .assignment + token .colon) * values)) := by
      refine .opt (.seq (either_spells rfl rfl fun rest ⟨_, starts⟩ => ?_) declaredValues_spells)
      rw [startsValues, Bool.or_eq_true, decide_eq_true_eq, decide_eq_true_eq] at starts
      exact starts
    refine (Form.Spells.seq (.seq (seen_spells rfl here) (.opt (.label type_spells))) sign).mono ?_
    exact le_add_self
  · exact .refuse

/-- What a declaration of the shape is made of from its names on, as far as its production says. -/
def declarationMade : DeclarationShape → Language Child
  | .general => separated (part .name) * declared * optional (token .semicolon)
  | .struct | .enum | .function | .bake | .foreignLibrary | .importing => ⊤

theorem declarationBody_spells (shape : DeclarationShape) :
    (declarationBody shape).Spells eof known (declarationMade shape) := by
  cases shape with
  | struct => exact structDeclaration_spells
  | enum => exact enumDeclaration_spells
  | function | bake => exact functionDeclaration_spells
  | foreignLibrary =>
    exact (Form.Spells.seq (.seq (.seq (.seq name_spells (.token rfl)) .any) (.label string_spells))
      optSemicolon_spells).top
  | importing => exact (Form.Spells.seq (.seq name_spells (.token rfl)) importedModule_spells).top
  | general => exact generalDeclaration_spells

/-- Behind notes it is a word of the production of its kind. -/
theorem declarationMade_le (shape : DeclarationShape) :
    (inner .note)∗ * declarationMade shape ≤ shape.kind.production := by
  cases shape with
  | general =>
    simp only [declarationMade, ← mul_assoc]
    exact le_rfl
  | struct | enum | function | bake | foreignLibrary | importing => exact le_top

theorem declaration_spells (shape : DeclarationShape) :
    (declaration shape).Spells eof known (inner shape.kind) := by
  refine .under (declarationBody_spells shape) (le_trans ?_ (declarationMade_le shape))
  have none : 1 ≤ (inner .note)∗ := one_le_kstar
  have alone := mul_le_mul_left none (declarationMade shape)
  rwa [one_mul] at alone

end Declarations

section Statements

theorem body_spells (conflict : Conflict) : (body conflict).Spells eof known one := by
  refine .settled fun w => ?_
  split
  · exact block_spells.one
  · exact .statement

theorem statements_spells (listEnd : ListEnd) : (statements listEnd).Spells eof known ⊤ := by
  have item {known : Known} : (listItem listEnd).Spells eof known ⊤ := by
    cases listEnd with
    | nextCase => exact (Form.Spells.label .statement).top
    | endOfInput | closeCurly => exact Form.Spells.statement.top
  refine .fix (.choose fun step => ?_)
  cases step with
  | stop => exact Form.Spells.empty.top
  | semicolon => exact (Form.Spells.seq .any .again).top
  | item => exact (Form.Spells.seq (.guard item) .again).top

/-- Where a loop names what it runs through, one name or two stand before a colon. -/
theorem names_of_namesIterator (isEnd : eof.token.kind = .eof) {rest : List Padded}
    (won : namesIterator.run eof rest = true) :
    ∃ n taken colon after, rest = taken ++ colon :: after ∧ Names n taken ∧ n ≤ 2
      ∧ colon.token.kind = .colon := by
  rw [namesIterator, Glance.run_bind, Glance.run_pure, decide_eq_true_eq, Conflict.decide,
    Glance.run_bind, Glance.run_kindAt, Glance.run_ite] at won
  split at won
  · cases won
  next named =>
  obtain ⟨first, rest, rfl, first_named⟩ :=
    exists_of_ahead isEnd (by decide) (Decidable.not_not.mp named)
  rw [Glance.run_bind, Glance.run_kindAt] at won
  have second : ahead eof (first :: rest) 1 = ahead eof rest 0 := rfl
  rw [second] at won
  split at won
  · next here =>
    obtain ⟨colon, after, rfl, kind⟩ := exists_of_ahead isEnd (by decide) here
    exact ⟨1, [first], colon, after, rfl, .one first_named, by decide, kind⟩
  · next here =>
    obtain ⟨comma, rest, rfl, between⟩ := exists_of_ahead isEnd (by decide) here
    rw [Glance.run_bind, Glance.run_kindAt, Glance.run_ite] at won
    have third : ahead eof (first :: comma :: rest) 2 = ahead eof rest 0 := rfl
    rw [third] at won
    split at won
    · next here =>
      obtain ⟨last, rest, rfl, last_named⟩ := exists_of_ahead isEnd (by decide) here
      rw [Glance.run_bind, Glance.run_kindAt, Glance.run_pure] at won
      have fourth : ahead eof (first :: comma :: last :: rest) 3 = ahead eof rest 0 := rfl
      rw [fourth] at won
      have here := of_decide_eq_true (Winner.of_either won (by decide))
      obtain ⟨colon, after, rfl, kind⟩ := exists_of_ahead isEnd (by decide) here
      exact ⟨2, [first, comma, last], colon, after, rfl,
        .more first_named between (.one last_named), by decide, kind⟩
    · cases won
  · cases won

theorem name_spelled {t : Padded} {rest : List Padded} (folded : Folded (t :: rest))
    (named : t.token.kind = .identifier) :
    Spelled (part field) [.node (some field) (.named t)] rest := by
  have seen : t.token.isTrivia = false := by
    rw [Token.isTrivia, named]
    rfl
  have leaf : Spelled (leaf none fun _ => True) (Child.ofPadded none t) rest :=
    .taken folded seen trivial
  have name : Spelled (inner .identifier) [.node none (.named t)] rest := leaf.under le_top
  exact (name.mono (node_le_one _)).labelled

theorem token_spelled {t : Padded} {rest : List Padded} {kind : TokenKind}
    (solid : kind.isSolid = true) (folded : Folded (t :: rest)) (here : t.token.kind = kind) :
    Spelled (token kind) (Child.ofPadded none t) rest := by
  refine .taken folded ?_ here
  rw [Token.isTrivia, here]
  exact TokenKind.not_isTrivia_of_isSolid solid

/-- Names with commas between them spell as many nodes. -/
theorem names_spelled {n : Nat} {names rest : List Padded} (h : Names n names)
    (folded : Folded (names ++ rest)) :
    ∃ m, n = m + 1 ∧ Spelled (part field * (token .comma * part field) ^ m)
      (Child.declared field names) rest := by
  induction h with
  | one named =>
    refine ⟨0, rfl, ?_⟩
    rw [declared_name field named, pow_zero, mul_one]
    exact name_spelled folded named
  | @more n t comma names named between _ ih =>
    have later := folded.suffix (List.suffix_cons t _)
    obtain ⟨m, rfl, spelled⟩ := ih (later.suffix (List.suffix_cons comma _))
    refine ⟨m + 1, rfl, ?_⟩
    have parts : t :: comma :: names = [t] ++ ([comma] ++ names) := rfl
    rw [parts, declared_append, declared_append, declared_name field named,
      declared_other field (by rw [between]; decide), pow_succ', mul_assoc (token .comma)]
    exact (name_spelled folded named).append ((token_spelled rfl later between).append spelled)

/-- The names that a loop runs through, at most two of them. -/
theorem iterators_spells :
    (Form.separated (.label .iterator identifier) ++ Form.token .colon).Spells eof
      (fun rest => known rest ∧ namesIterator.run eof rest = true)
      (part .iterator * optional (token .comma * part .iterator) * token .colon) := by
  intro room levels self turns setting rest folded knows
  obtain ⟨n, taken, colon, after, rfl, names, few, kind⟩ :=
    names_of_namesIterator levels.isEnd knows.2
  have ends : colon.token.kind ≠ .comma := by
    rw [kind]
    decide
  have lead : Form.Leads eof (level eof room) self setting (Child.declared .iterator taken)
      (taken ++ colon :: after)
      (Form.separated (.label .iterator identifier) ++ Form.token .colon) (colon :: after)
      (Form.token .colon) := .head (names_read .iterator names ends)
  rw [lead, token_read kind]
  obtain ⟨m, rfl, spelled⟩ := names_spelled names folded
  have last := folded.suffix (List.suffix_append taken (colon :: after))
  have whole := spelled.append (token_spelled rfl last kind)
  refine Outcome.yields_done.mpr (whole.mono ?_)
  gcongr
  -- One name stands alone, and two have a comma between them.
  obtain rfl | rfl : m = 0 ∨ m = 1 := by omega
  · rw [pow_zero]
    exact le_self_add
  · rw [pow_one]
    exact le_add_self

theorem forStatement_spells
    (stands : ∀ rest, known rest → (ahead eof rest 0).sight.keyword? = some .forWord) :
    forStatement.Spells eof known (inner .forStatement) := by
  have marker : Form.any.Spells eof (fun rest => atForMarker.run eof rest = true)
      (token .star + token .less) := by
    refine either_spells rfl rfl fun rest marked => ?_
    rw [atForMarker, Glance.run_bind, Glance.run_kindAt] at marked
    split at marked
    · exact .inl ‹_›
    · exact .inr ‹_›
    · cases marked
  have names {known : Known} : (Form.ifelse namesIterator
      (Form.separated (.label .iterator identifier) ++ Form.token .colon) .empty).Spells eof known
      (optional (part .iterator * optional (token .comma * part .iterator) * token .colon)) :=
    .ifelse (iterators_spells.mono (le_optional _)) (Form.Spells.empty.mono le_self_add)
  exact .under (.seq (.seq (.seq (.seq (.word stands) (.many marker)) names) (.label range_spells))
    (.label (body_spells _))) le_rfl

theorem seen_of_isAssignment {kind : TokenKind} (assigns : kind.isAssignment = true) :
    kind ≠ .eof ∧ kind.isTrivia = false := by
  unfold TokenKind.isAssignment at assigns
  split at assigns
  all_goals first
    | exact ⟨by decide, rfl⟩
    | cases assigns

theorem expressionList_spells : expressionList.Spells eof known one := by
  have left {known : Known} : (Form.many (Glance.isNext .comma) (Form.any
      ++ Form.label .left expression)).Spells eof known (token .comma * part .left)∗ :=
    .many (.seq .comma (.label expression_spells))
  have operator {known : Known} : assignmentOperator.Spells eof known
      (operator (·.isAssignment = true)) := by
    refine .onSight fun s => ?_
    split
    · next assigns =>
      refine .take fun rest ⟨_, seen⟩ => ?_
      have assigns : (ahead eof rest 0).token.kind.isAssignment = true := by
        rw [← seen] at assigns
        exact assigns
      exact ⟨(seen_of_isAssignment assigns).1, (seen_of_isAssignment assigns).2, assigns⟩
    · exact .refuse
  refine @Form.Spells.grow eof known _ _ _ _ _ _ _ (fun assigned => if assigned then
      (token .comma * part .left)∗ * Production.operator (·.isAssignment = true)
        * separated (part .right) * optional (token .semicolon)
    else ⊤) _ expression_spells (fun assigned => ?_) (fun assigned _ => ?_) fun _ => trivial
  · cases assigned with
    | true =>
      exact .seq (.seq (.seq left operator) (.separated fun _ => .label expression_spells))
        optSemicolon_spells
    | false => exact optSemicolon_spells.top
  · cases assigned with
    | true =>
      simp only [if_true, ← mul_assoc]
      exact le_rfl
    | false => exact le_top

theorem annotated_spells : annotated.Spells eof known one :=
  .lead (.many note_spells) (fun shape => declarationBody_spells shape) declarationMade_le
    expressionList_spells

theorem usingStatement_spells : usingStatement.Spells eof known (inner .usingStatement) := by
  have modifier {known : Known} : (Form.ifelse atUsingModifier (Form.any ++ Form.any
      ++ Form.opt (fun s => s.kind = .openParen) argumentList) .empty).Spells eof known ⊤ :=
    .ifelse (Form.Spells.seq (.seq .any .any) (.opt argumentList_spells)).top Form.Spells.empty.top
  refine .under (.seq (.seq .any modifier) (@Form.Spells.choose eof _ ⊤ _ _ _ fun shape => ?_))
    le_top
  cases shape with
  | some shape => exact (Form.Spells.label (declaration_spells shape)).top
  | none => exact (Form.Spells.seq (.label expression_spells) optSemicolon_spells).top

theorem asmBlock_spells : asmBlock.Spells eof known (inner .asmBlock) := by
  have features {known : Known} : asmFeatures.Spells eof known ⊤ :=
    .fix (Form.Spells.opt (.seq name_spells (.opt (.seq .any .again)))).top
  exact .under (.seq (.seq (.seq (.seq .any features) (.token rfl)) (.opt .any)) (.token rfl))
    le_top

end Statements

section Conditions

variable {room n : Nat} {setting : Setting} {rest : List Padded} {form first second : Form}
  {made made' : Language Child}

/-- A form that does not go on with a loop around it spells what it does whatever the loop reads. -/
theorem spells_closed (h : form.Spells eof known made) (closed : form.Closed)
    (levels : LevelsSpell eof room) (self : Reading) (folded : Folded rest) (knows : known rest) :
    (form.read eof (level eof room) self setting rest).Yields fun children after =>
      Spelled made children after ∧ after.length ≤ rest.length := by
  rw [Form.read_closed closed self nothing]
  intro children after ended
  refine ⟨h.alone levels folded knows children after ended, ?_⟩
  have shorter := (read_suffix eof room form setting rest).length_le
  rw [Grammar.read, ended] at shorter
  exact shorter

theorem block_closed : block.Closed := ⟨⟨trivial, trivial⟩, trivial⟩

theorem body_closed (conflict : Conflict) : (body conflict).Closed := fun w => by
  dsimp only
  split
  · exact block_closed
  · trivial

theorem closed_seq_spells (levels : LevelsSpell eof room) (self : Reading) (folded : Folded rest)
    (h : first.Spells eof (fun _ => True) made) (closed : first.Closed)
    (h' : ∀ after, after.length ≤ rest.length → Folded after →
      (second.read eof (level eof room) self setting after).Yields (Spelled made')) :
    ((first ++ second).read eof (level eof room) self setting rest).Yields
      (Spelled (made * made')) := by
  refine (spells_closed h closed levels self folded trivial).andThen fun children after front => ?_
  exact (h' after front.2 front.1.folded).imp fun _ _ tail => front.1.append tail

/-- A word that is seen to be there, and what stands behind it. -/
theorem word_seq_spells {keyword : Keyword} (levels : LevelsSpell eof room) (self : Reading)
    (folded : Folded rest) (here : (ahead eof rest 0).sight.keyword? = some keyword)
    (h : ∀ after, after.length < rest.length → Folded after →
      (form.read eof (level eof room) self setting after).Yields (Spelled made)) :
    ((Form.any ++ form).read eof (level eof room) self setting rest).Yields
      (Spelled (word keyword * made)) := by
  have kind := Lexeme.kind_of_keyword? here
  rw [Padded.sight_kind] at kind
  obtain ⟨t, after, rfl, named⟩ := exists_of_ahead levels.isEnd (by decide) kind
  have seen : t.token.isTrivia = false := by
    rw [Token.isTrivia, named]
    rfl
  have front : Spelled (word keyword) (Child.ofPadded none t) after := .taken folded seen here
  have lead : Form.Leads eof (level eof room) self setting (Child.ofPadded none t) (t :: after)
      (Form.any ++ form) after form := .head any_read
  rw [lead, Outcome.yields_map]
  exact (h after (Nat.lt_succ_self _) front.folded).imp fun _ _ tail => front.append tail

theorem branches_le_ifStatement {keyword : Keyword}
    (opens : word keyword ≤ word .ifWord + word .ifxWord) :
    word keyword * (part .condition * branches) ≤ NodeKind.production .ifStatement := by
  rw [← mul_assoc]
  simp only [NodeKind.production]
  gcongr

/-- What stands behind `else` is one node. Where that is another condition, it is made as one. -/
theorem elseBranch_spells (levels : LevelsSpell eof room) {self : Reading}
    (later : ∀ setting rest, rest.length < n → Folded rest →
      (self setting rest).Yields (Spelled (part .condition * branches)))
    (short : rest.length ≤ n) (folded : Folded rest) :
    (elseBranch.read eof (level eof room) self setting rest).Yields
      (Spelled (part .alternative)) := by
  rw [elseBranch, Form.settled, Form.read]
  split
  · have braced : (Form.label .alternative block).Spells eof (fun _ => True) (part .alternative) :=
      .label block_spells.one
    exact (spells_closed braced block_closed levels self folded trivial).imp fun _ _ made => made.1
  rw [Form.ifelse, Form.read]
  cases found : atElseIf.run eof rest with
  | false =>
    have plain : (Form.label .alternative statement).Spells eof (fun _ => True)
        (part .alternative) := .label .statement
    exact (spells_closed plain trivial levels self folded trivial).imp fun _ _ made => made.1
  | true =>
    have here : (ahead eof rest 0).sight.keyword? = some .ifWord := by
      rw [atElseIf, Glance.run_bind, Glance.run_keywordAt, Glance.run_ite] at found
      split at found
      · assumption
      · cases found
    have inside := @word_seq_spells eof room setting rest .again _ _ levels self folded here
      fun after shorter folded => later setting after (Nat.lt_of_lt_of_le shorter short) folded
    simp only [if_true, Form.read, Outcome.yields_map]
    refine inside.imp fun children after made => ?_
    have whole := made.under (branches_le_ifStatement le_self_add)
    exact (whole.mono (node_le_one _)).labelled

/-- What stands behind the word for a condition: each turn of the loop is made of fewer tokens than
the one before it, so none is cut short. -/
theorem conditional_spells : conditional.Spells eof known (part .condition * branches) := by
  intro room levels self _ setting rest folded _
  rw [conditional, Form.read]
  suffices rounds : ∀ n setting rest, rest.length < n → Folded rest →
      (Reading.unrolled _ n setting rest).Yields (Spelled (part .condition * branches)) from
    rounds _ setting rest (Nat.lt_succ_self _) folded
  intro n
  induction n with
  | zero => exact fun setting rest short => absurd short (Nat.not_lt_zero _)
  | succ n ih =>
    intro setting rest short folded
    rw [Reading.unrolled]
    refine closed_seq_spells levels _ folded (.label (.within expression_spells)) trivial
      fun after shorter folded => ?_
    rw [Form.ifelse, Form.read]
    cases found : atCases.run eof after with
    | true =>
      have equals : (ahead eof after 0).token.kind = .equals := by
        rw [atCases, Glance.run_bind, Glance.run_kindAt, Glance.run_ite] at found
        split at found
        · assumption
        · cases found
      have cases_spell : (Form.take (some .operator) ++ .label .consequence block).Spells eof
          (fun rest => (ahead eof rest 0).token.kind = .equals)
          (operator (· = .equals) * node (some .consequence) (· = .block)) := by
        refine .seq (.take fun rest equals => ?_) (.label block_spells)
        rw [Token.isTrivia, equals]
        exact ⟨by decide, rfl, rfl⟩
      have closed : (Form.take (some .operator) ++ .label .consequence block).Closed :=
        ⟨trivial, block_closed⟩
      exact (spells_closed cases_spell closed levels _ folded equals).imp fun _ _ made =>
        made.1.mono le_self_add
    | false =>
      have then_spells : (optWord .thenWord ++ .label .consequence (body .statementIf)).Spells eof
          (fun _ => True) (optional (word .thenWord) * part .consequence) :=
        .seq .optWord (.label (body_spells _))
      have closed : (optWord .thenWord ++ .label .consequence (body .statementIf)).Closed :=
        ⟨Form.closed_opt trivial, body_closed .statementIf⟩
      refine (closed_seq_spells levels _ folded then_spells closed
        fun last shorter' folded => ?_).imp fun _ _ made => made.mono le_add_self
      rw [Form.opt, Form.onSight, Form.read, Glance.run_tokenAt]
      split
      · next here =>
        refine (word_seq_spells levels _ folded (of_decide_eq_true here) fun after less folded =>
          elseBranch_spells (n := n) levels ih ?_ folded).imp fun _ _ made => made.mono le_add_self
        omega
      · exact Outcome.yields_done.mpr ((Spelled.nil folded).mono le_self_add)

end Conditions

section Levels

theorem ifStatement_spells
    (stands : ∀ rest, known rest → (ahead eof rest 0).sight.keyword? = some .ifWord
      ∨ (ahead eof rest 0).sight.keyword? = some .ifxWord) :
    ifStatement.Spells eof known (inner .ifStatement) := by
  intro room levels self turns setting rest folded knows
  rcases stands rest knows with here | here
  · have opens : ifStatement.Spells eof
        (fun rest => (ahead eof rest 0).sight.keyword? = some .ifWord) (inner .ifStatement) :=
      .under (.seq (.word fun _ here => here) conditional_spells)
        (branches_le_ifStatement le_self_add)
    exact opens room levels self turns setting rest folded here
  · have opens : ifStatement.Spells eof
        (fun rest => (ahead eof rest 0).sight.keyword? = some .ifxWord) (inner .ifStatement) :=
      .under (.seq (.word fun _ here => here) conditional_spells)
        (branches_le_ifStatement le_add_self)
    exact opens room levels self turns setting rest folded here

theorem jumpStatement_spells : jumpStatement.Spells eof known one := by
  refine .onSight fun s => Form.Spells.one (.under (.seq (.seq .any (.opt identifier_spells))
    optSemicolon_spells) ?_)
  cases s.isWord .continueWord
  all_goals exact le_top

theorem keywordStatement_spells {keyword : Keyword}
    (stands : ∀ rest, known rest → (ahead eof rest 0).sight.keyword? = some keyword) :
    (keywordStatement keyword).Spells eof known one := by
  unfold keywordStatement
  split
  · exact (ifStatement_spells fun rest knows => .inl (stands rest knows)).one
  · exact (ifStatement_spells fun rest knows => .inr (stands rest knows)).one
  · exact Form.Spells.one (.under (.seq (.seq .any (.label expression_spells))
      (.label (body_spells _))) le_top)
  · exact (forStatement_spells stands).one
  · exact Form.Spells.one (.under (.seq (.seq .any (.opt (.separated fun _ =>
      .label expression_spells))) optSemicolon_spells) le_top)
  iterate 2 exact jumpStatement_spells
  · exact Form.Spells.one (.under (.seq .any (.label (body_spells _))) le_top)
  · exact Form.Spells.one (.under (.seq (.seq .any (.label expression_spells))
      optSemicolon_spells) le_top)
  · exact usingStatement_spells.one
  · exact Form.Spells.one (.under (.seq (.seq (.seq .any (.opt (.label range_spells))) (.token rfl))
      (statements_spells _)) le_top)
  · exact .refuse

theorem statementRule_spells : statementRule.Spells eof known one := by
  refine .choose fun shape => ?_
  cases shape with
  | lexicalError => exact Form.Spells.faulty.one
  | empty => exact .refuse
  | block => exact block_spells.one
  | annotated => exact annotated_spells
  | importing => exact Form.Spells.one (.under importedModule_spells le_top)
  | load =>
    exact Form.Spells.one (.under (.seq (.seq .any (.label string_spells)) optSemicolon_spells)
      le_top)
  | asm => exact asmBlock_spells.one
  | scope => exact Form.Spells.one (.under (.under .any le_top) le_top)
  | staticIf => exact Form.Spells.one (.under (.seq .any conditional_spells) le_top)
  | directive =>
    exact Form.Spells.one (.under (.seq directive_spells optSemicolon_spells) le_top)
  | keyword keyword =>
    exact keywordStatement_spells fun rest ⟨_, _, found⟩ => StatementShape.told_of_seen found
  | operator => exact (declaration_spells .function).one
  | declaration shape => exact (declaration_spells shape).one
  | expressionList => exact expressionList_spells

theorem form_spells (goal : Goal) : goal.form.Spells eof known goal.made := by
  cases goal with
  | expression floor => exact expressionRule_spells floor
  | type => exact typeRule_spells
  | statement => exact statementRule_spells
  | blockItems => exact .within (statements_spells .closeCurly)

/-- However deep a rule stands, the nodes it makes are made as their kinds say. -/
theorem level_spells (isEnd : eof.token.kind = .eof) (room : Nat) : LevelsSpell eof room where
  isEnd := isEnd
  levels := by
    induction room with
    | zero => exact fun goal setting rest folded => Outcome.yields_failed
    | succ room ih =>
      intro goal setting rest folded
      have rule : goal.form.Spells eof (fun _ => True) goal.made := form_spells goal
      exact rule.alone ⟨isEnd, ih⟩ folded trivial

end Levels

end Grammar

/-- The children of every node of a tree, without the trivia among them, are a word of the
production of its kind. -/
theorem parse_productions (text : String) :
    ∀ n ∈ (parse text).root.descendants, Child.significant n.children ∈ n.kind.production := by
  obtain ⟨body, -, -, ended⟩ := parse_listed text
  have isEnd := Cursor.isEnd_ofText text
  have folded : Folded (Cursor.ofText text).tokens := fun p member =>
    Cursor.folded_of_mem_ofText (List.mem_append_left _ member)
  have whole : Grammar.sourceFile.Spells (Cursor.ofText text).eof (fun _ => True)
      (inner .sourceFile) :=
    .under (.seq (Grammar.statements_spells .endOfInput) .any) le_top
  have levels := Grammar.level_spells isEnd Grammar.maxNesting
  have made := whole.alone levels folded trivial _ _ ended
  have same : descendantsOf [.node none (parse text).root] = (parse text).root.descendants := by
    simp [descendantsOf, Child.descendants]
  rw [← same]
  exact made.nodes

/-- A loop that names its item and its index, around a call. -/
theorem parse_productions_loop :
    ∃ n ∈ (parse "for * v, k: xs f(v, k);").root.descendants,
      n.kind = .forStatement ∧ Child.significant n.children ∈ n.kind.production := by
  have found : ((parse "for * v, k: xs f(v, k);").root.descendants.any fun n =>
      n.kind = .forStatement) = true := by decide +kernel
  obtain ⟨n, member, kind⟩ := List.any_eq_true.mp found
  exact ⟨n, member, of_decide_eq_true kind, parse_productions _ n member⟩

end JaiTree
