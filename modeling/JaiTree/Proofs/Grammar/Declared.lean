import JaiTree.Proofs.Lookahead.Names
import JaiTree.Proofs.Tree.HereStrings

/-!
Declarations as they were seen: where a statement is seen to be a declaration with some names, the
rule of the declaration takes these names and the colon behind them, and only what follows can
fail. Main statement: `Declares.read_declaration`.
-/

namespace JaiTree

/-- The children that names and the commas and the colon among them become. -/
def Child.declared (field : Field) (names : List Padded) : List Child :=
  names.flatMap fun t =>
    if t.token.kind = .identifier then [.node (some field) (.named t)] else Child.ofPadded none t

namespace Form

variable {eof : Padded} {deeper : Goal → Reading} {self : Reading} {setting : Setting}

/-- Behind the tokens that some front children lie over, a form is read as another one. -/
def Leads (eof : Padded) (deeper : Goal → Reading) (self : Reading) (setting : Setting)
    (front : List Child) (rest : List Padded) (form : Form) (after : List Padded) (tail : Form) :
    Prop :=
  form.read eof deeper self setting rest
    = (tail.read eof deeper self setting after).map (front ++ ·)

namespace Leads

variable {front front' : List Child} {rest after last : List Padded}
  {form first second tail tail' : Form}

theorem head (ended : first.read eof deeper self setting rest = .done front after) :
    Leads eof deeper self setting front rest (first ++ second) after second := by
  change Outcome.andThen _ _ = _
  rw [ended, Outcome.andThen_done]

theorem seq (h : Leads eof deeper self setting front rest form after tail) (second : Form) :
    Leads eof deeper self setting front rest (form ++ second) after (tail ++ second) := by
  change Outcome.andThen _ _ = Outcome.map _ (Outcome.andThen _ _)
  rw [h]
  cases tail.read eof deeper self setting after with
  | failed error rest => rfl
  | done children rest =>
    simp only [Outcome.map, Outcome.andThen]
    cases second.read eof deeper self setting rest with
    | failed error rest => rfl
    | done more rest => simp

theorem trans (h : Leads eof deeper self setting front rest form after tail)
    (h' : Leads eof deeper self setting front' after tail last tail') :
    Leads eof deeper self setting (front ++ front') rest form last tail' := by
  rw [Leads, h, h']
  cases tail'.read eof deeper self setting last with
  | failed error rest => rfl
  | done children rest => simp [Outcome.map]

end Leads

end Form

namespace Grammar

open Form

variable {eof : Padded} {deeper : Goal → Reading} {self : Reading} {setting : Setting}
  {rest : List Padded} {t : Padded}

theorem ifelse_read_yes {look : Glance Bool} {yes no : Form} (holds : look.run eof rest = true) :
    (ifelse look yes no).read eof deeper self setting rest
      = yes.read eof deeper self setting rest := by
  rw [ifelse, Form.read, holds]
  rfl

theorem ifelse_read_no {look : Glance Bool} {yes no : Form} (fails : look.run eof rest = false) :
    (ifelse look yes no).read eof deeper self setting rest
      = no.read eof deeper self setting rest := by
  rw [ifelse, Form.read, fails]
  rfl

theorem token_read {kind : TokenKind} (found : t.token.kind = kind) :
    (token kind).read eof deeper self setting (t :: rest) = .done (Child.ofPadded none t) rest := by
  rw [token, Form.read]
  exact if_pos found

theorem any_read :
    any.read eof deeper self setting (t :: rest) = .done (Child.ofPadded none t) rest := rfl

theorem name_read (field : Field) (named : t.token.kind = .identifier) :
    (Form.label field identifier).read eof deeper self setting (t :: rest)
      = .done [.node (some field) (.named t)] rest := by
  rw [Form.read, identifier, Form.read, token_read named]
  rfl

theorem declared_append (field : Field) (names more : List Padded) :
    Child.declared field (names ++ more)
      = Child.declared field names ++ Child.declared field more :=
  List.flatMap_append

theorem declared_name (field : Field) (named : t.token.kind = .identifier) :
    Child.declared field [t] = [.node (some field) (.named t)] := by
  simp [Child.declared, named]

theorem declared_other (field : Field) (other : t.token.kind ≠ .identifier) :
    Child.declared field [t] = Child.ofPadded none t := by
  simp [Child.declared, other]

section

variable (field : Field)

/-- One turn of the loop over more names. -/
def moreNames (eof : Padded) (deeper : Goal → Reading) (self : Reading) : Reading :=
  (ifelse (Glance.isNext .comma) ((any ++ .label field identifier) ++ .again) .empty).read eof
    deeper self

theorem moreNames_stop (ends : t.token.kind ≠ .comma) :
    moreNames field eof deeper self setting (t :: rest) = .done [] (t :: rest) := by
  have stop : (Glance.isNext .comma).run eof (t :: rest) = false := decide_eq_false ends
  rw [moreNames, ifelse, Form.read, stop]
  rfl

theorem moreNames_more {comma : Padded} (between : comma.token.kind = .comma)
    (named : t.token.kind = .identifier) :
    moreNames field eof deeper self setting (comma :: t :: rest)
      = (self setting rest).map (Child.declared field [comma, t] ++ ·) := by
  have more : (Glance.isNext .comma).run eof (comma :: t :: rest) = true := decide_eq_true between
  have taken : (any ++ .label field identifier).read eof deeper self setting (comma :: t :: rest)
      = .done (Child.declared field [comma, t]) rest := by
    have parts : Child.declared field [comma, t]
        = Child.ofPadded none comma ++ [.node (some field) (.named t)] := by
      rw [← declared_other field (by rw [between]; decide), ← declared_name field named,
        ← declared_append]
      rfl
    have lead : Leads eof deeper self setting (Child.ofPadded none comma) (comma :: t :: rest)
        (any ++ .label field identifier) (t :: rest) (.label field identifier) := .head any_read
    rw [lead, name_read field named, parts]
    rfl
  rw [moreNames, ifelse, Form.read, more]
  exact Leads.head taken

/-- Behind a comma names are read up to where none follows. -/
theorem moreNames_read {n fuel : Nat} {names : List Padded} {comma : Padded}
    (between : comma.token.kind = .comma) (h : Names n names) (enough : n < fuel)
    (ends : t.token.kind ≠ .comma) :
    Reading.unrolled (moreNames field eof deeper) fuel setting (comma :: names ++ t :: rest)
      = .done (Child.declared field (comma :: names)) (t :: rest) := by
  induction h generalizing comma fuel with
  | @one name named =>
    obtain ⟨fuel, rfl⟩ : ∃ more, fuel = more + 2 := ⟨fuel - 2, by omega⟩
    have last : Reading.unrolled (moreNames field eof deeper) (fuel + 1) setting (t :: rest)
        = .done [] (t :: rest) := moreNames_stop field ends
    have turn := @moreNames_more eof deeper (Reading.unrolled (moreNames field eof deeper)
      (fuel + 1)) setting (t :: rest) name field comma between named
    rw [last, Outcome.map, List.append_nil] at turn
    exact turn
  | @more n name comma' names named between' _ ih =>
    obtain ⟨fuel, rfl⟩ : ∃ more, fuel = more + 1 := ⟨fuel - 1, by omega⟩
    have turn := @moreNames_more eof deeper (Reading.unrolled (moreNames field eof deeper) fuel)
      setting (comma' :: names ++ t :: rest) name field comma between named
    rw [ih between' (by omega), Outcome.map, ← declared_append] at turn
    exact turn

/-- Names between commas are read up to where no comma follows. -/
theorem names_read {n : Nat} {names : List Padded} (h : Names n names)
    (ends : t.token.kind ≠ .comma) :
    (separated (.label field identifier)).read eof deeper self setting (names ++ t :: rest)
      = .done (Child.declared field names) (t :: rest) := by
  cases h with
  | @one name named =>
    have last : (Form.many (Glance.isNext .comma) (any ++ .label field identifier)).read eof deeper
        self setting (t :: rest) = .done [] (t :: rest) := moreNames_stop field ends
    have lead : Leads eof deeper self setting [.node (some field) (.named name)]
        (name :: t :: rest) (separated (.label field identifier)) (t :: rest)
        (Form.many (Glance.isNext .comma) (any ++ .label field identifier)) :=
      .head (name_read field named)
    rw [Leads, last, Outcome.map, List.append_nil, ← declared_name field named] at lead
    exact lead
  | @more n name comma names named between later =>
    have loop : (Form.many (Glance.isNext .comma) (any ++ .label field identifier)).read eof deeper
        self setting (comma :: names ++ t :: rest)
        = .done (Child.declared field (comma :: names)) (t :: rest) := by
      refine moreNames_read field between later ?_ ends
      have size := later.length
      simp only [List.length_append, List.length_cons]
      omega
    have lead : Leads eof deeper self setting [.node (some field) (.named name)]
        (name :: (comma :: names ++ t :: rest)) (separated (.label field identifier))
        (comma :: names ++ t :: rest)
        (Form.many (Glance.isNext .comma) (any ++ .label field identifier)) :=
      .head (name_read field named)
    rw [Leads, loop, Outcome.map, ← declared_name field named, ← declared_append] at lead
    exact lead

end

/-- A procedure from the parenthesis of its parameters on. -/
def procedureRest : Form :=
  signature ++ many atProcedureSuffix directive
    ++ settled .functionDeclaration fun
      | .block => .label .body block
      | _ => optSemicolon

/-- What stands behind the names of a declaration of the shape and the colon behind them. -/
def declarationRest (sign : TokenKind) : DeclarationShape → Form
  | .struct =>
    any ++ opt (fun s => s.kind = .openParen) parameters ++ trailingDirectives
      ++ .label .body structBody
  | .enum =>
    any ++ opt (fun s => s.kind ≠ .openCurly && s.directive?.isNone && s.startsType)
        (.label .baseType type)
      ++ trailingDirectives ++ .label .body enumBody
  | .function | .bake =>
    onSight fun s =>
      match s.directive? with
      | none => procedure
      | some d =>
        if d.isBake then any ++ identifier ++ .label .arguments argumentList ++ optSemicolon
        else if d = .typeMark then any ++ procedure
        else procedure
  | .foreignLibrary => any ++ .label .path string ++ optSemicolon
  | .importing => importedModule
  | .general =>
    (if sign = .colonColon then declaredValues
      else opt (fun s => !startsValues s && s.startsType) (.label .type type)
        ++ opt startsValues (any ++ declaredValues))
      ++ optSemicolon

/-- The part that the names of a declaration of the shape stand in. -/
def nameField : DeclarationShape → Field
  | .importing => .nameSpace
  | .struct | .enum | .function | .bake | .foreignLibrary | .general => .name

section

variable {name colon : Padded} {after : List Padded} {first : Form}

/-- A name and a double colon. -/
theorem constant_read (field : Field)
    (begins : first.read eof deeper self setting (name :: colon :: after)
      = (Form.label field identifier).read eof deeper self setting (name :: colon :: after))
    (named : name.token.kind = .identifier) (double : colon.token.kind = .colonColon) :
    (first ++ token .colonColon).read eof deeper self setting (name :: colon :: after)
      = .done (Child.declared field [name, colon]) after := by
  have lead : Leads eof deeper self setting [.node (some field) (.named name)]
      (name :: colon :: after) (first ++ token .colonColon) (colon :: after)
      (token .colonColon) := .head (begins.trans (name_read field named))
  have parts : Child.declared field [name, colon]
      = [.node (some field) (.named name)] ++ Child.ofPadded none colon := by
    rw [← declared_other field (by rw [double]; decide), ← declared_name field named,
      ← declared_append]
    rfl
  rw [lead, token_read double, parts]
  rfl

theorem special_leads {shape : DeclarationShape} (special : shape ≠ .general)
    (plain : Glance.overload.run eof (name :: colon :: after) = false)
    (named : name.token.kind = .identifier) (double : colon.token.kind = .colonColon) :
    Leads eof deeper self setting (Child.declared (nameField shape) [name, colon])
      (name :: colon :: after) (declarationBody shape) after
      (declarationRest .colonColon shape) := by
  have head (field : Field) :
      (.label field identifier ++ token .colonColon).read eof deeper self setting
        (name :: colon :: after) = .done (Child.declared field [name, colon]) after :=
    constant_read field rfl named double
  cases shape with
  | struct => exact (((Leads.head (head .name)).seq _).seq _).seq _
  | enum => exact (((Leads.head (head .name)).seq _).seq _).seq _
  | function | bake =>
    exact Leads.head (constant_read .name (ifelse_read_no plain) named double)
  | foreignLibrary => exact ((Leads.head (head .name)).seq _).seq _
  | importing => exact Leads.head (head .nameSpace)
  | general => exact absurd rfl special

theorem general_leads {n : Nat} {names : List Padded} (holds : Names n names)
    (sign : colon.token.kind = .colon ∨ colon.token.kind = .colonColon) :
    Leads eof deeper self setting (Child.declared .name (names ++ [colon]))
      (names ++ colon :: after) generalDeclaration after
      (declarationRest colon.token.kind .general) := by
  have ends : colon.token.kind ≠ .comma := by
    rcases sign with sign | sign
    all_goals
      rw [sign]
      decide
  have other : colon.token.kind ≠ .identifier := by
    rcases sign with sign | sign
    all_goals
      rw [sign]
      decide
  rw [declared_append, declared_other .name other]
  refine Leads.seq (Leads.trans (Leads.head (names_read .name holds ends)) ?_) _
  -- The sign behind the names tells what may stand behind it.
  have seen : (ahead eof (colon :: after) 0).sight.kind = colon.token.kind := rfl
  rw [Leads, onSight, Form.read, Glance.run_tokenAt, seen]
  rcases sign with sign | sign
  · rw [sign]
    exact (Leads.head any_read).seq _
  · rw [sign]
    exact Leads.head any_read

/-- A signature is read from its parenthesis on, behind a word on inlining if there is one. -/
theorem procedure_leads (isEnd : eof.token.kind = .eof)
    (seen : (Glance.signature 0).run eof rest = true) :
    ∃ words paren inner, rest = words ++ paren :: inner ∧ paren.token.kind = .openParen
      ∧ (words = [] ∨ ∃ word : Padded, words = [word] ∧ word.sight.isInlining = true)
      ∧ ∀ (deeper : Goal → Reading) (self : Reading) (setting : Setting),
        Leads eof deeper self setting (words.flatMap (Child.ofPadded none)) rest procedure
          (paren :: inner) procedureRest := by
  obtain ⟨words, paren, inner, rfl, kind, begins⟩ := Glance.signature_begins isEnd seen
  refine ⟨words, paren, inner, rfl, kind, ?_, ?_⟩
  · rcases begins with none | ⟨word, single, inlining, -⟩
    · exact .inl none
    · exact .inr ⟨word, single, inlining⟩
  intro deeper self setting
  refine Leads.seq (Leads.seq (Leads.head ?_) _) _
  rcases begins with rfl | ⟨word, rfl, inlining, parameters⟩
  · refine ifelse_read_no ?_
    have plain : paren.sight.isInlining = false := by
      rw [Bool.eq_false_iff]
      intro inlining
      have named := Sight.kind_of_isInlining inlining
      rw [Padded.sight_kind, kind] at named
      cases named
    have here : (ahead eof (paren :: inner) 0).sight = paren.sight := rfl
    rw [List.nil_append, Glance.run_bind, Glance.run_tokenAt, here, plain]
    rfl
  · rw [List.flatMap_singleton]
    refine (ifelse_read_yes ?_).trans any_read
    have here : (ahead eof ([word] ++ paren :: inner) 0).sight = word.sight := rfl
    rw [Glance.run_bind, Glance.run_tokenAt, here, inlining]
    exact parameters

/-- What may stand between a double colon and the parameters of a procedure: the mark of a type,
and a word on inlining. -/
def Marks (marks : List Padded) : Prop :=
  ∃ typed words, marks = typed ++ words
    ∧ (typed = [] ∨ ∃ mark : Padded, typed = [mark] ∧ mark.token.kind = .directive .typeMark)
    ∧ (words = [] ∨ ∃ word : Padded, words = [word] ∧ word.sight.isInlining = true)

/-- A procedure is read from the parenthesis of its parameters on, behind its marks. -/
theorem function_leads (isEnd : eof.token.kind = .eof)
    (seen : DeclarationShape.ofConstant.run eof after = .function) (sign : TokenKind) :
    ∃ marks paren inner, after = marks ++ paren :: inner ∧ Marks marks
      ∧ paren.token.kind = .openParen
      ∧ ∀ (deeper : Goal → Reading) (self : Reading) (setting : Setting),
        Leads eof deeper self setting (marks.flatMap (Child.ofPadded none)) after
          (declarationRest sign .function) (paren :: inner) procedureRest := by
  rcases DeclarationShape.function_begins isEnd seen with signed | ⟨mark, more, rfl, typed, signed⟩
  · obtain ⟨words, paren, inner, rfl, kind, inlining, leads⟩ := procedure_leads isEnd signed
    refine ⟨words, paren, inner, rfl, ⟨[], words, rfl, .inl rfl, inlining⟩, kind, ?_⟩
    have plain : (ahead eof (words ++ paren :: inner) 0).sight.directive? = none := by
      rcases inlining with rfl | ⟨word, rfl, inlining⟩
      · change paren.token.kind.directive? = none
        rw [kind]
        rfl
      · have named := Sight.kind_of_isInlining inlining
        change word.sight.kind.directive? = none
        rw [named]
        rfl
    intro deeper self setting
    rw [Leads, declarationRest, onSight, Form.read, Glance.run_tokenAt, plain]
    exact leads deeper self setting
  · obtain ⟨words, paren, inner, rfl, kind, inlining, leads⟩ := procedure_leads isEnd signed
    refine ⟨mark :: words, paren, inner, rfl,
      ⟨[mark], words, rfl, .inr ⟨mark, rfl, typed⟩, inlining⟩, kind, ?_⟩
    have marked : (ahead eof (mark :: (words ++ paren :: inner)) 0).sight.directive?
        = some .typeMark := by
      change mark.token.kind.directive? = some .typeMark
      rw [typed]
      rfl
    intro deeper self setting
    rw [Leads, declarationRest, onSight, Form.read, Glance.run_tokenAt, marked]
    exact (Leads.head any_read).trans (leads deeper self setting)

/-- Behind its marks a procedure has taken the parenthesis of its parameters too before anything of
it can fail. -/
theorem procedureRest_left {room : Nat} {paren : Padded} (kind : paren.token.kind = .openParen) :
    (Grammar.read eof room procedureRest setting (paren :: rest)).left <:+ rest := by
  have lead : ∃ tail, Leads eof (level eof room) nothing setting (Child.ofPadded none paren)
      (paren :: rest) procedureRest rest tail :=
    ⟨_, (((((Leads.head (token_read kind)).seq _).seq _).seq _).seq _)⟩
  obtain ⟨tail, lead⟩ := lead
  rw [Grammar.read, lead, Outcome.left_map]
  exact read_suffix eof room tail setting rest

end

section

theorem directive_partsIn (fields : List Field) (inLoop : Bool) :
    directive.PartsIn fields inLoop := fun s => by
  dsimp only
  split
  · exact trivial
  · split
    all_goals exact trivial

theorem trailingDirectives_partsIn (fields : List Field) (inLoop : Bool) :
    trailingDirectives.PartsIn fields inLoop := .many (directive_partsIn fields true)

theorem string_partsIn (fields : List Field) (inLoop : Bool) : string.PartsIn fields inLoop :=
  fun s => by
    dsimp only
    split
    all_goals exact trivial

theorem optSemicolon_partsIn (fields : List Field) (inLoop : Bool) :
    optSemicolon.PartsIn fields inLoop := .opt .any

/-- The parts of a declaration that stand behind its names. -/
def laterFields : List Field :=
  [.parameters, .returnType, .body, .baseType, .arguments, .path, .type, .value]

theorem parameters_partsIn : parameters.PartsIn laterFields :=
  ⟨⟨.token, .opt ⟨by decide, trivial⟩⟩, .token⟩

theorem procedure_partsIn : procedure.PartsIn laterFields := by
  have words : (ifelse
      (do if (← Glance.tokenAt 0).isInlining then Glance.procedure 1 else return false)
      any .empty).PartsIn laterFields := fun holds => by
    cases holds with
    | true => exact .any
    | false => exact trivial
  have returned : signature.PartsIn laterFields :=
    ⟨parameters_partsIn, .opt ⟨.any, by decide, trivial⟩⟩
  refine ⟨⟨⟨words, returned⟩, .many (directive_partsIn _ _)⟩, fun winner => ?_⟩
  dsimp only
  split
  · exact ⟨by decide, trivial⟩
  · exact optSemicolon_partsIn _ _

theorem importedModule_partsIn : importedModule.PartsIn laterFields :=
  ⟨⟨⟨.any, by decide, string_partsIn _ _⟩, .opt ⟨by decide, trivial⟩⟩, optSemicolon_partsIn _ _⟩

theorem declaredValues_partsIn : declaredValues.PartsIn laterFields :=
  ⟨⟨by decide, expression_partsIn _ _⟩, .many ⟨.any, by decide, expression_partsIn _ _⟩⟩

/-- Behind the names of a declaration no part holds names. -/
theorem declarationRest_partsIn (sign : TokenKind) (shape : DeclarationShape) :
    (declarationRest sign shape).PartsIn laterFields := by
  cases shape with
  | struct =>
    exact ⟨⟨⟨.any, .opt parameters_partsIn⟩, trailingDirectives_partsIn _ _⟩, by decide, trivial⟩
  | enum =>
    exact ⟨⟨⟨.any, .opt ⟨by decide, .inl rfl⟩⟩, trailingDirectives_partsIn _ _⟩, by decide, trivial⟩
  | function | bake =>
    intro s
    dsimp only
    split
    · exact procedure_partsIn
    · split
      · exact ⟨⟨⟨.any, trivial⟩, by decide, trivial⟩, optSemicolon_partsIn _ _⟩
      · split
        · exact ⟨.any, procedure_partsIn⟩
        · exact procedure_partsIn
  | foreignLibrary => exact ⟨⟨.any, by decide, string_partsIn _ _⟩, optSemicolon_partsIn _ _⟩
  | importing => exact importedModule_partsIn
  | general =>
    refine ⟨?_, optSemicolon_partsIn _ _⟩
    split
    · exact declaredValues_partsIn
    · exact ⟨.opt ⟨by decide, .inl rfl⟩, .opt ⟨.any, declaredValues_partsIn⟩⟩

theorem nameField_not_later (shape : DeclarationShape) : nameField shape ∉ laterFields := by
  cases shape
  all_goals decide

end

/-- In the part of the names stand as many children as there are names. -/
theorem count_declared {n : Nat} {names : List Padded} {colon : Padded} (field : Field)
    (holds : Names n names) (sign : colon.token.kind ≠ .identifier) :
    ((Child.declared field (names ++ [colon])).filter fun c => c.field? = some field).length
      = n := by
  have other {t : Padded} (kind : t.token.kind ≠ .identifier) :
      (Child.declared field [t]).filter (fun c => c.field? = some field) = [] := by
    have unnamed : Within [] (Child.ofPadded none t) [] := within_ofPadded nofun
    rw [declared_other field kind, filter_of_within unnamed (by simp)]
  have name {t : Padded} (kind : t.token.kind = .identifier) :
      (Child.declared field [t]).filter (fun c => c.field? = some field)
        = [.node (some field) (.named t)] := by
    rw [declared_name field kind]
    simp [Child.field?]
  rw [declared_append, List.filter_append, other sign, List.append_nil]
  induction holds with
  | one named => rw [name named, List.length_singleton]
  | @more n t comma names named between _ ih =>
    have parts : t :: comma :: names = [t] ++ ([comma] ++ names) := rfl
    rw [parts, declared_append, declared_append, List.filter_append, List.filter_append, name named,
      other (by rw [between]; decide), List.nil_append, List.length_append, ih,
      List.length_singleton, Nat.add_comm]

end Grammar

open Grammar

/-- One node of the kind of the shape, with so many names. -/
def DeclarationShape.MakesNode (shape : DeclarationShape) (n : Nat) : Post := fun children _ =>
  ∃ node : Node, children = [.node none node] ∧ node.kind = shape.kind
    ∧ (node.inField (nameField shape)).length = n

/-- How the rules for a declaration of the shape read a place where names and a colon stand. -/
structure DeclarationShape.Takes (eof : Padded) (shape : DeclarationShape) (n : Nat)
    (names : List Padded) (colon : Padded) (after : List Padded) : Prop where
  /-- The names and the colon are taken, and the rest of the rule goes on behind them. -/
  takes : ∀ room setting,
    Grammar.read eof room (declarationBody shape) setting (names ++ colon :: after)
      = (Grammar.read eof room (declarationRest colon.token.kind shape) setting after).map
        (Child.declared (nameField shape) (names ++ [colon]) ++ ·)
  /-- Nothing fails before the colon is taken. -/
  left : ∀ room setting,
    (Grammar.read eof room (declarationBody shape) setting (names ++ colon :: after)).left <:+ after
  /-- The parenthesis of a procedure stands behind its marks, and nothing fails before it is
  taken. -/
  parenthesis : shape = .function → ∃ marks paren inner, after = marks ++ paren :: inner
    ∧ Marks marks ∧ paren.token.kind = .openParen ∧ ∀ room setting,
      (Grammar.read eof room (declarationBody shape) setting (names ++ colon :: after)).left
        <:+ inner
  /-- A declaration is one node of the kind of its shape, with all the names. -/
  plain : ∀ room setting,
    (Grammar.read eof room (declaration shape) setting (names ++ colon :: after)).Yields
      (shape.MakesNode n)
  /-- So is a declaration behind notes. -/
  annotated : ∀ room setting start notes,
    annotatedShape.run eof (names ++ colon :: after) = some shape →
    Grammar.read eof room (Form.many (Glance.isNext .atSign) note) setting start
      = .done notes (names ++ colon :: after) →
    (Grammar.read eof room Grammar.annotated setting start).Yields (shape.MakesNode n)

/-- Where the rule of a declaration takes names and a colon, the node that it makes has these names,
whatever stands before them without a part. -/
theorem DeclarationShape.makesNode_of_takes {eof : Padded} (isEnd : eof.token.kind = .eof)
    {shape : DeclarationShape} {n room : Nat} {setting : Setting} {names rest after : List Padded}
    {colon : Padded} (holds : Names n names) (sign : colon.token.kind ≠ .identifier)
    (takes : Grammar.read eof room (declarationBody shape) setting rest
      = (Grammar.read eof room (declarationRest colon.token.kind shape) setting after).map
        (Child.declared (nameField shape) (names ++ [colon]) ++ ·))
    {front : List Child} (unnamed : Within [] front rest) :
    (Grammar.read eof room (declarationBody shape) setting rest).Yields fun children last =>
      shape.MakesNode n (Child.under shape.kind (front ++ children)) last := by
  have later : (Grammar.read eof room (declarationRest colon.token.kind shape) setting after).Yields
      (Within laterFields) :=
    (declarationRest_partsIn _ shape).yields (level_sorted isEnd room).toHeads.single nofun
  rw [takes, Outcome.yields_map]
  refine later.imp fun more last within => ⟨_, rfl, rfl, ?_⟩
  change ((front ++ (_ ++ more)).filter _).length = n
  rw [List.filter_append, List.filter_append, filter_of_within unnamed (by simp),
    filter_of_within within (nameField_not_later shape), List.nil_append, List.append_nil]
  exact count_declared _ holds sign

/-- A statement that is seen to be a declaration is read as one: its names and the colon behind them
are taken before anything can fail, and the node that comes of it has them all. What is no plain
value has one name and a double colon, and a procedure has the parenthesis of its parameters behind
the marks that may precede it. -/
theorem Declares.read_declaration {eof : Padded} (isEnd : eof.token.kind = .eof)
    {rest : List Padded} {shape : DeclarationShape} {list : NameList}
    (declares : Declares eof rest shape)
    (found : (Glance.nameList 0).run eof rest = some list) :
    list.colonOffset + 1 = 2 * list.names
    ∧ (shape ≠ .general → list.names = 1 ∧ list.colon = .colonColon)
    ∧ ∃ names colon after, rest = names ++ colon :: after ∧ Names list.names names
      ∧ colon.token.kind = list.colon ∧ (list.colon = .colon ∨ list.colon = .colonColon)
      ∧ shape.Takes eof list.names names colon after := by
  have seen := declares.seen isEnd found
  have overloads := Glance.not_overload isEnd found
  have few (special : shape ≠ .general) := DeclarationShape.one_name seen special found
  obtain ⟨names, colon, after, rfl, holds, offset, kind, sign⟩ := Names.of_nameList isEnd found
  have single (special : shape ≠ .general) : list.names = 1 ∧ list.colon = .colonColon :=
    ⟨Nat.le_antisymm (few special).1 holds.pos, (few special).2⟩
  have other : colon.token.kind ≠ .identifier := by
    rw [kind]
    rcases sign with sign | sign
    all_goals
      rw [sign]
      decide
  have leads (room : Nat) (setting : Setting) :
      Form.Leads eof (level eof room) nothing setting
        (Child.declared (nameField shape) (names ++ [colon])) (names ++ colon :: after)
        (declarationBody shape) after (declarationRest colon.token.kind shape) := by
    by_cases special : shape = .general
    · subst special
      exact general_leads holds (kind.symm ▸ sign)
    · obtain ⟨one, double⟩ := single special
      obtain ⟨name, rfl, named⟩ := (one ▸ holds).of_one
      have double : colon.token.kind = .colonColon := kind.trans double
      rw [double]
      exact special_leads special overloads named double
  have makes (room : Nat) (setting : Setting) {front : List Child}
      (unnamed : Within [] front (names ++ colon :: after)) :=
    DeclarationShape.makesNode_of_takes isEnd holds other (leads room setting) unnamed
  have double : list.colonOffset + 1 = 2 * list.names := offset ▸ holds.length
  refine ⟨double, single, names, colon, after, rfl, holds, kind, sign, ?_⟩
  refine ⟨leads, fun room setting => ?_, fun function => ?_, fun room setting => ?_,
    fun room setting start notes shaped noted => ?_⟩
  · rw [Grammar.read, leads room setting, Outcome.left_map]
    exact read_suffix eof room _ setting after
  · subst function
    have constant := DeclarationShape.constant_of_function seen found
    rw [offset, List.drop_length_add_append, List.drop_one, List.tail_cons] at constant
    obtain ⟨marks, paren, inner, rfl, marked, parenthesis, behind⟩ :=
      function_leads isEnd constant colon.token.kind
    refine ⟨marks, paren, inner, rfl, marked, parenthesis, fun room setting => ?_⟩
    rw [Grammar.read, leads room setting, Outcome.left_map, behind, Outcome.left_map]
    exact procedureRest_left parenthesis
  · rw [Grammar.read, declaration, Form.read, Outcome.yields_map]
    exact @makes room setting [] fun _ none => by cases none
  · rw [Grammar.read, Grammar.annotated, Form.read, ← Grammar.read, noted]
    dsimp only
    rw [shaped]
    dsimp only
    rw [Outcome.yields_map]
    have parts : (Form.many (Glance.isNext .atSign) note).PartsIn [] := .many trivial
    have unnamed := parts.yields (level_sorted isEnd room).toHeads.single
      (fun no => absurd no Bool.false_ne_true) notes _ noted
    exact makes room setting unnamed

/-- A procedure whose parameters stand behind the mark of a type and a word on inlining. -/
theorem Declares.read_declaration_marked :
    let cursor := Cursor.ofText "f :: #type inline (x: int) -> int;"
    cursor.eof.token.kind = .eof ∧ Declares cursor.eof cursor.rest .function
      ∧ (Glance.nameList 0).run cursor.eof cursor.rest = some ⟨1, 1, .colonColon⟩
      ∧ ∃ names colon after, cursor.rest = names ++ colon :: after
        ∧ DeclarationShape.function.Takes cursor.eof 1 names colon after := by
  have isEnd := Cursor.isEnd_ofText "f :: #type inline (x: int) -> int;"
  have declares : Declares (Cursor.ofText "f :: #type inline (x: int) -> int;").eof
      (Cursor.ofText "f :: #type inline (x: int) -> int;").rest .function :=
    .inl (by decide +kernel)
  have found : (Glance.nameList 0).run (Cursor.ofText "f :: #type inline (x: int) -> int;").eof
      (Cursor.ofText "f :: #type inline (x: int) -> int;").rest = some ⟨1, 1, .colonColon⟩ := by
    decide +kernel
  obtain ⟨-, -, names, colon, after, split, -, -, -, takes⟩ := declares.read_declaration isEnd found
  exact ⟨isEnd, declares, found, names, colon, after, split, takes⟩

end JaiTree
