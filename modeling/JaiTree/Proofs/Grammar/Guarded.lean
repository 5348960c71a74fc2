import JaiTree.Grammar
import JaiTree.Proofs.Grammar.Delimiters
import JaiTree.Proofs.Lookahead.Run

/-!
Guarded forms: a form takes only tokens that are there, puts no node around nothing, goes round
again only past a token, closes what it opens, and takes tokens that are cut off together as one.
Whether it does is told by what the glances before each step know of the tokens ahead.
-/

namespace JaiTree

/-- Whether tokens of the kind may be taken by themselves: they are neither the end nor wrong, they
open and close nothing, and they begin no group of tokens. -/
def TokenKind.isProper (kind : TokenKind) : Bool :=
  kind ≠ .eof && kind ≠ .error && kind.opens?.isNone && kind.closes?.isNone && !kind.beginsGroup

/-- Whether nodes of the kind stand for an operator and its operands. -/
def NodeKind.isOperation : NodeKind → Bool
  | .binaryExpression | .unaryExpression | .castExpression | .memberAccess | .arrayAccess
  | .functionCall | .compositeLiteral | .arrayLiteral => true
  | _ => false

/-- Whether nodes of the kind are put around what a few rules take, and around nothing else. -/
def NodeKind.isFramed : NodeKind → Bool
  | .block | .structBody | .enumBody | .asmBlock | .stringLiteral => true
  | _ => false

/-- Whether a node of the kind may be put around any parts: it is no error node, how tightly its
parts bind does not matter, and no rule is known by it. -/
def NodeKind.isSound (kind : NodeKind) : Bool :=
  kind ≠ .error && !kind.isOperation && !kind.isFramed

/-- Whether a rule may give up for that cause: the text can be cut into tokens there, and it is not
the grammar that is at fault. -/
def Cause.isSyntactic : Cause → Bool
  | .unresolvedConflict _ => false
  | cause => !cause.isLexical

theorem Cause.isLexical_of_isSyntactic {cause : Cause} (syntactic : cause.isSyntactic = true) :
    cause.isLexical = false := by
  unfold isSyntactic at syntactic
  split at syntactic
  · cases syntactic
  · exact Bool.not_eq_true' _ ▸ syntactic

theorem Cause.ne_unresolvedConflict {cause : Cause} {rules : String}
    (found : cause.isLexical = true ∨ cause.isSyntactic = true) :
    cause ≠ .unresolvedConflict rules := by
  rintro rfl
  rcases found with lexical | syntactic
  · cases lexical
  · cases syntactic

namespace TokenKind

variable {kind : TokenKind}

theorem ne_eof (proper : kind.isProper = true) : kind ≠ .eof := by
  rintro rfl
  cases proper

/-- A kind is proper unless it is one of a few. -/
theorem isProper_of_ne (eof : kind ≠ .eof) (error : kind ≠ .error) (openParen : kind ≠ .openParen)
    (closeParen : kind ≠ .closeParen) (openBracket : kind ≠ .openBracket)
    (closeBracket : kind ≠ .closeBracket) (openCurly : kind ≠ .openCurly)
    (closeCurly : kind ≠ .closeCurly) (quote : kind ≠ .doubleQuote)
    (string : kind ≠ .directive .string) (asm : kind ≠ .directive .asm) :
    kind.isProper = true := by
  have opens : kind.opens? = none := by
    unfold opens?
    split
    all_goals first
      | contradiction
      | rfl
  have closes : kind.closes? = none := by
    unfold closes?
    split
    all_goals first
      | contradiction
      | rfl
  have alone : kind.beginsGroup = false := by
    unfold beginsGroup
    split
    all_goals first
      | contradiction
      | rfl
  simp [isProper, eof, error, opens, closes, alone]

/-- A directive is proper unless it begins a string or a block of assembly. -/
theorem isProper_directive {d : Directive} (string : d ≠ .string) (asm : d ≠ .asm) :
    (TokenKind.directive d).isProper = true := by
  apply isProper_of_ne
  case string => exact fun same => string (TokenKind.directive.inj same)
  case asm => exact fun same => asm (TokenKind.directive.inj same)
  all_goals exact TokenKind.noConfusion

end TokenKind

/-- Where a form may stand. -/
inductive Spot where
  /-- Wherever a rule may. -/
  | anywhere
  /-- Where braces are braces, so that statements may begin. -/
  | plain
deriving Repr, DecidableEq

/-- Whether a token of the kind may be taken, inside a group of tokens or not, and which pairs of
the rule are open before and after it. -/
structure Takes (inGroup : Bool) (before : List Delimiter) (kind : TokenKind)
    (after : List Delimiter) : Prop where
  ne_eof : kind ≠ .eof
  ne_error : kind ≠ .error
  whole : kind.beginsGroup = true → inGroup = true
  shifts : Shifts before kind after

theorem Takes.proper {inGroup : Bool} {stack : List Delimiter} {kind : TokenKind}
    (proper : kind.isProper = true) : Takes inGroup stack kind stack := by
  simp only [TokenKind.isProper, Bool.and_eq_true, Option.isNone_iff_eq_none] at proper
  obtain ⟨⟨⟨⟨ne_eof, ne_error⟩, opens⟩, closes⟩, alone⟩ := proper
  refine ⟨of_decide_eq_true ne_eof, of_decide_eq_true ne_error, fun begins => ?_,
    .other opens closes⟩
  rw [begins] at alone
  cases alone

/-- What begins a group of tokens may be taken among the tokens of one. -/
theorem Takes.begins {stack : List Delimiter} {kind : TokenKind}
    (begins : kind.beginsGroup = true) : Takes true stack kind stack := by
  unfold TokenKind.beginsGroup at begins
  split at begins
  case h_4 => cases begins
  all_goals
    exact ⟨TokenKind.noConfusion, TokenKind.noConfusion, fun _ => rfl, .other rfl rfl⟩

theorem Takes.opens {inGroup : Bool} {stack : List Delimiter} (pair : Delimiter) :
    Takes inGroup stack pair.opening (pair :: stack) := by
  refine ⟨?_, ?_, fun begins => ?_, .opens pair⟩
  all_goals cases pair
  all_goals first
    | exact TokenKind.noConfusion
    | cases begins

theorem Takes.closes {inGroup : Bool} {stack : List Delimiter} (pair : Delimiter) :
    Takes inGroup (pair :: stack) pair.closing stack := by
  refine ⟨?_, ?_, fun begins => ?_, .closes pair⟩
  all_goals cases pair
  all_goals first
    | exact TokenKind.noConfusion
    | cases begins

theorem NodeKind.ne_error {kind : NodeKind} (sound : kind.isSound = true) : kind ≠ .error := by
  rintro rfl
  cases sound

theorem NodeKind.not_isOperation {kind : NodeKind} (sound : kind.isSound = true) :
    kind.isOperation = false := by
  rw [isSound, Bool.and_eq_true, Bool.and_eq_true] at sound
  exact Bool.not_eq_true' _ ▸ sound.1.2

theorem NodeKind.not_isFramed {kind : NodeKind} (sound : kind.isSound = true) :
    kind.isFramed = false := by
  rw [isSound, Bool.and_eq_true] at sound
  exact Bool.not_eq_true' _ ▸ sound.2

theorem Growth.kind_ne_error (growth : Growth) : growth.kind ≠ .error := by
  cases growth <;> exact NodeKind.noConfusion

/-- What is known of the tokens that lie ahead. -/
abbrev Known := List Padded → Prop

namespace Known

/-- What is known once a token has been taken. -/
def past (known : Known) : Known := fun rest => ∃ t, known (t :: rest)

/-- The next token, seen. -/
def seen (eof : Padded) (s : Sight) : Known := fun rest => (ahead eof rest 0).sight = s

/-- A token is there that may be taken by itself. -/
def Ready (known : Known) : Prop :=
  ∀ rest, known rest → ∃ t ts, rest = t :: ts ∧ t.token.kind.isProper = true

end Known

/-- Whether a rule takes at least one token. -/
def Goal.moves : Goal → Bool
  | .blockItems => false
  | _ => true

/-- Where a rule may stand. -/
def Goal.spot : Goal → Spot
  | .expression _ | .type | .blockItems => .anywhere
  | .statement => .plain

/-- Where the part in a scope stands. -/
def Scope.spot : Scope → Spot
  | .condition => .anywhere
  | _ => .plain

namespace Form

/-- The rules that the nodes of a kind are known by. -/
inductive Frames (eof : Padded) (known : Known) : Form → Prop where
  | block : Frames eof known Grammar.block
  | structBody : Frames eof known Grammar.structBody
  | enumBody : Frames eof known Grammar.enumBody
  | asmBlock : (∀ rest, known rest → (ahead eof rest 0).token.kind = .directive .asm) →
      Frames eof known Grammar.asmBlock
  | quotedString : Frames eof known Grammar.quotedString
  | hereString : Frames eof known Grammar.hereString

/-- The forms that put nodes around their parts in a way that may be relied on: around parts of any
sort, around those of one rule, or around operands as the rules of expressions do. -/
inductive Fits (eof : Padded) (known : Known) : Form → Prop where
  | node {kind : NodeKind} {body : Form} : kind.isSound = true → Fits eof known (.node kind body)
  | framed {form : Form} : Frames eof known form → Fits eof known form
  | grow {many : Bool} {κ : Type} {first : Form} {look : Setting → Glance (Option κ)}
      {kind : κ → NodeKind} {field : κ → Option Field} {tail : κ → Form} :
      (∀ k, (kind k).isSound = true) → Fits eof known (.grow many first look kind field tail)
  | prefixed : Fits eof known Grammar.prefixed
  | cast : Fits eof known Grammar.cast
  | expression (floor : Power) : Fits eof known (Grammar.expressionRule floor)
  | namedType : Fits eof known Grammar.namedType

/-- The forms that take tokens which are cut off together. -/
inductive Groups (eof : Padded) (known : Known) : Form → Prop where
  | quotedString : Groups eof known Grammar.quotedString
  | hereString : Groups eof known Grammar.hereString
  | asmBlock : (∀ rest, known rest → (ahead eof rest 0).token.kind = .directive .asm) →
      Groups eof known Grammar.asmBlock

/-- A form that is safe to read where something is known of the tokens ahead. `moved` says whether
a token has been taken since the loop around it began, `moves` whether the form takes one, and
`left` what is known after it. Of the pairs that the rule has opened, `before` are open before the
form and `after` after it; only a part of a rule changes that. The form stands in the spot, and
`inGroup` says whether among tokens that are cut off together. -/
inductive Guarded (eof : Padded) : (moved : Bool) → (known : Known) → Form → (moves : Bool) →
    (left : Known) → (before : List Delimiter := []) → (after : List Delimiter := []) →
    (spot : Spot := .anywhere) → (inGroup : Bool := false) → Prop where
  | empty {moved : Bool} {known : Known} {a : List Delimiter} {spot : Spot} {g : Bool} :
      Guarded eof moved known .empty false known a a spot g
  | seq {moved m n : Bool} {known between left : Known} {first second : Form}
      {a b c : List Delimiter} {spot : Spot} {g : Bool} :
      Guarded eof moved known first m between a b spot g →
      Guarded eof (moved || m) between second n left b c spot g →
      Guarded eof moved known (.seq first second) (m || n) left a c spot g
  | takes {moved : Bool} {known : Known} {field : Option Field} {a b : List Delimiter}
      {spot : Spot} {g : Bool} :
      (∀ rest, known rest → ∃ t ts, rest = t :: ts ∧ Takes g a t.token.kind b) →
      Guarded eof moved known (.take field) true known.past a b spot g
  | expects {moved : Bool} {known : Known} {kind : TokenKind} {field : Option Field}
      {a b : List Delimiter} {spot : Spot} {g : Bool} :
      Takes g a kind b → Guarded eof moved known (.expect kind field) true known.past a b spot g
  | refuse {moved : Bool} {known left : Known} {cause : Sight → Cause} {spot : Spot} {g : Bool} :
      (∀ s, (cause s).isSyntactic = true) →
      Guarded eof moved known (.refuse cause) true left [] [] spot g
  | faulty {moved : Bool} {known : Known} {spot : Spot} {g : Bool} :
      (∀ rest, known rest → ∃ t ts, rest = t :: ts ∧ t.token.kind = .error) →
      Guarded eof moved known .faulty true (fun _ => True) [] [] spot g
  | under {moved : Bool} {known left : Known} {kind : NodeKind} {body : Form} {spot : Spot}
      {g : Bool} :
      Fits eof known (.node kind body) → Guarded eof moved known body true left [] [] spot g →
      Guarded eof moved known (.node kind body) true left [] [] spot g
  | leadingPoint {moved : Bool} {known left : Known} {spot : Spot} {g : Bool} :
      (∀ growth, Guarded eof moved (fun rest => known rest ∧ Growth.ofPoint.run eof rest = growth)
        (Grammar.growthBody growth) true left [] [] spot g) →
      Guarded eof moved known Grammar.leadingPoint true left [] [] spot g
  | label {moved m : Bool} {known left : Known} {field : Field} {body : Form} {spot : Spot}
      {g : Bool} :
      Guarded eof moved known body m left [] [] spot g →
      Guarded eof moved known (.label field body) m left [] [] spot g
  | enter {moved : Bool} {known : Known} {goal : Goal} {spot : Spot} :
      (goal.spot = .plain → spot = .plain) →
      Guarded eof moved known (.enter goal) goal.moves (fun _ => True) [] [] spot
  | changed {moved : Bool} {known : Known} {scope : Scope} {goal : Goal} {spot : Spot} :
      (goal.spot = .plain → scope.spot = .plain) →
      Guarded eof moved known (.within scope (.enter goal)) goal.moves (fun _ => True) [] [] spot
  | choose {moved m : Bool} {known left : Known} {κ : Type} {look : Setting → Glance κ}
      {next : κ → Form} {spot : Spot} {g : Bool} :
      (∀ k, Guarded eof moved
        (fun rest => known rest ∧ ∃ setting, (look setting).run eof rest = k) (next k) m left
        [] [] spot g) →
      Guarded eof moved known (.choose look next) m left [] [] spot g
  | within {moved m : Bool} {known left : Known} {scope : Scope} {body : Form} {spot : Spot} :
      scope.spot = .plain → Guarded eof moved known body m left [] [] .plain →
      Guarded eof moved known (.within scope body) m left [] [] spot
  | fix {moved m : Bool} {known : Known} {body : Form} {spot : Spot} {g : Bool} :
      Guarded eof false (fun _ => True) body m (fun _ => True) [] [] spot g →
      Guarded eof moved known (.fix body) m (fun _ => True) [] [] spot g
  | again {known : Known} {spot : Spot} {g : Bool} :
      Guarded eof true known .again false (fun _ => True) [] [] spot g
  | growing {moved many : Bool} {known between : Known} {κ : Type} {first : Form}
      {look : Setting → Glance (Option κ)} {kind : κ → NodeKind} {field : κ → Option Field}
      {tail : κ → Form} {spot : Spot} {g : Bool} :
      Guarded eof moved known first true between [] [] spot g →
      Fits eof known (.grow many first look kind field tail) →
      (∀ k, Guarded eof true (fun rest => ∃ setting, (look setting).run eof rest = some k) (tail k)
        many (fun _ => True) [] [] spot g) →
      Guarded eof moved known (.grow many first look kind field tail) true (fun _ => True) [] []
        spot g
  | lead {moved m : Bool} {known between : Known} {κ : Type} {first otherwise : Form}
      {look : Setting → Glance (Option κ)} {kind : κ → NodeKind} {tail : κ → Form} {spot : Spot}
      {g : Bool} :
      Guarded eof moved known first m between [] [] spot g →
      (∀ k, (kind k).isSound = true) →
      (∀ k, Guarded eof moved (fun rest => ∃ setting, (look setting).run eof rest = some k) (tail k)
        true (fun _ => True) [] [] spot g) →
      Guarded eof moved known otherwise true (fun _ => True) [] [] spot g →
      Guarded eof moved known (.lead first look kind tail otherwise) true (fun _ => True) [] [] spot
        g
  | guard {moved : Bool} {known left : Known} {body : Form} {spot : Spot} {g : Bool} :
      (∀ rest, known rest → ∃ t ts, rest = t :: ts ∧ t.token.kind ≠ .closeCurly) →
      Guarded eof moved known body true left [] [] spot g →
      Guarded eof moved known (.guard body) true (fun _ => True) [] [] spot g
  | group {moved : Bool} {known left : Known} {form : Form} {spot : Spot} :
      Groups eof known form → Guarded eof moved known form true left [] [] spot true →
      Guarded eof moved known form true left [] [] spot
  | inside {moved m : Bool} {known left : Known} {form : Form} {a : List Delimiter} {spot : Spot}
      {g : Bool} :
      Guarded eof moved known form m left [] [] spot g →
      Guarded eof moved known form m left a a spot g
  | weaken {moved moved' m m' : Bool} {known known' left left' : Known} {form : Form}
      {a b : List Delimiter} {spot : Spot} {g : Bool} :
      Guarded eof moved known form m left a b spot g → (moved = true → moved' = true) →
      (∀ rest, known' rest → known rest) → (m' = true → m = true) →
      (∀ rest, left rest → left' rest) → Guarded eof moved' known' form m' left' a b spot g

theorem Frames.isFramed {eof : Padded} {known : Known} {kind : NodeKind}
    {body : Form} (frames : Frames eof known (.node kind body)) :
    kind.isFramed = true := by
  cases frames <;> rfl

theorem Frames.not_isOperation {eof : Padded} {known : Known} {kind : NodeKind}
    {body : Form} (frames : Frames eof known (.node kind body)) :
    kind.isOperation = false := by
  cases frames <;> rfl

theorem Fits.ne_error {eof : Padded} {known : Known} {kind : NodeKind} {body : Form}
    (fits : Fits eof known (.node kind body)) :
    kind ≠ .error := by
  cases fits with
  | node sound => exact NodeKind.ne_error sound
  | framed frames =>
    rintro rfl
    cases frames.isFramed
  | prefixed | cast => exact NodeKind.noConfusion

theorem Fits.grown_ne_error {eof : Padded} {known : Known} {many : Bool} {κ : Type} {first : Form}
    {look : Setting → Glance (Option κ)} {kind : κ → NodeKind} {field : κ → Option Field}
    {tail : κ → Form} (fits : Fits eof known (.grow many first look kind field tail)) (k : κ) :
    kind k ≠ .error := by
  cases fits with
  | grow sound => exact NodeKind.ne_error (sound k)
  | framed frames => cases frames
  | expression | namedType => exact Growth.kind_ne_error k

/-- A form that is safe to read wherever it stands in a spot. -/
def Safe (eof : Padded) (moves : Bool) (form : Form) (spot : Spot := .anywhere)
    (inGroup : Bool := false) : Prop :=
  Guarded eof false (fun _ => True) form moves (fun _ => True) [] [] spot inGroup

variable {eof : Padded} {moved m n : Bool} {known between left : Known} {first second body : Form}
  {a b c : List Delimiter} {spot : Spot} {g : Bool}

namespace Guarded

theorem mono {known' : Known} (h : Guarded eof moved known body m left a b spot g)
    (knows : ∀ rest, known' rest → known rest) : Guarded eof moved known' body m left a b spot g :=
  h.weaken id knows id fun _ => id

theorem forget (h : Guarded eof moved known body m left a b spot g) :
    Guarded eof moved known body m (fun _ => True) a b spot g :=
  h.weaken id (fun _ => id) id fun _ _ => trivial

/-- A form that takes a token may stand where none needs to be taken. -/
theorem weak (h : Guarded eof moved known body true left a b spot g) :
    Guarded eof moved known body m left a b spot g :=
  h.weaken id (fun _ => id) (fun _ => rfl) fun _ => id

theorem take {field : Option Field} (ready : known.Ready) :
    Guarded eof moved known (.take field) true known.past a a spot g := by
  refine .takes fun rest knows => ?_
  obtain ⟨t, ts, there, proper⟩ := ready rest knows
  exact ⟨t, ts, there, .proper proper⟩

theorem expect {kind : TokenKind} {field : Option Field} (proper : kind.isProper = true) :
    Guarded eof moved known (.expect kind field) true known.past a a spot g :=
  .expects (.proper proper)

theorem opens (pair : Delimiter) {field : Option Field} :
    Guarded eof moved known (.expect pair.opening field) true known.past a (pair :: a) spot g :=
  .expects (.opens pair)

theorem closes (pair : Delimiter) {field : Option Field} :
    Guarded eof moved known (.expect pair.closing field) true known.past (pair :: a) a spot g :=
  .expects (.closes pair)

theorem node {kind : NodeKind} (sound : kind.isSound = true)
    (h : Guarded eof moved known body true left [] [] spot g) :
    Guarded eof moved known (.node kind body) true left [] [] spot g :=
  .under (.node sound) h

theorem framed {kind : NodeKind} (frames : Frames eof known (.node kind body))
    (h : Guarded eof moved known body true left [] [] spot g) :
    Guarded eof moved known (.node kind body) true left [] [] spot g :=
  .under (.framed frames) h

/-- What comes after a token may go round again. -/
theorem andThen (h : Guarded eof moved known first true between a b spot g)
    (h' : Guarded eof true between second n left b c spot g) :
    Guarded eof moved known (first ++ second) true left a c spot g := by
  refine (Guarded.seq h (n := n) ?_).weaken id (fun _ => id) (fun _ => rfl) fun _ => id
  rw [Bool.or_true]
  exact h'

theorem opt {allowed : Sight → Bool}
    (h : Guarded eof moved (fun rest => allowed (ahead eof rest 0).sight = true) body m
      (fun _ => True) [] [] spot g) :
    Guarded eof moved known (opt allowed body) false (fun _ => True) [] [] spot g := by
  refine .choose fun s => ?_
  split
  · next holds =>
    refine h.weaken id ?_ (fun no => nomatch no) fun _ => id
    rintro rest ⟨-, _, seen⟩
    change (ahead eof rest 0).sight = s at seen
    rw [seen, holds]
  · exact Guarded.empty.forget

/-- What stands between the two of a pair, behind something else that the rule takes. -/
theorem enclosed (pair : Delimiter) {field field' : Option Field}
    (h : Guarded eof moved known first true between [] [] spot g)
    (h' : Guarded eof true (fun _ => True) body m left [] [] spot g) :
    Guarded eof moved known (first ++ .expect pair.opening field ++ body
      ++ .expect pair.closing field') true (fun _ => True) [] [] spot g :=
  (((h.andThen (.opens pair)).forget.andThen h'.inside).andThen (.closes pair)).forget

end Guarded

namespace Safe

theorem guarded (h : Safe eof m body spot g) :
    Guarded eof moved known body m (fun _ => True) [] [] spot g :=
  h.weaken (fun no => nomatch no) (fun _ _ => trivial) id fun _ => id

theorem weak (h : Safe eof true body spot g) : Safe eof m body spot g := Guarded.weak h

theorem seq (h : Safe eof m first spot g) (h' : Safe eof n second spot g) :
    Safe eof (m || n) (first ++ second) spot g :=
  Guarded.seq h h'.guarded

theorem empty : Safe eof false .empty spot g := Guarded.empty

theorem refuse {cause : Sight → Cause} (syntactic : ∀ s, (cause s).isSyntactic = true) :
    Safe eof true (.refuse cause) spot g := Guarded.refuse syntactic

theorem enter (goal : Goal) (stands : goal.spot = .plain → spot = .plain) :
    Safe eof goal.moves (.enter goal) spot := Guarded.enter stands

theorem expect {kind : TokenKind} {field : Option Field} (proper : kind.isProper = true) :
    Safe eof true (.expect kind field) spot g := (Guarded.expect proper).forget

theorem node {kind : NodeKind} (sound : kind.isSound = true) (h : Safe eof true body spot g) :
    Safe eof true (.node kind body) spot g := Guarded.node sound h

theorem label {field : Field} (h : Safe eof m body spot g) :
    Safe eof m (.label field body) spot g := Guarded.label h

theorem within {scope : Scope} (h : Safe eof m body .plain) (plain : scope.spot = .plain) :
    Safe eof m (.within scope body) spot :=
  Guarded.within plain h

theorem choose {κ : Type} {look : Setting → Glance κ} {next : κ → Form}
    (h : ∀ k, Guarded eof false (fun rest => ∃ setting, (look setting).run eof rest = k) (next k) m
      (fun _ => True) [] [] spot g) : Safe eof m (.choose look next) spot g :=
  Guarded.choose fun k => (h k).mono fun _ => And.right

theorem onSight {next : Sight → Form}
    (h : ∀ s, Guarded eof false (.seen eof s) (next s) m (fun _ => True) [] [] spot g) :
    Safe eof m (onSight next) spot g :=
  choose fun s => (h s).mono fun _ ⟨_, seen⟩ => seen

theorem settled {conflict : Conflict} {next : Winner → Form}
    (h : ∀ w, Guarded eof false (fun rest => ∃ inside, (conflict.decide inside).run eof rest = w)
      (next w) m (fun _ => True) [] [] spot g) : Safe eof m (settled conflict next) spot g :=
  choose fun w => (h w).mono fun _ ⟨setting, won⟩ => ⟨setting.inParameters, won⟩

theorem ifelse {look : Glance Bool} {yes no : Form}
    (h : Guarded eof false (fun rest => look.run eof rest = true) yes m (fun _ => True) [] [] spot
      g)
    (h' : Guarded eof false (fun rest => look.run eof rest = false) no m (fun _ => True) [] []
      spot g) :
    Safe eof m (ifelse look yes no) spot g :=
  choose fun holds =>
    match holds with
    | true => h.mono fun _ ⟨_, seen⟩ => seen
    | false => h'.mono fun _ ⟨_, seen⟩ => seen

theorem opt {allowed : Sight → Bool}
    (h : Guarded eof false (fun rest => allowed (ahead eof rest 0).sight = true) body m
      (fun _ => True) [] [] spot g) : Safe eof false (opt allowed body) spot g := Guarded.opt h

theorem unclosed {close : TokenKind} (h : Safe eof m body spot g) :
    Safe eof false (unclosed close body) spot g :=
  opt h.guarded

/-- What stands between the two of a pair. -/
theorem enclosed (pair : Delimiter) {field field' : Option Field} (h : Safe eof m body spot g) :
    Safe eof true (.expect pair.opening field ++ body ++ .expect pair.closing field') spot g :=
  (((Guarded.opens pair).andThen (.inside h.guarded)).andThen (.closes pair)).forget

/-- Each round of a loop takes a token before it goes round again. -/
theorem many {more : Glance Bool}
    (h : Guarded eof false (fun rest => more.run eof rest = true) body true (fun _ => True) [] []
      spot g) :
    Safe eof false (many more body) spot g :=
  Guarded.fix (ifelse (h.andThen .again).weak empty.guarded)

end Safe

section Ready

variable (isEnd : eof.token.kind = .eof)
include isEnd

theorem ready_of_kind (h : ∀ rest, known rest → (ahead eof rest 0).token.kind.isProper = true) :
    known.Ready := by
  intro rest holds
  have proper := h rest holds
  cases rest with
  | nil => exact absurd isEnd (TokenKind.ne_eof proper)
  | cons t ts => exact ⟨t, ts, rfl, proper⟩

/-- A token of a kind that may be taken in the spot is there to be taken. -/
theorem takes_of_kind {field : Option Field} {kind : TokenKind} (takes : Takes g a kind b)
    (h : ∀ rest, known rest → (ahead eof rest 0).token.kind = kind) :
    Guarded eof moved known (.take field) true known.past a b spot g := by
  refine .takes fun rest holds => ?_
  have seen := h rest holds
  cases rest with
  | nil => exact absurd (seen.symm.trans isEnd) takes.ne_eof
  | cons t ts => exact ⟨t, ts, rfl, seen ▸ takes⟩

theorem take_of_kind {field : Option Field} (kind : TokenKind) (proper : kind.isProper = true)
    (h : ∀ rest, known rest → (ahead eof rest 0).token.kind = kind) :
    Guarded eof moved known (.take field) true known.past a a spot g :=
  takes_of_kind isEnd (.proper proper) h

theorem open_of_kind {field : Option Field} (pair : Delimiter)
    (h : ∀ rest, known rest → (ahead eof rest 0).token.kind = pair.opening) :
    Guarded eof moved known (.take field) true known.past a (pair :: a) spot g :=
  takes_of_kind isEnd (.opens pair) h

theorem ready_of_seen {s : Sight} (proper : s.kind.isProper = true) : (Known.seen eof s).Ready := by
  refine ready_of_kind isEnd fun rest seen => ?_
  rw [← Padded.sight_kind, seen]
  exact proper

theorem take_of_seen {field : Option Field} {s : Sight} (proper : s.kind.isProper = true) :
    Guarded eof moved (.seen eof s) (.take field) true (Known.seen eof s).past a a spot g :=
  .take (ready_of_seen isEnd proper)

theorem open_of_seen {field : Option Field} {s : Sight} (pair : Delimiter)
    (kind : s.kind = pair.opening) : Guarded eof moved (.seen eof s) (.take field) true
      (Known.seen eof s).past a (pair :: a) spot g := by
  refine open_of_kind isEnd pair fun rest seen => ?_
  rw [← Padded.sight_kind, seen, kind]

/-- A form may fail where a token is left, unless that token closes a brace around the form. -/
theorem guard_of_kind (h : Safe eof true body spot g)
    (kinds : ∀ rest, known rest → (ahead eof rest 0).token.kind ≠ .eof
      ∧ (ahead eof rest 0).token.kind ≠ .closeCurly) :
    Guarded eof moved known (.guard body) true (fun _ => True) [] [] spot g := by
  refine .guard (fun rest holds => ?_) h.guarded
  obtain ⟨ne_eof, ne_close⟩ := kinds rest holds
  cases rest with
  | nil => exact absurd isEnd ne_eof
  | cons t ts => exact ⟨t, ts, rfl, ne_close⟩

theorem optToken_safe {kind : TokenKind} (proper : kind.isProper = true) :
    Safe eof false (optToken kind) spot g :=
  .opt (take_of_kind isEnd kind proper fun _ seen => of_decide_eq_true seen).forget

/-- A comma, and what the form takes after it. -/
theorem comma_andThen (h : Safe eof m body spot g) :
    Guarded eof false (fun rest => (Glance.isNext .comma).run eof rest = true) (any ++ body) true
      (fun _ => True) [] [] spot g :=
  (take_of_kind isEnd .comma rfl fun _ seen => of_decide_eq_true seen).andThen h.guarded

theorem separated_safe (h : Safe eof true body spot g) : Safe eof true (separated body) spot g :=
  h.seq (.many (comma_andThen isEnd h))

theorem someItems_safe {close : TokenKind} (h : Safe eof true body spot g) :
    Safe eof true (someItems close body) spot g :=
  h.seq (.many (comma_andThen isEnd h.unclosed))

theorem items_safe {close : TokenKind} (h : Safe eof true body spot g) :
    Safe eof false (items close body) spot g :=
  .unclosed (someItems_safe isEnd h)

end Ready

end Form

end JaiTree
