import Mathlib.Computability.Language
import Mathlib.Order.CompletePartialOrder
import JaiTree.Proofs.Tree.Boundaries
import JaiTree.Proofs.Tree.Braced

/-!
Productions: what the children of a node spell when the trivia among them is left out, as a language
over children, and the rules by which forms spell words of such languages. Main statements:
`Form.Spells.seq`, `Form.Spells.under`, `Form.Spells.grow`.
-/

namespace JaiTree

open Computability

namespace TokenKind

/-- Whether tokens of the kind are neither trivia nor the end. -/
def isSolid (kind : TokenKind) : Bool := kind != .eof && !kind.isTrivia

variable {kind : TokenKind}

theorem ne_eof_of_isSolid (solid : kind.isSolid = true) : kind ≠ .eof := by
  rintro rfl
  cases solid

theorem not_isTrivia_of_isSolid (solid : kind.isSolid = true) : kind.isTrivia = false := by
  rw [isSolid, Bool.and_eq_true, Bool.not_eq_true'] at solid
  exact solid.2

end TokenKind

/-- Whether expressions are nodes of the kind. An error node stands for a token that is wrong. -/
def NodeKind.isExpression : NodeKind → Bool
  | .identifier | .numberLiteral | .stringLiteral | .booleanLiteral | .nullLiteral
  | .uninitializedLiteral | .compositeLiteral | .arrayLiteral | .memberAccess | .arrayAccess
  | .functionCall | .unaryExpression | .castExpression | .binaryExpression
  | .parenthesizedExpression | .ifStatement | .directiveExpression | .note | .arrayType
  | .polymorphicType | .procedureType | .error => true
  | _ => false

/-- The children but for the trivia among them. -/
def Child.significant (children : List Child) : List Child := children.filter fun c => !c.isTrivia

namespace Production

/-- A token that fits, in a part or in none. -/
def leaf (field : Option Field) (fits : Token → Prop) : Language Child :=
  {children | ∃ t, fits t ∧ children = [.leaf field t]}

/-- A node of a kind that fits, in a part or in none. -/
def node (field : Option Field) (fits : NodeKind → Prop) : Language Child :=
  {children | ∃ n : Node, fits n.kind ∧ children = [.node field n]}

/-- A token of the kind. -/
def token (kind : TokenKind) : Language Child := leaf none fun t => t.kind = kind

/-- A keyword. -/
def word (keyword : Keyword) : Language Child := leaf none fun t => t.keyword? = some keyword

/-- A node of the kind in no part. -/
def inner (kind : NodeKind) : Language Child := node none (· = kind)

/-- Any node in no part. -/
def one : Language Child := node none fun _ => True

theorem node_le {field : Option Field} {fits fits' : NodeKind → Prop}
    (le : ∀ kind, fits kind → fits' kind) : node field fits ≤ node field fits' :=
  fun _ ⟨n, kind, single⟩ => ⟨n, le n.kind kind, single⟩

theorem node_le_one (fits : NodeKind → Prop) : node none fits ≤ one := node_le fun _ _ => trivial

/-- A node in no part, of a kind that expressions have. -/
def element : Language Child := node none fun kind => kind.isExpression = true

/-- Any node in the part. -/
def part (field : Field) : Language Child := node (some field) fun _ => True

/-- The item or nothing. -/
def optional (item : Language Child) : Language Child := 1 + item

theorem le_optional (item : Language Child) : item ≤ optional item := le_add_self

theorem le_optional_mul (item made : Language Child) : made ≤ optional item * made := by
  have none : (1 : Language Child) ≤ optional item := le_self_add
  have alone := mul_le_mul_left none made
  rwa [one_mul] at alone

/-- One or more items between commas. -/
def separated (item : Language Child) : Language Child := item * (token .comma * item)∗

/-- Items between commas, the last of which a comma may come after. -/
def items (item : Language Child) : Language Child :=
  optional (separated item * optional (token .comma))

/-- An operator, in the part of one. -/
def operator (fits : TokenKind → Prop) : Language Child :=
  leaf (some .operator) fun t => fits t.kind

/-- Whether tokens of the kind are operators between two operands. -/
def Joins (kind : TokenKind) : Prop :=
  ∃ power, kind.power? = some power ∧ power.rank < Power.unary.rank

/-- The operators that stand before their operands. -/
def prefixes : List TokenKind := [.dash, .not, .tilde, .star, .ampersand, .shiftLeft]

/-- The values of a declaration. -/
def values : Language Child := separated (part .value)

/-- What stands behind the names of a declaration, up to the semicolon. -/
def declared : Language Child :=
  token .colonColon * values
    + token .colon * optional (part .type)
      * optional ((token .assignment + token .colon) * values)

/-- What stands behind the condition of an if. -/
def branches : Language Child :=
  operator (· = .equals) * node (some .consequence) (· = .block)
    + optional (word .thenWord) * part .consequence
      * optional (word .elseWord * part .alternative)

end Production

open Production

/-- What the children of a node of the kind spell. -/
def NodeKind.production : NodeKind → Language Child
  | .binaryExpression => part .left * operator Joins * part .right
  | .unaryExpression => operator (· ∈ prefixes) * part .operand
  | .memberAccess => optional (part .object) * token .dot * part .member
  | .arrayAccess => part .array * token .openBracket * part .index * token .closeBracket
  | .functionCall => part .function * part .arguments
  | .argumentList => token .openParen * items (inner .argument) * token .closeParen
  | .compositeLiteral =>
    optional (part .type) * token .dot * token .openCurly * items (inner .compositeElement)
      * token .closeCurly
  | .arrayLiteral =>
    optional (part .type) * token .dot * token .openBracket * items element * token .closeBracket
  | .rangeExpression => part .start * token .dotDot * part .finish
  | .assignment =>
    separated (part .left) * operator (·.isAssignment) * separated (part .right)
      * optional (token .semicolon)
  | .declaration =>
    (inner .note)∗ * separated (part .name) * declared * optional (token .semicolon)
  | .forStatement =>
    word .forWord * (token .star + token .less)∗
      * optional (part .iterator * optional (token .comma * part .iterator) * token .colon)
      * part .range * part .body
  | .ifStatement => (word .ifWord + word .ifxWord) * part .condition * branches
  | _ => ⊤

/-- The children of the node spell what those of its kind do. -/
def Node.Produced (n : Node) : Prop := Child.significant n.children ∈ n.kind.production

namespace Child

theorem significant_append (a b : List Child) :
    significant (a ++ b) = significant a ++ significant b := List.filter_append ..

theorem significant_ofPadded {field : Option Field} {padded : Padded}
    (folded : ∀ t ∈ padded.leading, t.isTrivia = true) (seen : padded.token.isTrivia = false) :
    significant (ofPadded field padded) = [.leaf field padded.token] := by
  have trivia : significant (padded.leading.map (.leaf none)) = [] := by
    rw [significant, List.filter_eq_nil_iff]
    intro c member
    obtain ⟨t, among, rfl⟩ := List.mem_map.mp member
    simp [isTrivia, folded t among]
  rw [ofPadded, significant_append, trivia, List.nil_append]
  simp [significant, isTrivia, seen]

theorem significant_relabel (field : Field) (children : List Child) :
    significant (children.map (relabel field)) = (significant children).map (relabel field) := by
  have same (c : Child) : (relabel field c).isTrivia = c.isTrivia := by cases c <;> rfl
  rw [significant, significant, List.filter_map]
  congr 1
  exact List.filter_congr fun c _ => by simp [same]

end Child

theorem Folded.suffix {rest after : List Padded} (folded : Folded rest) (inside : after <:+ rest) :
    Folded after := fun p member => folded p (inside.subset member)

/-- The children spell a word of the language, and all nodes among them and below are made as their
kinds say. Nothing but trivia stands before what follows them. -/
structure Spelled (made : Language Child) (children : List Child) (after : List Padded) : Prop where
  word : Child.significant children ∈ made
  nodes : ∀ n ∈ descendantsOf children, n.Produced
  folded : Folded after

/-- What is read spells words of the language. -/
def Reading.Spells (reading : Reading) (made : Language Child) : Prop :=
  ∀ setting rest, Folded rest → (reading setting rest).Yields (Spelled made)

/-- What a rule that counts as a level spells. -/
def Goal.made : Goal → Language Child
  | .expression _ => element
  | .type | .statement => one
  | .blockItems => ⊤

/-- The rules with room for some levels spell what they should, and make nodes as their kinds
say. -/
structure Grammar.LevelsSpell (eof : Padded) (room : Nat) : Prop where
  isEnd : eof.token.kind = .eof
  levels : ∀ goal, (level eof room goal).Spells goal.made

/-- Where something is known of the tokens ahead, the form spells words of the language. -/
def Form.Spells (eof : Padded) (known : Known) (form : Form) (made : Language Child) : Prop :=
  ∀ room, Grammar.LevelsSpell eof room → ∀ self : Reading, self.Spells ⊤ →
    ∀ setting rest, Folded rest → known rest →
      (form.read eof (Grammar.level eof room) self setting rest).Yields (Spelled made)

section

variable {made made' : Language Child} {children more : List Child} {rest after : List Padded}

namespace Spelled

theorem mono (h : Spelled made children rest) (le : made ≤ made') : Spelled made' children rest :=
  ⟨le h.word, h.nodes, h.folded⟩

theorem nil (folded : Folded rest) : Spelled 1 [] rest := ⟨rfl, nofun, folded⟩

theorem append (h : Spelled made children rest) (h' : Spelled made' more after) :
    Spelled (made * made') (children ++ more) after where
  word := by
    rw [Child.significant_append]
    exact Language.append_mem_mul h.word h'.word
  nodes := by
    rw [descendantsOf_append]
    exact List.forall_mem_append.mpr ⟨h.nodes, h'.nodes⟩
  folded := h'.folded

/-- Children under a node of a kind that is made as they are. -/
theorem under {kind : NodeKind} (h : Spelled made children rest) (le : made ≤ kind.production) :
    Spelled (inner kind) (Child.under kind children) rest where
  word := ⟨_, rfl, rfl⟩
  nodes := by
    rw [descendantsOf_under]
    exact List.forall_mem_cons.mpr ⟨le h.word, h.nodes⟩
  folded := h.folded

/-- An error node over some tokens. -/
theorem error {n : Node} (isError : n.kind = .error) (alone : descendantsOf [.node none n] = [n])
    (folded : Folded rest) : Spelled (inner .error) [.node none n] rest where
  word := ⟨n, isError, rfl⟩
  nodes := by
    rw [alone]
    intro m member
    rw [List.mem_singleton.mp member, Node.Produced, isError]
    trivial
  folded := folded

/-- A node in no part, put into one or left in none. -/
theorem labelled {field : Option Field} {fits : NodeKind → Prop}
    (h : Spelled (node none fits) children rest) :
    Spelled (node field fits) (Child.labelled field children) rest := by
  cases field with
  | none => exact h
  | some field =>
    obtain ⟨n, kind, parts⟩ := h.word
    refine ⟨?_, ?_, h.folded⟩
    · rw [Child.labelled, Child.significant_relabel, parts]
      exact ⟨n, kind, rfl⟩
    · rw [Child.labelled, descendantsOf_relabel]
      exact h.nodes

/-- The next token and the trivia before it. -/
theorem taken {field : Option Field} {t : Padded} {fits : Token → Prop}
    (folded : Folded (t :: rest)) (seen : t.token.isTrivia = false) (fit : fits t.token) :
    Spelled (leaf field fits) (Child.ofPadded field t) rest where
  word := by
    rw [Child.significant_ofPadded (folded t List.mem_cons_self) seen]
    exact ⟨t.token, fit, rfl⟩
  nodes := by
    rw [descendantsOf_ofPadded]
    exact nofun
  folded := folded.suffix (List.suffix_cons t rest)

end Spelled

theorem Reading.Spells.mono {reading : Reading} (h : reading.Spells made) (le : made ≤ made') :
    reading.Spells made' := fun setting rest folded =>
  (h setting rest folded).imp fun _ _ spelled => spelled.mono le

/-- What each turn of a loop spells when the turns after it do, the loop does. -/
theorem Reading.unrolled_spells {step : Reading → Reading} (nothing : [] ∈ made)
    (turn : ∀ self : Reading, self.Spells made → (step self).Spells made) (n : Nat) :
    (Reading.unrolled step n).Spells made := by
  induction n with
  | zero =>
    exact fun setting rest folded => Outcome.yields_done.mpr ⟨nothing, nofun, folded⟩
  | succ n ih => exact turn _ ih

end

namespace Form.Spells

variable {eof : Padded} {known known' : Known} {form first second body item yes no : Form}
  {made made' : Language Child} {field : Field}

theorem mono (h : Spells eof known form made) (le : made ≤ made') : Spells eof known form made' :=
  fun room levels self turns setting rest folded knows =>
    (h room levels self turns setting rest folded knows).imp fun _ _ spelled => spelled.mono le

theorem top (h : Spells eof known form made) : Spells eof known form ⊤ := h.mono le_top

theorem weaken (h : Spells eof known' form made) (knows : ∀ rest, known rest → known' rest) :
    Spells eof known form made :=
  fun room levels self turns setting rest folded holds =>
    h room levels self turns setting rest folded (knows rest holds)

/-- Where no loop is around the form. -/
theorem alone {room : Nat} {setting : Setting} {rest : List Padded} (h : Spells eof known form made)
    (levels : Grammar.LevelsSpell eof room) (folded : Folded rest) (knows : known rest) :
    (Grammar.read eof room form setting rest).Yields (Spelled made) := by
  have nothing : Grammar.nothing.Spells ⊤ := fun _ _ folded =>
    Outcome.yields_done.mpr ⟨trivial, nofun, folded⟩
  exact h room levels _ nothing setting rest folded knows

theorem empty : Spells eof known .empty 1 :=
  fun _ _ _ _ _ _ folded _ => Outcome.yields_done.mpr (.nil folded)

theorem seq (h : Spells eof known first made) (h' : Spells eof (fun _ => True) second made') :
    Spells eof known (first ++ second) (made * made') := by
  intro room levels self turns setting rest folded knows
  refine (h room levels self turns setting rest folded knows).andThen fun children after front => ?_
  exact (h' room levels self turns setting after front.folded trivial).imp fun _ _ tail =>
    front.append tail

theorem refuse {cause : Sight → Cause} : Spells eof known (.refuse cause) made :=
  fun _ _ _ _ _ _ _ _ => Outcome.yields_failed

/-- The next token, where it is known to fit. -/
theorem take {field : Option Field} {fits : Token → Prop}
    (fit : ∀ rest, known rest → (ahead eof rest 0).token.kind ≠ .eof
      ∧ (ahead eof rest 0).token.isTrivia = false ∧ fits (ahead eof rest 0).token) :
    Spells eof known (.take field) (leaf field fits) := by
  intro room levels self turns setting rest folded knows
  obtain ⟨ne_eof, seen, fit⟩ := fit rest knows
  cases rest with
  | nil => exact absurd levels.isEnd ne_eof
  | cons t ts => exact Outcome.yields_done.mpr (.taken folded seen fit)

/-- The next token, whatever it is. -/
theorem anything {field : Option Field} : Spells eof known (.take field) ⊤ := by
  intro room levels self turns setting rest folded knows
  refine Outcome.yields_done.mpr ⟨trivial, ?_, folded.suffix (Reading.next_suffix eof rest)⟩
  rw [descendantsOf_ofPadded]
  exact nofun

theorem expect {kind : TokenKind} {field : Option Field} (solid : kind.isSolid = true) :
    Spells eof known (.expect kind field) (leaf field fun t => t.kind = kind) := by
  intro room levels self turns setting rest folded knows
  rw [read]
  split
  · next found =>
    have fit (rest : List Padded) (same : (ahead eof rest 0).token.kind = kind) :
        (ahead eof rest 0).token.kind ≠ .eof ∧ (ahead eof rest 0).token.isTrivia = false
          ∧ (ahead eof rest 0).token.kind = kind := by
      rw [Token.isTrivia, same]
      exact ⟨TokenKind.ne_eof_of_isSolid solid, TokenKind.not_isTrivia_of_isSolid solid, rfl⟩
    exact take fit room levels self turns setting rest folded found
  · exact Outcome.yields_failed

theorem faulty : Spells eof known .faulty (inner .error) := by
  intro room levels self turns setting rest folded knows
  have next := folded.suffix (Reading.next_suffix eof rest)
  exact Outcome.yields_done.mpr (.error rfl (descendantsOf_faulty _) next)

/-- A node over what spells a word of the production of its kind. -/
theorem under {kind : NodeKind} (h : Spells eof known body made) (le : made ≤ kind.production) :
    Spells eof known (.node kind body) (inner kind) := by
  intro room levels self turns setting rest folded knows
  rw [read, Outcome.yields_map]
  exact (h room levels self turns setting rest folded knows).imp fun _ _ inside => inside.under le

theorem label {fits : NodeKind → Prop} (h : Spells eof known body (Production.node none fits)) :
    Spells eof known (.label field body) (Production.node (some field) fits) := by
  intro room levels self turns setting rest folded knows
  rw [read, Outcome.yields_map]
  exact (h room levels self turns setting rest folded knows).imp fun _ _ inside => inside.labelled

/-- A node of whatever kind. -/
theorem one {fits : NodeKind → Prop} (h : Spells eof known form (Production.node none fits)) :
    Spells eof known form Production.one := h.mono (node_le_one fits)

/-- A node of a kind that expressions have. -/
theorem element {kind : NodeKind} (h : Spells eof known form (inner kind))
    (expression : kind.isExpression = true) : Spells eof known form Production.element :=
  h.mono <| node_le <| by
    rintro _ rfl
    exact expression

theorem enter {goal : Goal} : Spells eof known (.enter goal) goal.made :=
  fun _ levels _ _ setting rest folded _ => levels.levels goal setting rest folded

theorem statement : Spells eof known Grammar.statement Production.one := enter

theorem choose {κ : Type} {look : Setting → Glance κ} {next : κ → Form}
    (h : ∀ k, Spells eof (fun rest => known rest ∧ ∃ setting, (look setting).run eof rest = k)
      (next k) made) : Spells eof known (.choose look next) made :=
  fun room levels self turns setting rest folded knows =>
    h _ room levels self turns setting rest folded ⟨knows, setting, rfl⟩

theorem onSight {next : Sight → Form}
    (h : ∀ s, Spells eof (fun rest => known rest ∧ (ahead eof rest 0).sight = s) (next s) made) :
    Spells eof known (onSight next) made :=
  choose fun s => (h s).weaken fun _ ⟨knows, _, seen⟩ => ⟨knows, seen⟩

theorem settled {conflict : Conflict} {next : Winner → Form}
    (h : ∀ w, Spells eof known (next w) made) : Spells eof known (settled conflict next) made :=
  choose fun w => (h w).weaken fun _ holds => holds.1

theorem ifelse {look : Glance Bool}
    (h : Spells eof (fun rest => known rest ∧ look.run eof rest = true) yes made)
    (h' : Spells eof known no made) : Spells eof known (ifelse look yes no) made :=
  choose fun holds => by
    cases holds with
    | true => exact h.weaken fun _ ⟨knows, _, seen⟩ => ⟨knows, seen⟩
    | false => exact h'.weaken fun _ holds => holds.1

theorem opt {allowed : Sight → Bool}
    (h : Spells eof (fun rest => known rest ∧ allowed (ahead eof rest 0).sight = true) body made) :
    Spells eof known (opt allowed body) (optional made) :=
  onSight fun s => by
    split
    · next fits =>
      refine (h.weaken fun rest ⟨knows, seen⟩ => ⟨knows, seen ▸ fits⟩).mono ?_
      exact le_add_self
    · refine empty.mono ?_
      exact le_self_add

theorem within {scope : Scope} (h : Spells eof known body made) :
    Spells eof known (.within scope body) made :=
  fun room levels self turns setting rest folded knows =>
    h room levels self turns (scope.change setting) rest folded knows

theorem again : Spells eof known .again ⊤ :=
  fun _ _ _ turns setting rest folded _ => turns setting rest folded

theorem fix (h : Spells eof (fun _ => True) body ⊤) : Spells eof known (.fix body) ⊤ := by
  intro room levels self turns setting rest folded knows
  refine @Reading.unrolled_spells ⊤ _ trivial (fun self turns setting rest folded => ?_) _ setting
    rest folded
  exact h room levels self turns setting rest folded trivial

theorem many {more : Glance Bool}
    (h : Spells eof (fun rest => more.run eof rest = true) body made) :
    Spells eof known (many more body) made∗ := by
  intro room levels self turns setting rest folded knows
  refine Reading.unrolled_spells (Language.nil_mem_kstar made)
    (fun self later setting rest folded => ?_) _ setting rest folded
  rw [Form.ifelse, read]
  cases goes : more.run eof rest with
  | false =>
    exact Outcome.yields_done.mpr ⟨Language.nil_mem_kstar made, List.forall_mem_nil _, folded⟩
  | true =>
    refine (h room levels self (later.mono le_top) setting rest folded goes).andThen
      fun children after front => ?_
    exact (later setting after front.folded).imp fun _ _ tail =>
      (front.append tail).mono mul_kstar_le_kstar

theorem comma {field : Option Field} :
    Spells eof (fun rest => (Glance.isNext .comma).run eof rest = true) (.take field)
      (leaf field fun t => t.kind = .comma) :=
  take fun rest comma => by
    have kind : (ahead eof rest 0).token.kind = .comma := of_decide_eq_true comma
    rw [Token.isTrivia, kind]
    exact ⟨by decide, rfl, rfl⟩

theorem separated (h : ∀ known, Spells eof known item made) :
    Spells eof known (separated item) (Production.separated made) :=
  (h known).seq (many (comma.seq (h _)))

/-- A comma and an item, or a comma before the closing token. -/
theorem nextItem {close : TokenKind} (h : ∀ known, Spells eof known item made) {room : Nat}
    (levels : Grammar.LevelsSpell eof room) {self : Reading} (turns : self.Spells ⊤)
    {setting : Setting} {rest : List Padded} (folded : Folded rest)
    (next : (Glance.isNext .comma).run eof rest = true) :
    ((any ++ unclosed close item).read eof (Grammar.level eof room) self setting rest).Yields
      fun children after => Spelled (Production.token .comma * made) children after
        ∨ Spelled (Production.token .comma) children after
          ∧ (ahead eof after 0).token.kind = close := by
  have front := @comma eof none room levels self turns setting rest folded next
  refine front.andThen fun children after front => ?_
  rw [unclosed, Form.opt, Form.onSight, read, Glance.run_tokenAt]
  split
  · exact (h (fun _ => True) room levels self turns setting after front.folded trivial).imp
      fun _ _ tail => .inl (front.append tail)
  · next closed =>
    have closed : (ahead eof after 0).token.kind = close := by simpa using closed
    refine Outcome.yields_done.mpr (.inr ⟨?_, closed⟩)
    rw [List.append_nil]
    exact front

/-- Items up to a closing token, each behind a comma. -/
theorem moreItems {close : TokenKind} (ne_comma : close ≠ .comma)
    (h : ∀ known, Spells eof known item made) :
    Spells eof known (Form.many (Glance.isNext .comma) (any ++ unclosed close item))
      ((Production.token .comma * made)∗ * optional (Production.token .comma)) := by
  intro room levels self turns setting rest folded knows
  -- Right before the closing token nothing more is taken, so only the last comma stands alone.
  suffices rounds : ∀ n setting rest, Folded rest →
      (Reading.unrolled (fun self => (Form.ifelse (Glance.isNext .comma)
        ((any ++ unclosed close item) ++ .again) .empty).read eof (Grammar.level eof room) self) n
        setting rest).Yields fun children after =>
          Spelled ((Production.token .comma * made)∗ * optional (Production.token .comma)) children
            after
          ∧ ((ahead eof rest 0).token.kind = close → children = []) from
    (rounds _ setting rest folded).imp fun _ _ made => made.1
  have none : [] ∈ (Production.token .comma * made)∗ * optional (Production.token .comma) :=
    Language.append_mem_mul (Language.nil_mem_kstar _) (.inl rfl)
  intro n
  induction n with
  | zero =>
    exact fun setting rest folded => Outcome.yields_done.mpr ⟨⟨none, nofun, folded⟩, fun _ => rfl⟩
  | succ n ih =>
    intro setting rest folded
    rw [Reading.unrolled, Form.ifelse, read]
    cases next : (Glance.isNext .comma).run eof rest with
    | false => exact Outcome.yields_done.mpr ⟨⟨none, nofun, folded⟩, fun _ => rfl⟩
    | true =>
      have comma : (ahead eof rest 0).token.kind = .comma := of_decide_eq_true next
      have turns := fun setting rest folded => (ih setting rest folded).imp
        fun _ _ later => later.1.mono le_top
      refine (nextItem h levels turns folded next).andThen fun children after front => ?_
      rcases front with front | ⟨front, closed⟩
      · refine (ih setting after front.folded).imp fun more last tail => ⟨?_, fun closed => ?_⟩
        · refine (front.append tail.1).mono ?_
          rw [← mul_assoc]
          exact mul_le_mul_left mul_kstar_le_kstar _
        · exact absurd (closed.symm.trans comma) ne_comma
      · refine (ih setting after front.folded).imp fun more last tail => ⟨?_, fun closed => ?_⟩
        · rw [tail.2 closed, List.append_nil]
          exact ⟨Language.append_mem_mul (Language.nil_mem_kstar _) (.inr front.word), front.nodes,
            tail.1.folded⟩
        · exact absurd (closed.symm.trans comma) ne_comma

theorem items {close : TokenKind} (ne_comma : close ≠ .comma)
    (h : ∀ known, Spells eof known item made) :
    Spells eof known (items close item) (Production.items made) := by
  refine opt ?_
  rw [Production.separated, mul_assoc]
  exact (h _).seq (moreItems ne_comma h)

theorem guard (h : Spells eof known body ⊤) : Spells eof known (.guard body) ⊤ := by
  intro room levels self turns setting rest folded knows
  have inside := h room levels self turns setting rest folded knows
  rw [read]
  generalize body.read eof (Grammar.level eof room) self setting rest = outcome at inside ⊢
  cases outcome with
  | done children after => exact inside
  | failed failure _ =>
    have next := folded.suffix (Recovery.region_suffix 0 true rest)
    exact Outcome.yields_done.mpr
      ((Spelled.error rfl (descendantsOf_region failure _) next).mono le_top)

/-- What grows spells, at each step, a word of the production of the node that it becomes. -/
theorem grow {many : Bool} {κ : Type} {look : Setting → Glance (Option κ)} {kind : κ → NodeKind}
    {field : κ → Option Field} {tail : κ → Form} {made : κ → Language Child}
    {fits : NodeKind → Prop} (head : Spells eof known first (Production.node none fits))
    (tails : ∀ k, Spells eof (fun rest => ∃ setting, (look setting).run eof rest = some k) (tail k)
      (made k))
    (le : ∀ k, (∃ setting rest, (look setting).run eof rest = some k) →
      Production.node (field k) (fun _ => True) * made k ≤ (kind k).production)
    (kinds : ∀ k, fits (kind k)) :
    Spells eof known (.grow many first look kind field tail) (Production.node none fits) := by
  intro room levels self turns setting rest folded knows
  refine grow_yields (head room levels self turns setting rest folded knows)
    fun k children rest front found => ?_
  refine (tails k room levels self turns setting rest front.folded ⟨setting, found⟩).imp
    fun more after tail => ?_
  have whole : Spelled (Production.node (field k) fun _ => True)
      (Child.labelled (field k) children) rest := front.labelled.mono (node_le fun _ _ => trivial)
  refine ((whole.append tail).under (le k ⟨setting, rest, found⟩)).mono (node_le ?_)
  rintro _ rfl
  exact kinds k

theorem lead {κ : Type} {look : Setting → Glance (Option κ)} {kind : κ → NodeKind}
    {tail : κ → Form} {made : Language Child} {made' : κ → Language Child}
    (head : Spells eof known first made)
    (tails : ∀ k, Spells eof (fun _ => True) (tail k) (made' k))
    (le : ∀ k, made * made' k ≤ (kind k).production) (h : Spells eof known no Production.one) :
    Spells eof known (.lead first look kind tail no) Production.one := by
  intro room levels self turns setting rest folded knows
  refine lead_yields (head room levels self turns setting rest folded knows)
    (fun k children after front found => ?_) (h room levels self turns setting rest folded knows)
  refine (tails k room levels self turns setting after front.folded trivial).imp
    fun more last tail => ?_
  exact ((front.append tail).under (le k)).mono (node_le_one _)

end Form.Spells

end JaiTree
