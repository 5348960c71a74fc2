import JaiTree.Proofs.Grammar.Calm
import JaiTree.Proofs.Grammar.Walk

/-!
A walk follows the reading of its form: it comes to the same children or the same diagnostic, leaves
nothing in the cursor but another place, and on its way the cursor has what it had before, or more
levels and parameter lists.
-/

namespace JaiTree

namespace Outcome

/-- The children of an outcome, or its diagnostic. -/
def result : Outcome → Except Diagnostic (List Child)
  | .done children _ => .ok children
  | .failed error _ => .error error

/-- Another reading from where this one is done, given the children of this one. -/
def bind (outcome : Outcome) (next : List Child → List Padded → Outcome) : Outcome :=
  match outcome with
  | .done children rest => next children rest
  | .failed error rest => .failed error rest

theorem result_map (f : List Child → List Child) (outcome : Outcome) :
    (outcome.map f).result = outcome.result.map f := by
  cases outcome <;> rfl

theorem andThen_eq_bind (outcome : Outcome) (next : List Padded → Outcome) :
    outcome.andThen next
      = outcome.bind fun children rest => (next rest).map (children ++ ·) := by
  cases outcome with
  | failed error rest => rfl
  | done children rest =>
    rw [andThen, bind]
    cases next rest <;> rfl

end Outcome

namespace Cursor

variable {cursor : Cursor} {after rest : List Padded}

theorem rest_leaving (suffix : after <:+ cursor.rest) : (cursor.leaving after).rest = after := by
  obtain ⟨taken, split⟩ := suffix
  exact (leaving_append split.symm).2

theorem leaving_rest : cursor.leaving cursor.rest = cursor := by
  rw [leaving, Nat.sub_self]
  rfl

theorem leaving_leaving (suffix : after <:+ cursor.rest) (suffix' : rest <:+ after) :
    (cursor.leaving after).leaving rest = cursor.leaving rest := by
  have near := suffix.length_le
  have far := suffix'.length_le
  rw [leaving, rest_leaving suffix, leaving, leaving]
  congr 1
  dsimp only
  omega

theorem advance_eq_leaving :
    cursor.advance = cursor.leaving (Reading.next cursor.eof cursor.rest).2 := by
  have total : cursor.rest.length = cursor.tokens.length - cursor.position := List.length_drop
  rw [advance, leaving]
  split
  · next inside =>
    cases found : cursor.rest with
    | nil =>
      rw [found] at total
      exact absurd total.symm (Nat.sub_ne_zero_of_lt inside)
    | cons t ts =>
      congr 1
      rw [Reading.next, List.length_cons, Nat.add_sub_cancel_left]
  · next outside =>
    rw [Nat.sub_eq_zero_of_le (Nat.not_lt.mp outside)] at total
    rw [List.eq_nil_of_length_eq_zero total]
    rfl

/-- The steps before the part in a scope write into the cursor what the part has to know. -/
theorem setting_inside (scope : Scope) :
    (cursor.inside scope).setting = scope.change cursor.setting := by
  cases scope <;> rfl

/-- What a scope puts back is what it has overwritten. -/
theorem inside_leaving (scope : Scope) :
    { (cursor.inside scope).leaving after with
      inSwitch := cursor.inSwitch
      parameterDepth := ((cursor.inside scope).leaving after).parameterDepth - scope.lists }
      = cursor.leaving after := by
  rw [leaving, leaving, inside]
  dsimp only
  rw [Nat.add_sub_cancel]
  rfl

end Cursor

/-- At a moment of a walk from the cursor, the cursor has kept its tokens, and as many levels and
parameter lists are open as were open before, or more; what is closed is open. -/
structure Moment.Keeps (moment : Moment) (cursor : Cursor) : Prop where
  tokens : moment.cursor.tokens = cursor.tokens
  eof : moment.cursor.eof = cursor.eof
  levels : cursor.depth ≤ moment.cursor.depth
  room : moment.cursor.depth ≤ Grammar.maxNesting
  closes : moment.event = .closes → cursor.depth < moment.cursor.depth
  lists : cursor.parameterDepth ≤ moment.cursor.parameterDepth
  leaves : moment.event = .leaves → cursor.parameterDepth < moment.cursor.parameterDepth

/-- At a moment of a walk no statement is read where an equals sign before a brace opens the cases
of a switch. -/
def Moment.Calm (moment : Moment) : Prop :=
  moment.event = .calls .statement → moment.cursor.inSwitch = false

theorem Moment.Keeps.outside {moment : Moment} {inner cursor : Cursor} (keeps : moment.Keeps inner)
    (tokens : inner.tokens = cursor.tokens) (eof : inner.eof = cursor.eof)
    (levels : cursor.depth ≤ inner.depth) (lists : cursor.parameterDepth ≤ inner.parameterDepth) :
    moment.Keeps cursor where
  tokens := keeps.tokens.trans tokens
  eof := keeps.eof.trans eof
  levels := levels.trans keeps.levels
  room := keeps.room
  closes := fun closing => levels.trans_lt (keeps.closes closing)
  lists := lists.trans keeps.lists
  leaves := fun leaving => lists.trans_lt (keeps.leaves leaving)

/-- What a walk from the cursor comes to is what a reading comes to, and every moment of it keeps
what the cursor had; if no case of a switch may open, all of them are calm. -/
structure Walked.Follows (walked : Walked) (cursor : Cursor) (outcome : Outcome) (plain : Prop) :
    Prop where
  result : walked.result = outcome.result
  place : walked.cursor = cursor.leaving outcome.left
  suffix : outcome.left <:+ cursor.rest
  keeps : ∀ moment ∈ walked.moments, moment.Keeps cursor
  calm : plain → ∀ moment ∈ walked.moments, moment.Calm

namespace Walked.Follows

variable {walked : Walked} {cursor : Cursor} {outcome : Outcome} {plain : Prop}

theorem done {children : List Child} {place : Cursor} {after : List Padded}
    (leaves : place = cursor.leaving after) (suffix : after <:+ cursor.rest) :
    Walked.Follows ⟨.ok children, place, []⟩ cursor (.done children after) plain :=
  ⟨rfl, leaves, suffix, List.forall_mem_nil _, fun _ => List.forall_mem_nil _⟩

theorem failed {error : Diagnostic} :
    Walked.Follows ⟨.error error, cursor, []⟩ cursor (.failed error cursor.rest) plain :=
  ⟨rfl, Cursor.leaving_rest.symm, List.suffix_rfl, List.forall_mem_nil _,
    fun _ => List.forall_mem_nil _⟩

theorem map (h : walked.Follows cursor outcome plain) (f : List Child → List Child) :
    (walked.map f).Follows cursor (outcome.map f) plain where
  result := by rw [Walked.map, h.result, Outcome.result_map]
  place := by rw [Outcome.left_map]; exact h.place
  suffix := by rw [Outcome.left_map]; exact h.suffix
  keeps := h.keeps
  calm := h.calm

/-- A walk from a later place is part of one from an earlier. -/
theorem earlier {after : List Padded} (suffix : after <:+ cursor.rest)
    (h : walked.Follows (cursor.leaving after) outcome plain) :
    walked.Follows cursor outcome plain where
  result := h.result
  place := by
    have later := h.suffix
    rw [Cursor.rest_leaving suffix] at later
    rw [h.place, Cursor.leaving_leaving suffix later]
  suffix := by
    have later := h.suffix
    rw [Cursor.rest_leaving suffix] at later
    exact later.trans suffix
  keeps := fun moment member =>
    (h.keeps moment member).outside rfl rfl (Nat.le_refl _) (Nat.le_refl _)
  calm := h.calm

theorem bind {next : List Child → Walk} {read : List Child → List Padded → Outcome}
    (h : walked.Follows cursor outcome plain)
    (h' : ∀ children after, after <:+ cursor.rest →
      (next children (cursor.leaving after)).Follows cursor (read children after) plain) :
    (walked.bind next).Follows cursor (outcome.bind read) plain := by
  obtain ⟨result, place, moments⟩ := walked
  obtain ⟨rfl, rfl, suffix, keeps, calm⟩ := h
  cases outcome with
  | failed error after => exact ⟨rfl, rfl, suffix, keeps, calm⟩
  | done children after =>
    have second := h' children after suffix
    refine ⟨second.result, second.place, second.suffix, ?_, fun holds => ?_⟩
    · exact List.forall_mem_append.mpr ⟨keeps, second.keeps⟩
    · exact List.forall_mem_append.mpr ⟨calm holds, second.calm holds⟩

end Walked.Follows

/-- From every cursor with room for so many levels, the walk follows the reading. In a spot where
statements may begin it is calm if no case of a switch may open. -/
def Walk.Follows (walk : Walk) (eof : Padded) (room : Nat) (spot : Spot) (reading : Reading) :
    Prop :=
  ∀ cursor : Cursor, cursor.eof = eof → cursor.depth + room = Grammar.maxNesting →
    (walk cursor).Follows cursor (reading cursor.setting cursor.rest)
      (spot = .plain → cursor.inSwitch = false)

namespace Walk

variable {eof : Padded} {room : Nat} {spot : Spot} {cursor : Cursor} {plain : Prop}

theorem Follows.mono {walk : Walk} {reading : Reading} {inner : Spot}
    (h : walk.Follows eof room inner reading) (stands : inner = .plain → spot = .plain) :
    walk.Follows eof room spot reading := by
  intro cursor isEof deep
  have body := h cursor isEof deep
  exact ⟨body.result, body.place, body.suffix, body.keeps,
    fun calm => body.calm fun plain => calm (stands plain)⟩

theorem nothing_follows : nothing.Follows eof room spot Grammar.nothing :=
  fun _ _ _ => .done Cursor.leaving_rest.symm List.suffix_rfl

theorem take_follows (made : Padded → List Child) :
    (take made).Follows eof room spot fun _ rest =>
      .done (made (Reading.next eof rest).1) (Reading.next eof rest).2 := by
  rintro cursor rfl -
  rw [take, Cursor.peek, ← Reading.next_fst]
  exact .done Cursor.advance_eq_leaving (Reading.next_suffix _ _)

theorem fail_follows (cause : Sight → Cause) :
    (fail cause).Follows eof room spot fun _ => Reading.fail eof cause := by
  rintro cursor rfl -
  exact .failed

theorem unrolled_follows {step : Walk → Walk} {stepRead : Reading → Reading}
    (h : ∀ self reading, Follows self eof room spot reading →
      (step self).Follows eof room spot (stepRead reading)) (n : Nat) :
    (unrolled step n).Follows eof room spot (Reading.unrolled stepRead n) := by
  induction n with
  | zero => exact nothing_follows
  | succ n ih => exact h _ _ ih

theorem grown_follows {κ : Type} {look : Cursor → Option κ} {lookRead : List Padded → Option κ}
    {tail : κ → List Child → Walk} {tailRead : κ → List Child → List Padded → Outcome}
    (same : ∀ after, after <:+ cursor.rest → look (cursor.leaving after) = lookRead after)
    (h : ∀ k children after, after <:+ cursor.rest →
      (tail k children (cursor.leaving after)).Follows cursor (tailRead k children after) plain)
    (n : Nat) {children : List Child} {after : List Padded} (suffix : after <:+ cursor.rest) :
    (grown (fun children place => (look place).map (tail · children place)) n children
      (cursor.leaving after)).Follows cursor
        (Reading.grown (fun children rest => (lookRead rest).map (tailRead · children rest)) n
          children after) plain := by
  induction n generalizing children after with
  | zero => exact .done rfl suffix
  | succ n ih =>
    rw [grown, Reading.grown, same after suffix]
    cases lookRead after with
    | none => exact .done rfl suffix
    | some k =>
      have longer := (h k children after suffix).bind fun children after suffix =>
        @ih children after suffix
      dsimp only [Option.map_some]
      cases found : tailRead k children after with
      | failed error rest => rwa [found] at longer
      | done more rest => rwa [found] at longer

theorem within_follows {walk : Walk} {reading : Reading} {scope : Scope}
    (h : walk.Follows eof room scope.spot reading) :
    (within scope walk).Follows eof room spot fun setting => reading (scope.change setting) := by
  intro cursor isEof deep
  have body := h (cursor.inside scope) isEof deep
  rw [Cursor.setting_inside] at body
  have calm (plain : scope.spot = .plain) : (cursor.inside scope).inSwitch = false := by
    cases scope with
    | condition => cases plain
    | block | parentheses | literal | index | arguments | parameters => rfl
  have deeper : cursor.parameterDepth ≤ (cursor.inside scope).parameterDepth :=
    Nat.le_add_right _ _
  rw [Scope.walk_eq]
  refine ⟨body.result, ?_, body.suffix, ?_, fun _ => ?_⟩
  · dsimp only
    rw [body.place]
    exact Cursor.inside_leaving scope
  · refine List.forall_mem_append.mpr ⟨fun moment member => ?_, fun moment member => ?_⟩
    · exact (body.keeps moment member).outside rfl rfl (Nat.le_refl _) deeper
    · obtain ⟨opened, rfl⟩ := List.mem_replicate.mp member
      rw [body.place]
      refine ⟨rfl, rfl, Nat.le_refl _, deep ▸ Nat.le_add_right _ _, nofun, deeper, fun _ => ?_⟩
      exact Nat.lt_add_of_pos_right (Nat.pos_of_ne_zero opened)
  · refine List.forall_mem_append.mpr ⟨body.calm calm, fun moment member => ?_⟩
    rw [(List.mem_replicate.mp member).2]
    exact nofun

theorem guard_done {walk : Walk} {children : List Child} {rest : List Padded}
    (h : (walk cursor).Follows cursor (.done children rest) plain) :
    (guard walk cursor).Follows cursor (.done children rest) plain := by
  rw [guard, h.result]
  exact h

theorem guard_failed {walk : Walk} {error : Diagnostic} {rest : List Padded}
    (h : (walk cursor).Follows cursor (.failed error rest) plain) :
    (guard walk cursor).Follows cursor
      (.done [.node none (Recovery.node error (Recovery.region 0 true cursor.rest).1)]
        (Recovery.region 0 true cursor.rest).2) plain := by
  rw [guard, h.result, h.place]
  exact ⟨rfl, rfl, Recovery.region_suffix 0 true _, h.keeps, h.calm⟩

theorem calls_keeps {goal : Goal} (deep : cursor.depth + room = Grammar.maxNesting) :
    (⟨.calls goal, cursor⟩ : Moment).Keeps cursor :=
  ⟨rfl, rfl, Nat.le_refl _, deep ▸ Nat.le_add_right _ _, nofun, Nat.le_refl _, nofun⟩

theorem calls_calm {goal : Goal} (calm : goal.spot = .plain → cursor.inSwitch = false) :
    (⟨.calls goal, cursor⟩ : Moment).Calm := by
  rintro ⟨⟩
  exact calm rfl

/-- Where all levels are open no other is opened. -/
theorem inLevel_full {goal : Goal} {walk : Walk} : (inLevel goal walk).Follows eof 0 goal.spot
    fun _ => Reading.fail eof fun _ => .nestingTooDeep Grammar.maxNesting := by
  rintro cursor rfl deep
  rw [Goal.walk_full walk cursor goal deep]
  refine ⟨rfl, Cursor.leaving_rest.symm, List.suffix_rfl, ?_, fun calm => ?_⟩
  · exact List.forall_mem_singleton.mpr (calls_keeps deep)
  · exact List.forall_mem_singleton.mpr (calls_calm calm)

theorem inLevel_follows {goal : Goal} {walk : Walk} {reading : Reading}
    (h : walk.Follows eof room goal.spot reading) :
    (inLevel goal walk).Follows eof (room + 1) goal.spot reading := by
  intro cursor isEof deep
  have less : cursor.depth + 1 ≤ Grammar.maxNesting := by omega
  have body := h { cursor with depth := cursor.depth + 1 } isEof
    ((Nat.add_right_comm ..).trans deep)
  rw [Goal.walk_eq walk cursor goal less]
  refine ⟨body.result, ?_, body.suffix, ?_, fun calm => ?_⟩
  · exact congrArg (fun place : Cursor => { place with depth := place.depth - 1 }) body.place
  · have begins : (⟨.begins, { cursor with depth := cursor.depth + 1 }⟩ : Moment).Keeps cursor :=
      ⟨rfl, rfl, Nat.le_succ _, less, nofun, Nat.le_refl _, nofun⟩
    have closes :
        (⟨.closes, (walk { cursor with depth := cursor.depth + 1 }).cursor⟩ : Moment).Keeps
          cursor := by
      rw [body.place]
      exact ⟨rfl, rfl, Nat.le_succ _, less, fun _ => Nat.lt_succ_self _, Nat.le_refl _, nofun⟩
    refine List.forall_mem_append.mpr ⟨List.forall_mem_append.mpr ⟨?_, fun moment member => ?_⟩, ?_⟩
    · exact List.forall_mem_cons.mpr
        ⟨calls_keeps deep, List.forall_mem_singleton.mpr begins⟩
    · exact (body.keeps moment member).outside rfl rfl (Nat.le_succ _) (Nat.le_refl _)
    · exact List.forall_mem_singleton.mpr closes
  · refine List.forall_mem_append.mpr ⟨List.forall_mem_append.mpr ⟨?_, body.calm calm⟩, ?_⟩
    · exact List.forall_mem_cons.mpr ⟨calls_calm calm, List.forall_mem_singleton.mpr nofun⟩
    · exact List.forall_mem_singleton.mpr nofun

end Walk

namespace Form

variable {eof : Padded} {room : Nat} {enter : Goal → Walk} {deeper : Goal → Reading}

theorem read_grow {many : Bool} {κ : Type} {first : Form} {look : Setting → Glance (Option κ)}
    {kind : κ → NodeKind} {field : κ → Option Field} {tail : κ → Form} {self : Reading}
    {setting : Setting} {rest : List Padded} :
    (grow many first look kind field tail).read eof deeper self setting rest
      = (first.read eof deeper self setting rest).bind fun children rest =>
        Reading.grown
          (fun children rest => ((look setting).run eof rest).map fun k =>
            ((tail k).read eof deeper self setting rest).map fun more =>
              Child.under (kind k) (Child.labelled (field k) children ++ more))
          (if many then rest.length + 1 else 1) children rest := by
  rw [read]
  cases first.read eof deeper self setting rest <;> rfl

theorem read_lead {κ : Type} {first otherwise : Form} {look : Setting → Glance (Option κ)}
    {kind : κ → NodeKind} {tail : κ → Form} {self : Reading} {setting : Setting}
    {rest : List Padded} :
    (lead first look kind tail otherwise).read eof deeper self setting rest
      = (first.read eof deeper self setting rest).bind fun children after =>
        match (look setting).run eof after with
        | some k =>
          ((tail k).read eof deeper self setting after).map fun more =>
            Child.under (kind k) (children ++ more)
        | none => otherwise.read eof deeper self setting rest := by
  rw [read]
  cases first.read eof deeper self setting rest <;> rfl

/-- If the walks of the rules that count as levels follow their readings, so does the walk of every
calm form. -/
theorem walk_follows (levels : ∀ goal, (enter goal).Follows eof room goal.spot (deeper goal))
    (form : Form) {spot loop : Spot} (calm : form.Calm spot loop) {self : Walk} {again : Reading}
    (self_follows : self.Follows eof room loop again) :
    (form.walk enter self).Follows eof room spot (form.read eof deeper again) := by
  induction form generalizing spot loop self again with
  | empty => exact Walk.nothing_follows
  | seq first second ih ih' =>
    intro cursor isEof deep
    rw [read, walk, Outcome.andThen_eq_bind]
    refine Walked.Follows.bind (ih calm.1 self_follows cursor isEof deep)
      fun children after suffix => ?_
    have more := (ih' calm.2 self_follows (cursor.leaving after) isEof deep).map (children ++ ·)
    rw [Cursor.rest_leaving suffix] at more
    exact more.earlier suffix
  | take field => exact Walk.take_follows _
  | expect kind field =>
    rintro cursor rfl deep
    have same : (ahead cursor.eof cursor.rest 0).token.kind = (cursor.peek 0).token.kind := rfl
    rw [read, walk, same]
    dsimp only
    split
    · exact Walk.take_follows _ cursor rfl deep
    · exact Walk.fail_follows _ cursor rfl deep
  | refuse cause => exact Walk.fail_follows cause
  | faulty => exact Walk.take_follows _
  | node kind body ih =>
    exact fun cursor isEof deep => (ih calm self_follows cursor isEof deep).map _
  | label field body ih =>
    exact fun cursor isEof deep => (ih calm self_follows cursor isEof deep).map _
  | enter goal => exact (levels goal).mono calm
  | choose look next ih =>
    rintro cursor rfl deep
    exact ih _ (calm _) self_follows cursor rfl deep
  | within scope body ih => exact Walk.within_follows (ih calm self_follows)
  | fix body ih =>
    intro cursor isEof deep
    exact Walk.unrolled_follows (fun _ _ => ih calm) _ cursor isEof deep
  | again => exact self_follows.mono calm
  | grow many first look kind field tail ih ih' =>
    rintro cursor rfl deep
    rw [read_grow, walk]
    refine Walked.Follows.bind (ih calm.1 self_follows cursor rfl deep)
      fun children after suffix => ?_
    rw [Cursor.rest_leaving suffix]
    refine Walk.grown_follows (fun after suffix => ?_) (fun k children after suffix => ?_) _ suffix
    · rw [Cursor.glance, Cursor.rest_leaving suffix]
      rfl
    · have more := (ih' k (calm.2 k) self_follows (cursor.leaving after) rfl deep).map
        fun more => Child.under (kind k) (Child.labelled (field k) children ++ more)
      rw [Cursor.rest_leaving suffix] at more
      exact more.earlier suffix
  | lead first look kind tail otherwise ih ih' ih'' =>
    rintro cursor rfl deep
    rw [read_lead, walk]
    refine Walked.Follows.bind (ih calm.1 self_follows cursor rfl deep)
      fun children after suffix => ?_
    rw [Cursor.glance, Cursor.rest_leaving suffix]
    change Walked.Follows (match (look cursor.setting).run cursor.eof after with
      | some k => _
      | none => _) _ _ _
    cases (look cursor.setting).run cursor.eof after with
    | none => exact ih'' calm.2.2 self_follows cursor rfl deep
    | some k =>
      have more := (ih' k (calm.2.1 k) self_follows (cursor.leaving after) rfl deep).map
        fun more => Child.under (kind k) (children ++ more)
      rw [Cursor.rest_leaving suffix] at more
      exact more.earlier suffix
  | guard body ih =>
    intro cursor isEof deep
    have inner := ih calm self_follows cursor isEof deep
    rw [read, walk]
    cases found : body.read eof deeper again cursor.setting cursor.rest with
    | done children rest => exact Walk.guard_done (found ▸ inner)
    | failed error rest => exact Walk.guard_failed (found ▸ inner)

end Form

namespace Grammar

theorem walkLevel_follows (eof : Padded) (room : Nat) (goal : Goal) :
    (walkLevel room goal).Follows eof room goal.spot (level eof room goal) := by
  induction room generalizing goal with
  | zero => exact Walk.inLevel_full
  | succ room ih =>
    exact Walk.inLevel_follows (goal.form.walk_follows ih goal.form_calm Walk.nothing_follows)

end Grammar

/-- A walk from a cursor comes to what reading from there comes to. -/
theorem Cursor.walk_follows {form : Form} {spot loop : Spot} (calm : form.Calm spot loop)
    {cursor : Cursor} (room : cursor.depth ≤ Grammar.maxNesting) :
    (cursor.walk form).Follows cursor
      (Grammar.read cursor.eof (Grammar.maxNesting - cursor.depth) form cursor.setting cursor.rest)
      (spot = .plain → cursor.inSwitch = false) :=
  form.walk_follows (Grammar.walkLevel_follows cursor.eof _) calm Walk.nothing_follows cursor rfl
    (Nat.add_sub_cancel' room)

theorem Cursor.read_eq (form : Form) (cursor : Cursor) :
    cursor.read form
      = ((Grammar.read cursor.eof (Grammar.maxNesting - cursor.depth) form cursor.setting
          cursor.rest).result,
        cursor.leaving (Grammar.read cursor.eof (Grammar.maxNesting - cursor.depth) form
          cursor.setting cursor.rest).left) := by
  rw [read]
  cases Grammar.read cursor.eof (Grammar.maxNesting - cursor.depth) form cursor.setting cursor.rest
  all_goals rfl

end JaiTree
