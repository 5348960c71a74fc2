import JaiTree.Proofs.Grammar.Coverage

/-!
Listings: the statements of a whole text, one item after the other. The loop over them ends of
itself, so that what is listed does not depend on a bound.
-/

namespace JaiTree

open Grammar

variable {eof : Padded} {room : Nat} {setting : Setting} {rest : List Padded}

/-- What the statements of a text are read as: a semicolon is an item of its own, and any other is
a statement or the region that stands for it, built over the tokens that it takes. -/
inductive Listed (eof : Padded) (room : Nat) (setting : Setting) : List Padded → List Child → Prop
    where
  | stop : Listed eof room setting [] []
  | semicolon {t : Padded} {rest : List Padded} {children : List Child} :
      (listStep .endOfInput).run eof (t :: rest) = .semicolon →
      Listed eof room setting rest children →
      Listed eof room setting (t :: rest) (Child.ofPadded none t ++ children)
  | item {taken rest : List Padded} {made children : List Child} :
      (listStep .endOfInput).run eof (taken ++ rest) = .item → taken ≠ [] →
      (Form.guard statement).read eof (level eof room) nothing setting (taken ++ rest)
        = .done made rest →
      Built eof taken rest made → Listed eof room setting rest children →
      Listed eof room setting (taken ++ rest) (made ++ children)

theorem Listed.built {children : List Child} (h : Listed eof room setting rest children) :
    Built eof rest [] children := by
  induction h with
  | stop => exact .empty
  | semicolon step _ ih =>
    have kind := listStep_semicolon step
    exact .append (.token (.proper (kind ▸ rfl))) ih
  | @item taken rest made children _ _ _ built _ ih =>
    rw [← List.append_nil rest] at built
    exact .append built ih

namespace Grammar

theorem listStep_stop (seen : (listStep .endOfInput).run eof rest = .stop) :
    (ahead eof rest 0).token.kind = .eof := by
  rw [listStep, Glance.run_bind, Glance.run_kindAt] at seen
  split at seen
  · assumption
  · cases seen
  · cases seen
  · rw [if_neg (by decide)] at seen
    cases seen

/-- A list of statements never fails and goes on up to where it has to stop, since each item takes a
token. What holds there, and of an item with what is behind it, holds of the whole list. -/
theorem statements_induction (isEnd : eof.token.kind = .eof) (listEnd : ListEnd) (room : Nat)
    (setting : Setting) {P : List Padded → List Child → List Padded → Prop}
    (stop : ∀ rest, (listStep listEnd).run eof rest = .stop → P rest [] rest)
    (semicolon : ∀ t rest children after, (listStep listEnd).run eof (t :: rest) = .semicolon →
      P rest children after → P (t :: rest) (Child.ofPadded none t ++ children) after)
    (item : ∀ taken rest made children after,
      (listStep listEnd).run eof (taken ++ rest) = .item → taken ≠ [] →
      (Form.guard (listItem listEnd)).read eof (level eof room) nothing setting (taken ++ rest)
        = .done made rest →
      Built eof taken rest made → P rest children after →
      P (taken ++ rest) (made ++ children) after) (rest : List Padded) :
    ∃ children after, read eof room (statements listEnd) setting rest = .done children after
      ∧ P rest children after := by
  rw [Grammar.read, statements, Form.read]
  have enough : rest.length < rest.length + 1 := Nat.lt_succ_self _
  generalize rest.length + 1 = n at enough ⊢
  induction n generalizing rest with
  | zero => cases enough
  | succ n ih =>
    rw [Reading.unrolled, Form.read]
    generalize Reading.unrolled _ n = self at ih ⊢
    cases step : (listStep listEnd).run eof rest with
    | stop => exact ⟨[], rest, rfl, stop rest step⟩
    | semicolon =>
      have kind := listStep_semicolon step
      cases rest with
      | nil => exact absurd (kind.symm.trans isEnd) (by decide)
      | cons t ts =>
        obtain ⟨more, after, found, holds⟩ := ih ts (Nat.lt_of_succ_lt_succ enough)
        refine ⟨Child.ofPadded none t ++ more, after, ?_, semicolon t ts more after step holds⟩
        change Outcome.andThen (.done _ ts) (self setting) = _
        rw [Outcome.andThen_done, found]
        rfl
    | item =>
      have some_token : rest ≠ [] := by
        rintro rfl
        exact listStep_item step isEnd
      have covers : Outcome.Covers eof true (fun _ => True) rest
          ((listItem listEnd).read eof (level eof room) nothing setting rest) := by
        cases listEnd with
        | nextCase => exact read_covers isEnd (listItem_safe .nextCase) room setting rest
        | endOfInput | closeCurly =>
          exact read_covers isEnd (listItem_safe .closeCurly) room setting rest
      obtain ⟨taken, made, left, ended, rfl, some_taken, built⟩ :=
        Form.guard_built some_token covers
      have shorter : left.length < n := by
        have pos := List.length_pos_iff.mpr some_taken
        rw [List.length_append] at enough
        omega
      obtain ⟨more, after, found, holds⟩ := ih left shorter
      refine ⟨made ++ more, after, ?_, item taken left made more after step some_taken ended built
        holds⟩
      -- An item has no `again` of its own, so it is read the same in each turn.
      have same : (Form.guard (listItem listEnd)).read eof (level eof room) self setting
          (taken ++ left) = .done made left := by
        rw [← ended]
        cases listEnd with
        | endOfInput | closeCurly | nextCase => rfl
      change Outcome.andThen ((Form.guard (listItem listEnd)).read eof _ self _ _) (self setting)
        = _
      rw [same, Outcome.andThen_done, found]
      rfl

/-- The statements of a text leave nothing. -/
theorem statements_listed (isEnd : eof.token.kind = .eof) (room : Nat) (setting : Setting)
    (no_end : ∀ p ∈ rest, p.token.kind ≠ .eof) :
    ∃ children, Listed eof room setting rest children
      ∧ read eof room (statements .endOfInput) setting rest = .done children [] := by
  have reads := @statements_induction eof isEnd .endOfInput room setting
    (fun rest children after => (∀ p ∈ rest, p.token.kind ≠ .eof) →
      after = [] ∧ Listed eof room setting rest children) ?_ ?_ ?_ rest
  · obtain ⟨children, after, ended, holds⟩ := reads
    obtain ⟨rfl, listed⟩ := holds no_end
    exact ⟨children, listed, ended⟩
  · intro rest step no_end
    have kind := listStep_stop step
    cases rest with
    | nil => exact ⟨rfl, .stop⟩
    | cons t ts => exact absurd kind (no_end t List.mem_cons_self)
  · intro t rest children after step holds no_end
    obtain ⟨none, listed⟩ := holds fun p member => no_end p (List.mem_cons_of_mem t member)
    exact ⟨none, .semicolon step listed⟩
  · intro taken rest made children after step some_taken ended built holds no_end
    obtain ⟨none, listed⟩ := holds fun p member => no_end p (List.mem_append_right taken member)
    exact ⟨none, .item step some_taken ended built listed⟩

end Grammar

end JaiTree
