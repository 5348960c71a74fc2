import JaiTree.Lookahead.Shape

/-!
Running glances: what a decision answers, piece by piece, and what an answer tells of the tokens
that lie ahead.
-/

namespace JaiTree

theorem ahead_drop (eof : Padded) (rest : List Padded) (base offset : Nat) :
    ahead eof (rest.drop base) offset = ahead eof rest (base + offset) := by
  rw [ahead, ahead, List.getElem?_drop]

namespace Padded

@[simp] theorem sight_kind (padded : Padded) : padded.sight.kind = padded.token.kind := (rfl)

end Padded

namespace Glance

variable {α β : Type} (eof : Padded) (rest : List Padded)

@[simp] theorem run_pure (answer : α) : (pure answer : Glance α).run eof rest = answer := (rfl)

@[simp] theorem run_bind (g : Glance α) (f : α → Glance β) :
    (g >>= f).run eof rest = (f (g.run eof rest)).run eof rest := by
  change (g.bind f).run eof rest = _
  induction g with
  | settle answer => rfl
  | sight offset next ih => exact ih _
  | names offset next ih => exact ih _

@[simp] theorem run_map (f : α → β) (g : Glance α) :
    (f <$> g).run eof rest = f (g.run eof rest) := run_bind eof rest g fun answer => pure (f answer)

@[simp] theorem run_tokenAt (offset : Nat) :
    (tokenAt offset).run eof rest = (ahead eof rest offset).sight := (rfl)

@[simp] theorem run_kindAt (offset : Nat) :
    (kindAt offset).run eof rest = (ahead eof rest offset).token.kind := (rfl)

@[simp] theorem run_keywordAt (offset : Nat) :
    (keywordAt offset).run eof rest = (ahead eof rest offset).sight.keyword? := (rfl)

@[simp] theorem run_after (base : Nat) (g : Glance α) :
    (g.after base).run eof rest = g.run eof (rest.drop base) := by
  induction g with
  | settle answer => rfl
  | sight offset next ih =>
    rw [after, run, run, ahead_drop]
    exact ih _
  | names offset next ih =>
    rw [after, run, run, List.drop_drop]
    exact ih _

@[simp] theorem run_ite {c : Prop} [Decidable c] (yes no : Glance α) :
    (if c then yes else no).run eof rest = if c then yes.run eof rest else no.run eof rest := by
  split
  all_goals rfl

end Glance

end JaiTree
