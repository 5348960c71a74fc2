import JaiTree.Tree.Basic

/-!
Recovery: where a rule fails, a region of tokens becomes an error node. It ends with a semicolon
outside braces, with the brace that closes one opened inside it, or before a brace that closes
something around it.
-/

namespace JaiTree.Recovery

/-- The region at the head of the tokens, `depth` braces deep, and what follows it. -/
def region (depth : Nat) (isEmpty : Bool) : List Padded → List Padded × List Padded
  | [] => ([], [])
  | t :: ts =>
    let rest (depth : Nat) : List Padded × List Padded :=
      let (taken, left) := region depth false ts
      (t :: taken, left)
    match t.token.kind with
    | .openCurly => rest (depth + 1)
    | .closeCurly =>
      -- A brace that closes something around the region is left to it, unless nothing is taken yet.
      if depth = 0 && !isEmpty then ([], t :: ts)
      else if depth ≤ 1 then ([t], ts)
      else rest (depth - 1)
    | .semicolon => if depth = 0 then ([t], ts) else rest depth
    | _ => rest depth

/-- Nothing is lost between the region and what follows it. -/
theorem region_append (depth : Nat) (isEmpty : Bool) (tokens : List Padded) :
    (region depth isEmpty tokens).1 ++ (region depth isEmpty tokens).2 = tokens := by
  induction tokens generalizing depth isEmpty with
  | nil => rfl
  | cons t ts ih =>
    rw [region]
    split
    · simpa using ih (depth + 1) false
    · split
      · rfl
      · split
        · rfl
        · simpa using ih (depth - 1) false
    · split
      · rfl
      · simpa using ih depth false
    · simpa using ih depth false

/-- The error node over a region: what a token of it says for itself comes before the failure. -/
def node (failure : Diagnostic) (region : List Padded) : Node :=
  .mk .error (region.flatMap (Child.ofPadded none))
    (some ((region.findSome? fun t => t.token.diagnostic?).getD failure))

end JaiTree.Recovery
