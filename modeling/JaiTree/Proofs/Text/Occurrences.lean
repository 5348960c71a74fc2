import JaiTree.Proofs.Text.Lines
import JaiTree.Proofs.Text.Words

/-!
Occurrences of a word: where it is found is the first place where it stands as a whole word, and
to look for it only behind the end of each place where its characters stand makes no difference.
Main statements: `Text.findWord_eq_some_iff`, `Text.find?_separate`.
-/

namespace JaiTree.Text

/-- Whether the word stands at the offset as a whole, with no name character on either side, given
the character before the text. -/
def standsAt (prior : Option Char) (word text : List Char) (offset : Nat) : Bool :=
  word.isPrefixOf (text.drop offset)
    && !((text.take offset).getLast?.or prior).any isNameChar
    && !(text.drop (offset + word.length)).head?.any isNameChar

/-- The places past the first `skip` characters where the characters of the word stand, as parts of
longer names as well, each behind the end of the last one. -/
def separate (word : List Char) : (skip : Nat) → List Char → List Nat
  | _, [] => []
  | skip + 1, _ :: cs => (separate word skip cs).map (· + 1)
  | 0, c :: cs =>
    if word.isPrefixOf (c :: cs) then 0 :: (separate word (word.length - 1) cs).map (· + 1)
    else (separate word 0 cs).map (· + 1)

variable {prior : Option Char} {word text cs : List Char} {c : Char} {offset : Nat}

theorem standsAt_nil (some_char : word ≠ []) : standsAt prior word [] offset = false := by
  obtain ⟨d, ds, rfl⟩ := List.exists_cons_of_ne_nil some_char
  simp [standsAt]

theorem standsAt_zero (prior : Option Char) (word text : List Char) :
    standsAt prior word text 0
      = (word.isPrefixOf text && !prior.any isNameChar
        && !(text.drop word.length).head?.any isNameChar) := by
  simp [standsAt]

/-- Behind some characters the last of them is the one before what follows. -/
theorem getLast?_cons_or (prior : Option Char) (c : Char) (cs : List Char) :
    (c :: cs).getLast?.or prior = cs.getLast?.or (some c) := by
  rw [List.getLast?_cons]
  cases cs.getLast? with
  | none => rfl
  | some d => rfl

/-- Past the first character of a text a word stands where it does in the rest of it. -/
theorem standsAt_succ (prior : Option Char) (word : List Char) (c : Char) (cs : List Char)
    (offset : Nat) :
    standsAt prior word (c :: cs) (offset + 1) = standsAt (some c) word cs offset := by
  have behind : offset + 1 + word.length = offset + word.length + 1 := by omega
  rw [standsAt, standsAt, List.drop_succ_cons, List.take_succ_cons, getLast?_cons_or, behind,
    List.drop_succ_cons]

theorem findWord_cons (prior : Option Char) (word : List Char) (c : Char) (cs : List Char) :
    findWord word prior (c :: cs)
      = if standsAt prior word (c :: cs) 0 then some 0
        else (findWord word (some c) cs).map (· + 1) := by
  rw [findWord, standsAt_zero]

/-- A word is found at the first place where it stands as a whole. -/
theorem findWord_eq_some_iff (some_char : word ≠ []) :
    findWord word prior text = some offset
      ↔ standsAt prior word text offset = true
        ∧ ∀ earlier < offset, standsAt prior word text earlier = false := by
  induction text generalizing prior offset with
  | nil =>
    rw [standsAt_nil some_char]
    simp [findWord]
  | cons c cs ih =>
    rw [findWord_cons]
    split
    · next here =>
      constructor
      · intro found
        cases found
        exact ⟨here, fun earlier below => absurd below (Nat.not_lt_zero earlier)⟩
      · rintro ⟨-, first⟩
        cases offset with
        | zero => rfl
        | succ offset =>
          rw [first 0 (Nat.zero_lt_succ offset)] at here
          cases here
    · next other =>
      rw [Bool.not_eq_true] at other
      cases offset with
      | zero => simp [other]
      | succ offset =>
        have shifted : (findWord word (some c) cs).map (· + 1) = some (offset + 1)
            ↔ findWord word (some c) cs = some offset := by simp
        rw [shifted, ih, standsAt_succ]
        apply and_congr_right
        intro _
        constructor
        · intro first earlier below
          cases earlier with
          | zero => exact other
          | succ earlier =>
            rw [standsAt_succ]
            exact first earlier (Nat.lt_of_succ_lt_succ below)
        · intro first earlier below
          rw [← standsAt_succ prior]
          exact first (earlier + 1) (Nat.succ_lt_succ below)

/-- A word is found unless it stands nowhere as a whole. -/
theorem findWord_eq_none_iff_standsAt (some_char : word ≠ []) :
    findWord word prior text = none ↔ ∀ offset, standsAt prior word text offset = false := by
  constructor
  · intro unfound offset
    induction offset using Nat.strongRecOn with
    | ind offset first =>
      cases here : standsAt prior word text offset with
      | false => rfl
      | true =>
        have found := (findWord_eq_some_iff some_char).mpr ⟨here, first⟩
        rw [unfound] at found
        cases found
  · intro nowhere
    cases found : findWord word prior text with
    | none => rfl
    | some offset =>
      have here := ((findWord_eq_some_iff some_char).mp found).1
      rw [nowhere offset] at here
      cases here

/-- A word that is not found in a text is not found in what comes before a place that no name
goes past. -/
theorem findWord_take {word text : List Char} {prior : Option Char} {n : Nat}
    (some_char : word ≠ []) (unfound : findWord word prior text = none)
    (stop : ∀ c ∈ (text.drop n).head?, isNameChar c = false) :
    findWord word prior (text.take n) = none := by
  rw [findWord_eq_none_iff_standsAt some_char] at unfound ⊢
  intro offset
  cases stands : standsAt prior word (text.take n) offset with
  | false => rfl
  | true =>
    have elsewhere := unfound offset
    rw [standsAt, Bool.and_eq_true, Bool.and_eq_true, List.isPrefixOf_iff_prefix, List.drop_take,
      List.prefix_take_iff] at stands
    obtain ⟨⟨⟨begins, within⟩, apart⟩, stops⟩ := stands
    have size := List.length_pos_iff.mpr some_char
    have behind : (text.drop (offset + word.length)).head?.any isNameChar = false := by
      rw [List.drop_take, List.head?_take, Bool.not_eq_true'] at stops
      split at stops
      · next ends =>
        have last : offset + word.length = n := by omega
        rw [last]
        cases rest : (text.drop n).head? with
        | none => rfl
        | some c => exact stop c rest
      · exact stops
    rw [List.take_take, Nat.min_eq_left (by omega)] at apart
    rw [standsAt, List.isPrefixOf_iff_prefix.mpr begins, apart, behind] at elsewhere
    cases elsewhere

/-- A name that nothing goes on with is all of the name at the head of the text. -/
theorem name_append {rest : List Char} (isName_word : isName word = true)
    (stops : rest.head?.any isNameChar = false) : name (word ++ rest) = word := by
  have named := isNameChar_of_isName isName_word
  have some_name : name word ≠ [] := by
    rw [name_of_isName isName_word]
    rintro rfl
    cases isName_word
  obtain ⟨c, cs, rfl, starts, -⟩ := name_eq_cons some_name
  have ends : rest.takeWhile isNameChar = [] := by
    cases rest with
    | nil => rfl
    | cons d ds =>
      have stop : isNameChar d = false := stops
      rw [List.takeWhile_cons_of_neg (by simp [stop])]
  have goes_on : ∀ d ∈ cs, isNameChar d = true := fun d member =>
    named d (List.mem_cons_of_mem c member)
  rw [List.cons_append, name, if_pos starts, List.takeWhile_append_of_pos goes_on, ends,
    List.append_nil]

/-- A word behind a text that does not end with part of a name is found there, unless it is found
in the text. -/
theorem findWord_append {content after : List Char} (named : ∀ c ∈ word, isNameChar c = true)
    (some_char : word ≠ []) (nowhere : ∀ offset, standsAt none word content offset = false)
    (left : content.getLast?.any isNameChar = false)
    (right : after.head?.any isNameChar = false) :
    findWord word none (content ++ (word ++ after)) = some content.length := by
  rw [findWord_eq_some_iff some_char]
  constructor
  · have begins : word.isPrefixOf (word ++ after) = true :=
      List.isPrefixOf_iff_prefix.mpr (List.prefix_append word after)
    rw [standsAt, List.drop_left, List.take_left, Option.or_none, ← List.drop_drop, List.drop_left,
      List.drop_left, begins, left, right]
    rfl
  · intro earlier below
    cases stands : standsAt none word (content ++ (word ++ after)) earlier with
    | false => rfl
    | true =>
      rw [standsAt, Bool.and_eq_true, Bool.and_eq_true,
        List.drop_append_of_le_length (Nat.le_of_lt below),
        List.take_append_of_le_length (Nat.le_of_lt below)] at stands
      obtain ⟨⟨begins, apart⟩, stops⟩ := stands
      have begins := List.isPrefixOf_iff_prefix.mp begins
      have around := List.prefix_append (content.drop earlier) (word ++ after)
      by_cases within : word.length ≤ (content.drop earlier).length
      · -- Then the word stands in the text itself.
        have inner := List.prefix_of_prefix_length_le begins around within
        rw [List.length_drop] at within
        have stops' : (content.drop (earlier + word.length)).head?.any isNameChar = false := by
          rw [List.drop_append_of_le_length (by omega)] at stops
          cases behind : content.drop (earlier + word.length) with
          | nil => rfl
          | cons c cs => simpa [behind] using stops
        have here := nowhere earlier
        rw [standsAt, List.isPrefixOf_iff_prefix.mpr inner, apart, stops'] at here
        cases here
      · -- Then the last character of the text is one of the word.
        have inner := List.prefix_of_prefix_length_le around begins (by omega)
        have some_behind : content.drop earlier ≠ [] := by simpa using below
        have last := List.getLast_mem some_behind
        have same : content.getLast? = some ((content.drop earlier).getLast some_behind) := by
          rw [List.getLast_drop, List.getLast?_eq_some_getLast]
        rw [same, Option.any_some, named _ (inner.subset last)] at left
        cases left

/-- Within the characters of a word of names each one stands behind another, so the word is not
found there as a whole and may be gone past. -/
theorem find?_separate {skip : Nat} (some_char : word ≠ [])
    (named : ∀ c ∈ word, isNameChar c = true)
    (inside : ∀ place < skip, ((text.take place).getLast?.or prior).any isNameChar = true) :
    (separate word skip text).find? (standsAt prior word text) = findWord word prior text := by
  induction text generalizing prior skip with
  | nil => cases skip <;> rfl
  | cons c cs ih =>
    have later (skip : Nat)
        (inside : ∀ place < skip,
          ((cs.take place).getLast?.or (some c)).any isNameChar = true) :
        ((separate word skip cs).map (· + 1)).find? (standsAt prior word (c :: cs))
          = (findWord word (some c) cs).map (· + 1) := by
      have same : standsAt prior word (c :: cs) ∘ (· + 1) = standsAt (some c) word cs := by
        funext offset
        exact standsAt_succ prior word c cs offset
      rw [List.find?_map, same, ih inside]
    rw [findWord_cons]
    cases skip with
    | succ skip =>
      have first := inside 0 (Nat.zero_lt_succ skip)
      rw [List.take_zero, List.getLast?_nil, Option.none_or] at first
      rw [separate, later skip fun place below => ?_, standsAt_zero, first]
      · simp
      · have behind := inside (place + 1) (Nat.succ_lt_succ below)
        rwa [List.take_succ_cons, getLast?_cons_or] at behind
    | zero =>
      rw [separate]
      split
      · next begins =>
        rw [List.find?_cons]
        split
        · next here => rw [if_pos here]
        · next other =>
          rw [if_neg (by simp [other])]
          refine later _ fun place below => ?_
          obtain ⟨d, ds, rfl⟩ := List.exists_cons_of_ne_nil some_char
          obtain ⟨rest, whole⟩ := List.isPrefixOf_iff_prefix.mp begins
          rw [List.cons_append] at whole
          obtain ⟨rfl, rfl⟩ := List.cons.inj whole
          rw [List.length_cons, Nat.add_sub_cancel] at below
          have within : (ds ++ rest).take place = ds.take place :=
            List.take_append_of_le_length (Nat.le_of_lt below)
          rw [within]
          cases last : (ds.take place).getLast? with
          | none => exact named _ List.mem_cons_self
          | some e =>
            have member := List.mem_of_mem_take (List.mem_of_getLast? last)
            exact named e (List.mem_cons_of_mem _ member)
      · next other =>
        rw [later 0 fun place below => absurd below (Nat.not_lt_zero place), standsAt_zero]
        simp [other]

end JaiTree.Text
