import AskSql.Proofs.Text.Taken

/-! How often a word stands in a text.  The count adds up over the parts of a text that no word runs
across, and is nothing exactly where the word is missing. -/

namespace AskSql.Text

variable {text front back : List Char} {key : String}

/-- How many words of `cs` read `key`, given in small letters, up to case.  `before` is what
precedes `cs`. -/
def countWordFrom (key : List Char) (before : Option Char) : List Char → Nat
  | [] => 0
  | c :: cs =>
    (if beginsWord before c && (word (c :: cs)).1.map fold == key then 1 else 0) +
      countWordFrom key (some c) cs

/-- How many words of `cs` read `key`, given in small letters, up to case. -/
def countWord (key : String) (cs : List Char) : Nat :=
  countWordFrom key.toList none cs

theorem countWordFrom_eq_zero_iff {key : List Char} {before : Option Char} :
    countWordFrom key before text = 0 ↔ hasWordFrom key before text = false := by
  induction text generalizing before with
  | nil => simp [countWordFrom, hasWordFrom]
  | cons c cs ih =>
    rw [countWordFrom, hasWordFrom, Nat.add_eq_zero_iff, ih, Bool.or_eq_false_iff]
    refine and_congr_left fun _ => ?_
    split <;> rename_i hword <;> simp [hword]

theorem countWord_eq_zero_iff : countWord key text = 0 ↔ hasWord key text = false :=
  countWordFrom_eq_zero_iff

theorem countWordFrom_congr {key : List Char} {before before' : Option Char}
    (h : ∀ c ∈ text.head?, beginsWord before c = beginsWord before' c) :
    countWordFrom key before text = countWordFrom key before' text := by
  cases text with
  | nil => rfl
  | cons c cs => rw [countWordFrom, countWordFrom, h c rfl]

theorem countWordFrom_append {key : List Char} {before : Option Char} (h : Breaks front back) :
    countWordFrom key before (front ++ back) =
      countWordFrom key before front + countWordFrom key (front.getLast?.or before) back := by
  induction front generalizing before with
  | nil => simp [countWordFrom]
  | cons c cs ih =>
    have hword := h.word_append (List.cons_ne_nil c cs)
    have hrest : Breaks cs back := fun b hb => h b (by
      rw [List.getLast?_cons, Option.mem_def.1 hb]
      rfl)
    have hlast : (c :: cs).getLast?.or before = cs.getLast?.or (some c) := by
      rw [List.getLast?_cons]
      cases cs.getLast? <;> rfl
    rw [List.cons_append] at hword ⊢
    rw [countWordFrom, countWordFrom, hword, ih hrest, hlast, Nat.add_assoc]

/-- The words of a text that breaks are counted in its two parts. -/
theorem countWord_append (h : Breaks front back) :
    countWord key (front ++ back) = countWord key front + countWord key back := by
  rw [countWord, countWordFrom_append h, Option.or_none]
  refine congrArg _ (countWordFrom_congr fun c hc => ?_)
  cases hlast : front.getLast? with
  | none => rfl
  | some b =>
    rcases h b hlast c hc with hb | hc
    · simp [beginsWord, hb]
    · simp [beginsWord, hc]

theorem countWord_of_forall (h : ∀ c ∈ text, isWordChar c = false) : countWord key text = 0 :=
  countWord_eq_zero_iff.2 (hasWordFrom_of_forall h)

theorem countWord_of_blank {gap : List Char} (h : blank gap = true) : countWord key gap = 0 :=
  countWord_of_forall fun c hc => isWordChar_of_isBlank (List.all_eq_true.1 h c hc)

/-- White space between two texts counts nothing and keeps their words apart. -/
theorem countWord_gap {gap : List Char} (hne : gap ≠ []) (hblank : blank gap = true) :
    countWord key (front ++ (gap ++ back)) = countWord key front + countWord key back := by
  have hlast : ∀ c ∈ gap.getLast?, isWordChar c = false := last_of_blank hne hblank []
  rw [countWord_append (breaks_of_head (head_of_gap hne hblank back)),
    countWord_append (breaks_of_last hlast), countWord_of_blank hblank, Nat.zero_add]

/-- A text of one word counts as that word. -/
theorem countWord_token {token : List Char} (hne : token ≠ [])
    (h : ∀ c ∈ token, isWordChar c = true) :
    countWord key token = if token.map fold = key.toList then 1 else 0 := by
  have hinside : ∀ (text : List Char) (b : Char), isWordChar b = true →
      (∀ c ∈ text, isWordChar c = true) → countWordFrom key.toList (some b) text = 0 := by
    intro text b hb htext
    induction text generalizing b with
    | nil => rfl
    | cons c text ih =>
      have hbegins : beginsWord (some b) c = false := by simp [beginsWord, hb]
      rw [countWordFrom, hbegins, ih c (htext c (by simp)) fun d hd =>
        htext d (List.mem_cons_of_mem c hd)]
      rfl
  obtain ⟨c, token, rfl⟩ := List.exists_cons_of_ne_nil hne
  have hc := h c (by simp)
  have hbegins : beginsWord none c = true := by simp [beginsWord, hc]
  have hword : (word (c :: token)).1 = c :: token := List.takeWhile_eq_self_iff.2 h
  rw [countWord, countWordFrom, hbegins, hword, Bool.true_and,
    hinside token c hc fun d hd => h d (List.mem_cons_of_mem c hd), Nat.add_zero]
  simp only [beq_iff_eq]

end AskSql.Text
