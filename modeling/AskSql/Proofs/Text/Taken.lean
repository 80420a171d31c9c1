import AskSql.Proofs.Idiom.Names

/-! What the steps of a scanner have taken when they succeed, and where the words of a text stand.
A step that returns a rest has taken the text before it.  Joining two texts makes no word and breaks
none if a word does not run from the one into the other. -/

namespace AskSql.Text

variable {text front back rest token : List Char}

/-! ### What a step takes -/

theorem keywordChars?_eq_some {key : List Char} (h : keywordChars? key text = some rest) :
    ∃ token, text = token ++ rest ∧ token.map fold = key := by
  induction key generalizing text with
  | nil => exact ⟨[], Option.some.inj h, rfl⟩
  | cons k key ih =>
    cases text with
    | nil => contradiction
    | cons c text =>
      rw [keywordChars?] at h
      split at h
      · rename_i hfold
        obtain ⟨token, rfl, rfl⟩ := ih h
        exact ⟨c :: token, rfl, by rw [List.map_cons, hfold]⟩
      · contradiction

theorem blanks?_eq_some (h : blanks? text = some rest) :
    ∃ gap, text = gap ++ rest ∧ gap ≠ [] ∧ blank gap = true := by
  cases text with
  | nil => contradiction
  | cons c cs =>
    rw [blanks?] at h
    split at h
    · rename_i hblank
      obtain rfl : trimStart cs = rest := Option.some.inj h
      refine ⟨c :: cs.takeWhile isBlank, ?_, by simp, ?_⟩
      · rw [List.cons_append, trimStart, List.takeWhile_append_dropWhile]
      · rw [blank, List.all_cons, hblank, Bool.true_and, List.all_eq_true]
        exact fun d hd => List.mem_takeWhile_imp hd
    · contradiction

theorem char?_eq_some {x : Char} (h : char? x text = some rest) : text = x :: rest := by
  cases text with
  | nil => contradiction
  | cons c cs =>
    rw [char?] at h
    split at h
    · rename_i heq
      rw [heq, Option.some.inj h]
    · contradiction

theorem digits?_eq_some {n : List Char} (h : digits? text = some (n, rest)) :
    text = n ++ rest ∧ n ≠ [] ∧ (∀ c ∈ n, isDecimalDigit c = true) ∧
      ∀ c ∈ rest.head?, isDecimalDigit c = false := by
  simp only [digits?, run?] at h
  split at h
  · contradiction
  · rename_i hne
    obtain ⟨rfl, rfl⟩ := Prod.mk.inj (Option.some.inj h)
    exact ⟨List.takeWhile_append_dropWhile.symm, by simpa using hne,
      fun c hc => List.mem_takeWhile_imp hc, head_dropWhile⟩

theorem exists_trimStart (text : List Char) :
    ∃ gap, text = gap ++ trimStart text ∧ blank gap = true :=
  ⟨text.takeWhile isBlank, List.takeWhile_append_dropWhile.symm,
    List.all_eq_true.2 fun _ hc => List.mem_takeWhile_imp hc⟩

theorem exists_trimEnd (text : List Char) :
    ∃ gap, text = trimEnd text ++ gap ∧ blank gap = true := by
  obtain ⟨gap, hgap, hblank⟩ := exists_trimStart text.reverse
  refine ⟨gap.reverse, ?_, by rwa [blank, List.all_reverse]⟩
  rw [← List.reverse_inj, hgap, List.reverse_append, List.reverse_reverse, trimEnd,
    List.reverse_reverse, trimStart]

theorem exists_trim (text : List Char) :
    ∃ gap gap', text = gap ++ trim text ++ gap' ∧ blank gap = true ∧ blank gap' = true := by
  obtain ⟨gap, hgap, hblank⟩ := exists_trimStart text
  obtain ⟨gap', hgap', hblank'⟩ := exists_trimEnd (trimStart text)
  exact ⟨gap, gap', by rw [trim, List.append_assoc, ← hgap', ← hgap], hblank, hblank'⟩

theorem mem_dropWhile_of_mem {p : Char → Bool} {c : Char} (hmem : c ∈ text) (hc : p c = false) :
    c ∈ text.dropWhile p := by
  rw [← @List.takeWhile_append_dropWhile _ p text] at hmem
  rcases List.mem_append.1 hmem with htaken | hleft
  · rw [List.mem_takeWhile_imp htaken] at hc
    contradiction
  · exact hleft

theorem mem_trim_of_mem {c : Char} (hmem : c ∈ text) (hc : isBlank c = false) : c ∈ trim text := by
  rw [Text.trim, trimEnd, List.mem_reverse]
  exact mem_dropWhile_of_mem (List.mem_reverse.2 (mem_dropWhile_of_mem hmem hc)) hc

/-! ### Where words stand -/

/-- No word runs from `front` into `back`. -/
def Breaks (front back : List Char) : Prop :=
  ∀ b ∈ front.getLast?, ∀ c ∈ back.head?, isWordChar b = false ∨ isWordChar c = false

theorem breaks_of_last (h : ∀ b ∈ front.getLast?, isWordChar b = false) : Breaks front back :=
  fun b hb _ _ => Or.inl (h b hb)

theorem breaks_of_head (h : ∀ c ∈ back.head?, isWordChar c = false) : Breaks front back :=
  fun _ _ c hc => Or.inr (h c hc)

/-- The word at the front of a text ends where the text breaks. -/
theorem Breaks.word_append (h : Breaks front back) (hne : front ≠ []) :
    (word (front ++ back)).1 = (word front).1 := by
  simp only [Text.word, List.takeWhile_append]
  split
  · rename_i hlength
    have hall := (List.takeWhile_prefix (l := front) isWordChar).eq_of_length hlength
    have hlast : isWordChar (front.getLast hne) = true :=
      List.takeWhile_eq_self_iff.1 hall _ (List.getLast_mem hne)
    have hstop : back.takeWhile isWordChar = [] := by
      cases back with
      | nil => rfl
      | cons c cs =>
        rcases h _ (List.getLast?_eq_some_getLast hne) c rfl with hb | hc
        · rw [hlast] at hb
          contradiction
        · rw [List.takeWhile_cons_of_neg (by simp [hc])]
    rw [hstop, List.append_nil, hall]
  · rfl

theorem hasWordFrom_congr {key : List Char} {before before' : Option Char}
    (h : ∀ c ∈ text.head?, beginsWord before c = beginsWord before' c) :
    hasWordFrom key before text = hasWordFrom key before' text := by
  cases text with
  | nil => rfl
  | cons c cs => rw [hasWordFrom, hasWordFrom, h c rfl]

/-- The words of a text that breaks are those of its two parts. -/
theorem hasWordFrom_append_of_breaks {key : List Char} {before : Option Char}
    (h : Breaks front back) :
    hasWordFrom key before (front ++ back) =
      (hasWordFrom key before front || hasWordFrom key (front.getLast?.or before) back) := by
  induction front generalizing before with
  | nil => rfl
  | cons c cs ih =>
    have hword := h.word_append (List.cons_ne_nil c cs)
    have hrest : Breaks cs back := fun b hb => h b (by
      rw [List.getLast?_cons, Option.mem_def.1 hb]
      rfl)
    have hlast : (c :: cs).getLast?.or before = cs.getLast?.or (some c) := by
      rw [List.getLast?_cons]
      cases cs.getLast? <;> rfl
    rw [List.cons_append] at hword ⊢
    rw [hasWordFrom, hasWordFrom, hword, ih hrest, hlast, Bool.or_assoc]

theorem hasWord_append {key : String} (h : Breaks front back) :
    hasWord key (front ++ back) = (hasWord key front || hasWord key back) := by
  rw [hasWord, hasWordFrom_append_of_breaks h, Option.or_none]
  refine congrArg _ (hasWordFrom_congr fun c hc => ?_)
  cases hlast : front.getLast? with
  | none => rfl
  | some b =>
    rcases h b hlast c hc with hb | hc
    · simp [beginsWord, hb]
    · simp [beginsWord, hc]

/-- A text has each word that begins in it. -/
theorem hasWordFrom_of_beginsWord {before : Option Char} {c : Char}
    (h : beginsWord (front.getLast?.or before) c = true) :
    hasWordFrom ((word (c :: back)).1.map fold) before (front ++ c :: back) = true := by
  induction front generalizing before with
  | nil =>
    have hbegins : beginsWord before c = true := by simpa using h
    rw [List.nil_append, hasWordFrom, hbegins]
    simp
  | cons d cs ih =>
    have hlast : (d :: cs).getLast?.or before = cs.getLast?.or (some d) := by
      rw [List.getLast?_cons]
      cases cs.getLast? <;> rfl
    rw [List.cons_append, hasWordFrom, ih (hlast ▸ h), Bool.or_true]

/-- A keyword in letters is a word of the text it stands alone in. -/
theorem hasWord_of_keyword {key : String} (hletters : ∀ c ∈ key.toList, c.isAlpha = true)
    (hne : key.toList ≠ []) (htoken : token.map fold = key.toList)
    (hbefore : ∀ b ∈ front.getLast?, isWordChar b = false)
    (hafter : ∀ c ∈ back.head?, isWordChar c = false) :
    hasWord key (front ++ (token ++ back)) = true := by
  have htokenNe : token ≠ [] := by
    rintro rfl
    exact hne htoken.symm
  have hchars : ∀ c ∈ token, isWordChar c = true := fun c hc =>
    Idiom.isWordChar_of_foldsToLetter (hletters _ (htoken ▸ List.mem_map_of_mem hc))
  have hfirst : hasWord key (token ++ back) = true := by
    rw [hasWord, Idiom.hasWordFrom_append _ htokenNe hchars (by simp) hafter, htoken]
    simp
  rw [hasWord_append (breaks_of_last hbefore), hfirst, Bool.or_true]

/-- White space holds no word. -/
theorem hasWordFrom_of_forall {key : List Char} {before : Option Char}
    (h : ∀ c ∈ text, isWordChar c = false) : hasWordFrom key before text = false := by
  induction text generalizing before with
  | nil => rfl
  | cons c cs ih =>
    rw [hasWordFrom, beginsWord, h c (by simp), ih fun d hd => h d (List.mem_cons_of_mem c hd)]
    rfl

/-- A text in which nothing stands for the first letter of a word lacks the word. -/
theorem hasWordFrom_of_forall_fold {key : List Char} {before : Option Char} {k : Char}
    (hk : k ∈ key.head?) (h : ∀ c ∈ text, fold c ≠ k) : hasWordFrom key before text = false := by
  obtain ⟨ks, rfl⟩ := List.head?_eq_some_iff.1 hk
  induction text generalizing before with
  | nil => rfl
  | cons c text ih =>
    have hfirst : ((word (c :: text)).1.map fold == k :: ks) = false := by
      rw [beq_eq_false_iff_ne, word, List.takeWhile_cons]
      split
      · simp [h c (by simp)]
      · simp
    rw [hasWordFrom, hfirst, Bool.and_false, Bool.false_or]
    exact ih fun d hd => h d (List.mem_cons_of_mem c hd)

theorem last_append (hfront : ∀ c ∈ front.getLast?, isWordChar c = false)
    (hback : ∀ c ∈ back.getLast?, isWordChar c = false) :
    ∀ c ∈ (front ++ back).getLast?, isWordChar c = false := by
  intro c hc
  rw [List.getLast?_append, Option.mem_def, Option.or_eq_some_iff] at hc
  rcases hc with hc | ⟨-, hc⟩
  · exact hback c hc
  · exact hfront c hc

theorem last_of_blank {gap : List Char} (hne : gap ≠ []) (hblank : blank gap = true)
    (front : List Char) : ∀ c ∈ (front ++ gap).getLast?, isWordChar c = false := by
  intro c hc
  rw [List.getLast?_append, List.getLast?_eq_some_getLast hne, Option.some_or] at hc
  obtain rfl := Option.some.inj hc
  exact isWordChar_of_isBlank (List.all_eq_true.1 hblank _ (List.getLast_mem hne))

theorem head_of_gap {gap : List Char} (hne : gap ≠ []) (hblank : blank gap = true)
    (rest : List Char) : ∀ c ∈ (gap ++ rest).head?, isWordChar c = false := by
  intro c hc
  rw [List.head?_append, List.head?_eq_some_head hne, Option.some_or] at hc
  obtain rfl := Option.some.inj hc
  exact isWordChar_of_isBlank (List.all_eq_true.1 hblank _ (List.head_mem hne))

end AskSql.Text
