import AskSql.Proofs.Text.Case
import AskSql.Vocabulary.Normal

/-! A term has an empty normal form exactly if it is blank.  The last word of a term ends in a
character that is no white space, its small letters are none either, and of the articles at the
front only those are dropped that something follows. -/

namespace AskSql.Text

variable {c : Char} {cs word : List Char}

/-! ### Words -/

/-- The words of a text are not empty, and no white space stands in them. -/
theorem mem_wordsFrom {before : List Char} (hbefore : ∀ c ∈ before, isBlank c = false)
    (h : word ∈ wordsFrom before cs) : word ≠ [] ∧ ∀ c ∈ word, isBlank c = false := by
  induction cs generalizing before with
  | nil =>
    rw [wordsFrom] at h
    split at h
    · simp at h
    · obtain rfl := List.mem_singleton.1 h
      simp_all
  | cons c cs ih =>
    rw [wordsFrom] at h
    split at h
    · split at h
      · exact ih (by simp) h
      · rcases List.mem_cons.1 h with rfl | h
        · simp_all
        · exact ih (by simp) h
    · rename_i hc
      refine ih ?_ h
      intro d hd
      rcases List.mem_cons.1 hd with rfl | hd
      · simpa using hc
      · exact hbefore d hd

/-- A text has words unless it is blank. -/
theorem wordsFrom_eq_nil_iff {before : List Char} :
    wordsFrom before cs = [] ↔ before = [] ∧ blank cs = true := by
  induction cs generalizing before with
  | nil => cases before <;> simp [wordsFrom, blank]
  | cons c cs ih =>
    rw [wordsFrom]
    cases hc : isBlank c with
    | true => cases before <;> simp [ih, blank, hc]
    | false => simp [ih, blank, hc]

theorem wordsFrom_append_blank {before rest : List Char} (h : blank rest = true) :
    wordsFrom before (cs ++ rest) = wordsFrom before cs := by
  induction cs generalizing before with
  | nil =>
    induction rest generalizing before with
    | nil => rfl
    | cons c rest ih =>
      obtain ⟨hc, hrest⟩ : isBlank c = true ∧ blank rest = true := by simpa [blank] using h
      have htail : wordsFrom [] rest = [] := ih hrest
      show wordsFrom before (c :: rest) = wordsFrom before []
      cases before <;> simp [wordsFrom, hc, htail]
  | cons c cs ih => simp only [List.cons_append, wordsFrom, ih]

theorem words_blank_append {rest : List Char} (h : blank cs = true) :
    words (cs ++ rest) = words rest := by
  induction cs with
  | nil => rfl
  | cons c cs ih =>
    obtain ⟨hc, hcs⟩ : isBlank c = true ∧ blank cs = true := by simpa [blank] using h
    show wordsFrom [] (c :: (cs ++ rest)) = _
    rw [wordsFrom, if_pos hc]
    exact ih hcs

/-- White space at the ends of a text is part of no word. -/
theorem words_trim (cs : List Char) : words (trim cs) = words cs := by
  have hblank : ∀ text : List Char, blank (text.takeWhile isBlank) = true := fun _ =>
    List.all_takeWhile
  have hstart : words (trimStart cs) = words cs := by
    calc words (trimStart cs) = words (cs.takeWhile isBlank ++ trimStart cs) :=
          (words_blank_append (hblank cs)).symm
      _ = words cs := by rw [trimStart, List.takeWhile_append_dropWhile]
  have hend : ∀ text : List Char, words (trimEnd text) = words text := fun text => by
    have hrest : blank (text.reverse.takeWhile isBlank).reverse = true := by
      rw [blank, List.all_reverse]
      exact hblank text.reverse
    calc words (trimEnd text) = words (trimEnd text ++ (text.reverse.takeWhile isBlank).reverse) :=
          (wordsFrom_append_blank hrest).symm
      _ = words text := by
          rw [trimEnd, ← List.reverse_append, List.takeWhile_append_dropWhile, List.reverse_reverse]
  rw [trim, hend, hstart]

/-- Joined words end as the last of them does. -/
theorem getLast?_intercalate_blank {words : List (List Char)} (hne : words ≠ [])
    (h : ∀ word ∈ words, word ≠ []) :
    ∃ word ∈ words, ([' '].intercalate words).getLast? = word.getLast? := by
  induction words with
  | nil => exact absurd rfl hne
  | cons first rest ih =>
    cases rest with
    | nil => exact ⟨first, by simp, by simp⟩
    | cons second rest =>
      obtain ⟨word, hword, hlast⟩ :=
        ih (by simp) fun word hword => h word (List.mem_cons_of_mem _ hword)
      refine ⟨word, List.mem_cons_of_mem _ hword, ?_⟩
      obtain ⟨c, hc⟩ : ∃ c, word.getLast? = some c :=
        Option.isSome_iff_exists.1 (by simpa using h word (List.mem_cons_of_mem _ hword))
      rw [List.intercalate_cons_cons, List.getLast?_append, hlast, hc]
      rfl

theorem collapse_eq_nil_of_blank (h : blank cs = true) : collapse cs = [] := by
  rw [collapse, words, wordsFrom_eq_nil_iff.2 ⟨rfl, h⟩]
  rfl

/-- What is left of a text that is not blank ends in a character that is no white space. -/
theorem collapse_last (h : blank cs = false) :
    ∃ c ∈ (collapse cs).getLast?, isBlank c = false := by
  have hne : words cs ≠ [] := by
    simp [words, wordsFrom_eq_nil_iff, h]
  have hword := fun word (hmem : word ∈ words cs) => mem_wordsFrom (by simp) hmem
  obtain ⟨word, hmem, hlast⟩ := getLast?_intercalate_blank hne fun word hmem => (hword word hmem).1
  obtain ⟨hne, hink⟩ := hword word hmem
  refine ⟨word.getLast hne, ?_, hink _ (List.getLast_mem hne)⟩
  rw [collapse, hlast, List.getLast?_eq_some_getLast hne]
  rfl

/-! ### Small letters -/

/-- The small letter of a code point comes from one of the runs. -/
theorem exists_of_lowerIn {m n : Nat} {runs : List CaseRun} (h : lowerIn m runs = some n) :
    ∃ run ∈ runs, run.first ≤ m ∧ m ≤ run.last ∧ (m - run.first) % run.step = 0 ∧
      n = (m + run.offset).toNat := by
  induction runs with
  | nil => simp [lowerIn] at h
  | cons run runs ih =>
    have hrest (h : lowerIn m runs = some n) :
        ∃ r ∈ run :: runs, r.first ≤ m ∧ m ≤ r.last ∧ (m - r.first) % r.step = 0 ∧
          n = (m + r.offset).toNat := by
      obtain ⟨r, hr, hbounds⟩ := ih h
      exact ⟨r, List.mem_cons_of_mem _ hr, hbounds⟩
    rw [lowerIn] at h
    split at h
    · contradiction
    · split at h
      · split at h
        · rename_i hfirst hlast hstep
          exact ⟨run, by simp, by omega, hlast, hstep, (Option.some.inj h).symm⟩
        · exact hrest h
      · exact hrest h

/-- No run of capitals has white space among its small letters. -/
theorem lowercaseRuns_apart : ∀ run ∈ lowercaseRuns, ∀ n ∈ blankCodes,
    n < run.first + run.offset ∨ run.last + run.offset < n := by
  decide +kernel

theorem isBlank_of_lowerIn {m n : Nat} (h : lowerIn m lowercaseRuns = some n) :
    isBlank (Char.ofNat n) = false := by
  cases hb : isBlank (Char.ofNat n) with
  | false => rfl
  | true =>
    exfalso
    have hcode := toNat_mem_blankCodes hb
    obtain ⟨run, hrun, hfirst, hlast, -, hn⟩ := exists_of_lowerIn h
    have hzero : 0 ∉ blankCodes := by decide
    unfold Char.ofNat at hcode
    by_cases hvalid : n.isValidChar
    · rw [dif_pos hvalid] at hcode
      have hcode : n ∈ blankCodes := hcode
      have hpos : n ≠ 0 := fun h0 => hzero (h0 ▸ hcode)
      rcases lowercaseRuns_apart run hrun n hcode with hlt | hlt <;> omega
    · rw [dif_neg hvalid] at hcode
      exact hzero hcode

/-- A character that is no white space has small letters, none of them white space. -/
theorem lowerChar_ink (h : isBlank c = false) :
    lowerChar c ≠ [] ∧ ∀ d ∈ lowerChar c, isBlank d = false := by
  rw [lowerChar]
  split
  · rename_i hlow
    have hall : ∀ n < 128, isBlank (Char.ofNat n).toLower = isBlank (Char.ofNat n) := by
      decide +kernel
    have hlower := hall c.toNat hlow
    rw [Char.ofNat_toNat, h] at hlower
    simpa using hlower
  · split
    · exact ⟨by simp, by decide⟩
    · split
      · rename_i n hn
        simpa using isBlank_of_lowerIn hn
      · simpa using h

theorem lowerBetween_ink (h : isBlank c = false) (before after : List Char) :
    lowerBetween before c after ≠ [] ∧ ∀ d ∈ lowerBetween before c after, isBlank d = false := by
  rw [lowerBetween]
  split
  · split
    · exact ⟨by simp, by decide⟩
    · exact ⟨by simp, by decide⟩
  · exact lowerChar_ink h

/-- The small letters of a text begin with no white space if the text does not. -/
theorem lowercaseFrom_head {before : List Char} (h : ∃ c ∈ cs.head?, isBlank c = false) :
    ∃ c ∈ (lowercaseFrom before cs).head?, isBlank c = false := by
  cases cs with
  | nil => simp at h
  | cons c cs =>
    obtain ⟨d, hd, hink⟩ := h
    obtain rfl : c = d := by simpa using hd
    obtain ⟨hne, hall⟩ := lowerBetween_ink hink before cs
    refine ⟨_, ?_, hall _ (List.head_mem hne)⟩
    rw [lowercaseFrom_cons, List.head?_append, List.head?_eq_some_head hne, Option.some_or,
      Option.mem_def]

/-- The small letters of a text end in no white space if the text does not. -/
theorem lowercaseFrom_last {before : List Char} (h : ∃ c ∈ cs.getLast?, isBlank c = false) :
    ∃ c ∈ (lowercaseFrom before cs).getLast?, isBlank c = false := by
  induction cs generalizing before with
  | nil => simp at h
  | cons c cs ih =>
    cases cs with
    | nil =>
      obtain ⟨d, hd, hink⟩ := h
      obtain rfl : c = d := by simpa using hd
      obtain ⟨hne, hall⟩ := lowerBetween_ink hink before []
      rw [lowercaseFrom_cons, lowercaseFrom, List.append_nil]
      exact ⟨_, List.getLast?_eq_some_getLast hne, hall _ (List.getLast_mem hne)⟩
    | cons d cs =>
      obtain ⟨e, he, hink⟩ := @ih (c :: before) (by simpa using h)
      refine ⟨e, ?_, hink⟩
      rw [lowercaseFrom, List.getLast?_append, Option.mem_def.1 he]
      rfl

end AskSql.Text

namespace AskSql.Vocabulary

open Text

@[simp] theorem isBlank_ordinaryForm (c : Char) : isBlank (ordinaryForm c) = isBlank c := by
  unfold ordinaryForm
  split <;> rfl

/-- Dropping articles leaves something of a text that ends in no white space. -/
theorem stripArticles_ne_nil {dropped : Bool} {cs : List Char}
    (h : ∃ c ∈ cs.getLast?, isBlank c = false) : stripArticles dropped cs ≠ [] := by
  induction cs generalizing dropped with
  | nil => simp at h
  | cons c cs ih =>
    rw [stripArticles]
    split
    · rename_i hblank
      cases cs with
      | nil =>
        obtain ⟨d, hd, hink⟩ := h
        obtain rfl : c = d := by simpa using hd
        simp [hink] at hblank
      | cons d cs => exact ih (by simpa using h)
    · split
      · rename_i harticle
        obtain ⟨d, cs, rfl⟩ := List.exists_cons_of_ne_nil harticle.2
        exact ih (by simpa using h)
      · exact List.cons_ne_nil c cs

theorem normalChars_eq_nil_iff {cs : List Char} : normalChars cs = [] ↔ blank cs = true := by
  rw [normalChars]
  cases hblank : blank cs with
  | true => simp [collapse_eq_nil_of_blank hblank, lowercase, lowercaseFrom, stripArticles]
  | false =>
    obtain ⟨c, hc, hink⟩ := @lowercaseFrom_last _ [] (collapse_last hblank)
    have hne : stripArticles false ((lowercase (collapse cs)).map ordinaryForm) ≠ [] :=
      stripArticles_ne_nil
        ⟨ordinaryForm c, by simp [lowercase, Option.mem_def.1 hc], by simpa using hink⟩
    simpa using hne

@[simp] theorem normalize_trimmed (term : String) : normalize (trimmed term) = normalize term := by
  simp only [normalize, normalChars, trimmed, String.toList_ofList, collapse, words_trim]

/-- A term has an empty normal form exactly if it is blank. -/
@[simp] theorem normalize_isEmpty (term : String) :
    (normalize term).isEmpty = isBlankText term := by
  rw [Bool.eq_iff_iff, isBlankText, ← normalChars_eq_nil_iff, String.isEmpty_iff, normalize]
  simp

end AskSql.Vocabulary
