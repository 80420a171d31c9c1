import AskSql.Proofs.Vocabulary.Normal

/-! Normal forms of terms.  A text is its own normal form exactly if single spaces are its only
white space, none of them at an end, it is in small letters, no letter of it has a final form, and
it does not begin with the definite article unless that is all of it.  Every term has a normal form
of this kind, so bringing it into normal form twice is the same as once.  No later step undoes an
earlier one: small letters are no white space and have no small letters of their own, an ordinary
form is a small letter, and behind an article that is dropped begins a text whose white space is as
it was. -/

namespace AskSql.Text

variable {c : Char} {cs front : List Char}

/-! ### Single spaces -/

/-- A text without white space but for single spaces between its characters. -/
inductive Spaced : List Char → Prop
  | single {c : Char} (hc : isBlank c = false) : Spaced [c]
  | cons {c : Char} {cs : List Char} (hc : isBlank c = false) (hcs : Spaced cs) : Spaced (c :: cs)
  | gap {c : Char} {cs : List Char} (hc : isBlank c = false) (hcs : Spaced cs) :
    Spaced (c :: ' ' :: cs)

theorem Spaced.head (h : Spaced cs) : ∃ c ∈ cs.head?, isBlank c = false := by
  cases h with
  | single hc | cons hc | gap hc => exact ⟨_, rfl, hc⟩

theorem Spaced.ne_nil (h : Spaced cs) : cs ≠ [] := by
  cases h <;> exact List.cons_ne_nil _ _

theorem Spaced.last (h : Spaced cs) : ∃ c ∈ cs.getLast?, isBlank c = false := by
  induction h with
  | single hc => exact ⟨_, rfl, hc⟩
  | cons _ hcs ih | gap _ hcs ih =>
    obtain ⟨c, hlast, hc⟩ := ih
    exact ⟨c, by simp [List.getLast?_cons, Option.mem_def.1 hlast], hc⟩

theorem Spaced.eq_space (h : Spaced cs) (hmem : c ∈ cs) (hc : isBlank c = true) : c = ' ' := by
  induction h with
  | single hd => simp_all
  | cons hd _ ih =>
    rcases List.mem_cons.1 hmem with rfl | hmem
    · simp [hc] at hd
    · exact ih hmem
  | gap hd _ ih =>
    rcases List.mem_cons.1 hmem with rfl | hmem
    · simp [hc] at hd
    · exact (List.mem_cons.1 hmem).elim id ih

/-- No two spaces follow one another. -/
theorem Spaced.not_infix (h : Spaced cs) : ¬[' ', ' '] <:+: cs := by
  have hspace : isBlank ' ' = true := rfl
  induction h with
  | single hc => simp [List.infix_cons_iff]
  | cons hc _ ih =>
    rw [List.infix_cons_iff, not_or]
    refine ⟨fun hfront => ?_, ih⟩
    obtain rfl := (List.cons_prefix_cons.1 hfront).1
    simp [hspace] at hc
  | gap hc hcs ih =>
    obtain ⟨d, hd, hink⟩ := hcs.head
    rw [List.infix_cons_iff, List.infix_cons_iff, not_or, not_or]
    refine ⟨fun hfront => ?_, fun hfront => ?_, ih⟩
    · obtain rfl := (List.cons_prefix_cons.1 hfront).1
      simp [hspace] at hc
    · obtain ⟨rest, hrest⟩ := (List.cons_prefix_cons.1 hfront).2
      rw [← hrest] at hd
      obtain rfl : ' ' = d := Option.some.inj hd
      simp [hspace] at hink

/-- What these facts say of a text is all that there is to it. -/
theorem spaced_of_forall : {cs : List Char} → cs ≠ [] → (∀ c ∈ cs.head?, isBlank c = false) →
    (∀ c ∈ cs.getLast?, isBlank c = false) → (∀ c ∈ cs, isBlank c = true → c = ' ') →
    ¬[' ', ' '] <:+: cs → Spaced cs
  | [], hne, _, _, _, _ => absurd rfl hne
  | [c], _, hhead, _, _, _ => .single (hhead c rfl)
  | c :: d :: cs, _, hhead, hlast, hspace, hsingle => by
    have hlast' : ∀ e ∈ (d :: cs).getLast?, isBlank e = false := by simpa using hlast
    have hspace' : ∀ e ∈ d :: cs, isBlank e = true → e = ' ' := fun e he =>
      hspace e (List.mem_cons_of_mem c he)
    have hsingle' : ¬[' ', ' '] <:+: d :: cs :=
      fun h => hsingle (h.trans (List.suffix_cons c _).isInfix)
    cases hd : isBlank d with
    | false =>
      exact .cons (hhead c rfl)
        (spaced_of_forall (List.cons_ne_nil d cs) (by simp [hd]) hlast' hspace' hsingle')
    | true =>
      obtain rfl := hspace' d (by simp) hd
      have hne : cs ≠ [] := by
        rintro rfl
        simp [hd] at hlast'
      -- a second space would follow the first
      have hnext : ∀ e ∈ cs.head?, isBlank e = false := by
        intro e he
        cases hblank : isBlank e with
        | false => rfl
        | true =>
          obtain ⟨rest, rfl⟩ := List.head?_eq_some_iff.1 he
          obtain rfl := hspace' e (by simp) hblank
          exact absurd ⟨[], rest, rfl⟩ hsingle'
      refine .gap (hhead c rfl) (spaced_of_forall hne hnext ?_ ?_ ?_)
      · intro e he
        exact hlast' e (by simp [List.getLast?_cons, Option.mem_def.1 he])
      · exact fun e he => hspace' e (List.mem_cons_of_mem _ he)
      · exact fun h => hsingle' (h.trans (List.suffix_cons ' ' cs).isInfix)

theorem Spaced.append (hfront : ∀ c ∈ front, isBlank c = false) (h : Spaced cs) :
    Spaced (front ++ cs) := by
  induction front with
  | nil => exact h
  | cons c front ih =>
    exact .cons (hfront c (by simp)) (ih fun d hd => hfront d (List.mem_cons_of_mem c hd))

theorem spaced_of_ink (hne : front ≠ []) (hfront : ∀ c ∈ front, isBlank c = false) :
    Spaced front := by
  rw [← List.dropLast_concat_getLast hne]
  exact .append (fun c hc => hfront c (List.dropLast_subset front hc))
    (.single (hfront _ (List.getLast_mem hne)))

theorem Spaced.append_gap (hne : front ≠ []) (hfront : ∀ c ∈ front, isBlank c = false)
    (h : Spaced cs) : Spaced (front ++ ' ' :: cs) := by
  rw [← List.dropLast_concat_getLast hne, List.append_assoc]
  exact .append (fun c hc => hfront c (List.dropLast_subset front hc))
    (.gap (hfront _ (List.getLast_mem hne)) h)

/-! ### Words -/

theorem spaced_intercalate {words : List (List Char)} (hne : words ≠ [])
    (h : ∀ word ∈ words, word ≠ [] ∧ ∀ c ∈ word, isBlank c = false) :
    Spaced ([' '].intercalate words) := by
  induction words with
  | nil => exact absurd rfl hne
  | cons first rest ih =>
    obtain ⟨hfirst, hink⟩ := h first (by simp)
    cases rest with
    | nil => simpa using spaced_of_ink hfirst hink
    | cons second rest =>
      rw [List.intercalate_cons_cons, List.append_assoc, List.singleton_append]
      exact .append_gap hfirst hink
        (ih (List.cons_ne_nil second rest) fun word hword => h word (List.mem_cons_of_mem _ hword))

theorem spaced_collapse (h : blank cs = false) : Spaced (collapse cs) := by
  have hne : words cs ≠ [] := by simp [words, wordsFrom_eq_nil_iff, h]
  exact spaced_intercalate hne fun word hword => mem_wordsFrom (by simp) hword

/-- The words of a text with single spaces, joined by single spaces, are the text. -/
theorem Spaced.intercalate_wordsFrom (h : Spaced cs) (word : List Char) :
    [' '].intercalate (wordsFrom word cs) = word.reverse ++ cs := by
  induction h generalizing word with
  | single hc => simp [wordsFrom, hc]
  | @cons c cs hc _ ih =>
    rw [wordsFrom, hc, if_neg (by simp), ih, List.reverse_cons, List.append_assoc,
      List.singleton_append]
  | @gap c cs hc hcs ih =>
    have hne : wordsFrom [] cs ≠ [] := by
      intro hnil
      have heq := ih []
      rw [hnil] at heq
      exact hcs.ne_nil heq.symm
    obtain ⟨next, rest, hwords⟩ := List.exists_cons_of_ne_nil hne
    have hrest : [' '].intercalate (next :: rest) = cs := by simpa [hwords] using ih []
    have hspace : isBlank ' ' = true := rfl
    rw [wordsFrom, hc, if_neg (by simp), wordsFrom, hspace, if_pos rfl, if_neg (by simp), hwords,
      List.intercalate_cons_cons, hrest]
    simp

theorem Spaced.collapse_eq (h : Spaced cs) : collapse cs = cs :=
  h.intercalate_wordsFrom []

/-! ### Small letters -/

/-- `c` is its own small letter, whatever stands around it. -/
def IsSmall (c : Char) : Prop :=
  c ≠ 'Σ' ∧ lowerChar c = [c]

instance (c : Char) : Decidable (IsSmall c) :=
  inferInstanceAs (Decidable (_ ∧ _))

/-- Whether no code point from `low` to `high`, in steps of `step`, is a capital letter of a run.
As the runs are in increasing order, the search may stop at the first that begins above. -/
def noCapitals (low high step : Nat) : List CaseRun → Bool
  | [] => true
  | run :: runs =>
    Nat.blt high run.first ||
      (Nat.blt run.last low ||
          (run.step == 2 && (step == 2 || low == high) && (low + run.first) % 2 == 1)) &&
        noCapitals low high step runs

theorem lowerIn_eq_none {low high step n : Nat} {runs : List CaseRun}
    (h : noCapitals low high step runs = true) (hlow : low ≤ n) (hhigh : n ≤ high)
    (hstep : (n - low) % step = 0) : lowerIn n runs = none := by
  induction runs with
  | nil => rfl
  | cons run runs ih =>
    rw [noCapitals, Bool.or_eq_true, Bool.and_eq_true] at h
    rw [lowerIn]
    split
    · rfl
    · rename_i hfirst
      obtain ⟨hrun, hrest⟩ := h.resolve_left (by simp only [Nat.blt_eq]; omega)
      split
      · rename_i hlast
        have hodd := (Bool.or_eq_true_iff.1 hrun).resolve_left (by simp only [Nat.blt_eq]; omega)
        simp only [Bool.and_eq_true, Bool.or_eq_true, beq_iff_eq] at hodd
        obtain ⟨⟨htwo, hsingle⟩, hparity⟩ := hodd
        have heven : (n - low) % 2 = 0 := by
          rcases hsingle with rfl | rfl
          · exact hstep
          · omega
        rw [htwo, if_neg (by omega)]
        exact ih hrest
      · exact ih hrest

/-- The first small letter of a run of capitals. -/
def CaseRun.low (run : CaseRun) : Nat :=
  (run.first + run.offset).toNat

/-- The last small letter of a run of capitals. -/
def CaseRun.high (run : CaseRun) : Nat :=
  (run.last + run.offset).toNat

theorem lowercaseRuns_noCapitals :
    (lowercaseRuns.all fun run => noCapitals run.low run.high run.step lowercaseRuns) = true := by
  decide +kernel

/-- The small letters outside ASCII are outside it, but for the one of the Kelvin sign, and the
dotted capital I is none of them. -/
theorem lowercaseRuns_bounds : ∀ run ∈ lowercaseRuns,
    (run.first = run.last ∧ run.first + run.offset = 'k'.toNat) ∨
      (128 ≤ run.first + run.offset ∧
        (run.last + run.offset < '\u0130'.toNat ∨ '\u0130'.toNat < run.first + run.offset)) := by
  decide +kernel

/-- A small letter has no small letter of its own in the table. -/
theorem lowerIn_lowerIn {m n : Nat} (h : lowerIn m lowercaseRuns = some n) :
    lowerIn n lowercaseRuns = none := by
  obtain ⟨run, hrun, hfirst, hlast, hstep, hn⟩ := exists_of_lowerIn h
  have hpositive : 0 ≤ run.first + run.offset := by
    rcases lowercaseRuns_bounds run hrun with ⟨-, heq⟩ | ⟨hle, -⟩ <;> omega
  have hdiff : n - run.low = m - run.first := by
    rw [CaseRun.low]
    omega
  refine lowerIn_eq_none (List.all_eq_true.1 lowercaseRuns_noCapitals run hrun) ?_ ?_ ?_
  · rw [CaseRun.low]
    omega
  · rw [CaseRun.high]
    omega
  · rw [hdiff, hstep]

theorem isSmall_of_lowerIn {m n : Nat} (h : lowerIn m lowercaseRuns = some n) :
    IsSmall (Char.ofNat n) := by
  unfold Char.ofNat
  by_cases hvalid : n.isValidChar
  · rw [dif_pos hvalid]
    have hcode : (Char.ofNatAux n hvalid).toNat = n := rfl
    have hagain := lowerIn_lowerIn h
    obtain ⟨r, hr, hfirst, hlast, -, hn⟩ := exists_of_lowerIn h
    have hbounds := lowercaseRuns_bounds r hr
    have hk : 'k'.toNat = 107 := rfl
    have hdotted : '\u0130'.toNat = 0x130 := rfl
    generalize Char.ofNatAux n hvalid = c at hcode
    refine ⟨?_, ?_⟩
    · rintro rfl
      rw [← hcode] at hagain
      exact absurd hagain (by decide +kernel)
    · rw [lowerChar]
      split
      · have hck : c.toNat = 107 := by omega
        rw [← Char.ofNat_toNat c, hck]
        rfl
      · split
        · rename_i hc
          rw [hc, hdotted] at hcode
          omega
        · rw [hcode, hagain]
  · rw [dif_neg hvalid]
    decide

/-- What a character becomes in small letters is in small letters. -/
theorem isSmall_of_mem_lowerBetween {before after : List Char} {d : Char}
    (h : d ∈ lowerBetween before c after) : IsSmall d := by
  rw [lowerBetween] at h
  split at h
  · split at h <;>
    · obtain rfl := List.mem_singleton.1 h
      decide
  · rename_i hsigma
    rw [lowerChar] at h
    split at h
    · rename_i hlow
      obtain rfl := List.mem_singleton.1 h
      have hall : ∀ n < 128, IsSmall (Char.ofNat n).toLower := by decide +kernel
      have hsmall := hall c.toNat hlow
      rwa [Char.ofNat_toNat] at hsmall
    · rename_i hlow
      split at h
      · have hall : ∀ d ∈ ['i', '\u0307'], IsSmall d := by decide
        exact hall d h
      · rename_i hdotted
        split at h
        · rename_i n hn
          obtain rfl := List.mem_singleton.1 h
          exact isSmall_of_lowerIn hn
        · rename_i hnone
          obtain rfl := List.mem_singleton.1 h
          exact ⟨hsigma, by rw [lowerChar, if_neg hlow, if_neg hdotted, hnone]⟩

theorem isSmall_of_mem_lowercaseFrom {before : List Char} (h : c ∈ lowercaseFrom before cs) :
    IsSmall c := by
  induction cs generalizing before with
  | nil => simp [lowercaseFrom] at h
  | cons d cs ih =>
    rw [lowercaseFrom_cons] at h
    exact (List.mem_append.1 h).elim isSmall_of_mem_lowerBetween ih

theorem lowercaseFrom_of_isSmall {before : List Char} (h : ∀ c ∈ cs, IsSmall c) :
    lowercaseFrom before cs = cs := by
  induction cs generalizing before with
  | nil => rfl
  | cons c cs ih =>
    obtain ⟨hsigma, hlower⟩ := h c (by simp)
    rw [lowercaseFrom_cons, lowerBetween, if_neg hsigma, hlower,
      ih fun d hd => h d (List.mem_cons_of_mem c hd), List.singleton_append]

/-- The white space of a text stays where it is when its letters become small. -/
theorem Spaced.lowercaseFrom (h : Spaced cs) (before : List Char) :
    Spaced (lowercaseFrom before cs) := by
  induction h generalizing before with
  | @single c hc =>
    obtain ⟨hne, hink⟩ := lowerBetween_ink hc before []
    rw [lowercaseFrom_cons, Text.lowercaseFrom, List.append_nil]
    exact spaced_of_ink hne hink
  | cons hc _ ih =>
    rw [lowercaseFrom_cons]
    exact .append (lowerBetween_ink hc ..).2 (ih _)
  | gap hc _ ih =>
    obtain ⟨hne, hink⟩ := lowerBetween_ink hc before _
    have hspace : isBlank ' ' = true := rfl
    rw [lowercaseFrom_cons, lowercaseFrom_cons, lowerBetween_of_isBlank hspace]
    exact .append_gap hne hink (ih _)

end AskSql.Text

namespace AskSql.Vocabulary

open Text

variable {c : Char} {cs : List Char} {dropped : Bool}

/-! ### Letters with a final form -/

/-- The final forms of letters. -/
def finalForms : List Char :=
  ['ך', 'ם', 'ן', 'ף', 'ץ']

theorem ordinaryForm_not_mem (c : Char) : ordinaryForm c ∉ finalForms := by
  unfold ordinaryForm
  split
  case h_6 h1 h2 h3 h4 h5 =>
    simp only [finalForms, List.mem_cons, List.not_mem_nil, or_false, not_or]
    exact ⟨h1, h2, h3, h4, h5⟩
  all_goals decide

theorem ordinaryForm_of_not_mem (h : c ∉ finalForms) : ordinaryForm c = c := by
  unfold ordinaryForm
  split <;> first | rfl | exact absurd (by decide) h

theorem isSmall_ordinaryForm (h : IsSmall c) : IsSmall (ordinaryForm c) := by
  unfold ordinaryForm
  split <;> first | exact h | decide

theorem spaced_map_ordinaryForm (h : Spaced cs) : Spaced (cs.map ordinaryForm) := by
  induction h with
  | single hc => exact .single (by simpa using hc)
  | cons hc _ ih => exact .cons (by simpa using hc) ih
  | gap hc _ ih => exact .gap (by simpa using hc) ih

/-! ### Articles -/

theorem stripArticles_suffix (dropped : Bool) (cs : List Char) :
    stripArticles dropped cs <:+ cs := by
  induction cs generalizing dropped with
  | nil => exact List.suffix_refl _
  | cons c cs ih =>
    rw [stripArticles]
    split
    · exact (ih true).trans (List.suffix_cons c cs)
    · split
      · exact (ih true).trans (List.suffix_cons c cs)
      · exact List.suffix_refl _

theorem spaced_stripArticles (h : Spaced cs) (dropped : Bool) :
    Spaced (stripArticles dropped cs) := by
  induction h generalizing dropped with
  | single hc =>
    rw [stripArticles, hc, Bool.and_false, if_neg (by simp), if_neg (by simp)]
    exact .single hc
  | cons hc hcs ih =>
    rw [stripArticles, hc, Bool.and_false, if_neg (by simp)]
    split
    · exact ih true
    · exact .cons hc hcs
  | gap hc hcs ih =>
    have hspace : isBlank ' ' = true := rfl
    rw [stripArticles, hc, Bool.and_false, if_neg (by simp)]
    split
    · rw [stripArticles, hspace, Bool.and_true, if_pos rfl]
      exact ih true
    · exact .gap hc hcs

/-- An article at the front is left only if it is all that is left. -/
theorem stripArticles_of_head (h : article ∈ (stripArticles dropped cs).head?) :
    stripArticles dropped cs = [article] := by
  induction cs generalizing dropped with
  | nil => simp [stripArticles] at h
  | cons c cs ih =>
    rw [stripArticles] at h ⊢
    split at h
    · rename_i hblank
      rw [if_pos hblank]
      exact ih h
    · rename_i hblank
      rw [if_neg hblank]
      split at h
      · rename_i harticle
        rw [if_pos harticle]
        exact ih h
      · rename_i hlast
        obtain rfl : c = article := Option.some.inj h
        have hnil : cs = [] := by simpa using hlast
        rw [if_neg hlast, hnil]

theorem stripArticles_eq_self (h : article ∈ cs.head? → cs = [article]) :
    stripArticles false cs = cs := by
  cases cs with
  | nil => rfl
  | cons c cs =>
    have hkeep : ¬(c = article ∧ cs ≠ []) := by
      rintro ⟨rfl, hne⟩
      exact hne (List.cons.inj (h rfl)).2
    rw [stripArticles, Bool.false_and, if_neg (by simp), if_neg hkeep]

/-! ### Normal forms -/

/-- A text is in normal form: it has single spaces between its words and no other white space, it is
in small letters, no letter of it is a final form, and the article begins it only if it is all of
it. -/
structure IsNormal (cs : List Char) : Prop where
  head : ∀ c ∈ cs.head?, isBlank c = false
  last : ∀ c ∈ cs.getLast?, isBlank c = false
  spaces : ∀ c ∈ cs, isBlank c = true → c = ' '
  single : ¬[' ', ' '] <:+: cs
  small : lowercase cs = cs
  forms : ∀ c ∈ cs, c ∉ finalForms
  article : article ∈ cs.head? → cs = [article]

theorem isNormal_of_spaced (h : Spaced cs) (hsmall : ∀ c ∈ cs, IsSmall c)
    (hforms : ∀ c ∈ cs, c ∉ finalForms) (harticle : article ∈ cs.head? → cs = [article]) :
    IsNormal cs where
  head c hc := by
    obtain ⟨d, hd, hink⟩ := h.head
    obtain rfl : d = c := Option.some.inj (hd.symm.trans hc)
    exact hink
  last c hc := by
    obtain ⟨d, hd, hink⟩ := h.last
    obtain rfl : d = c := Option.some.inj (hd.symm.trans hc)
    exact hink
  spaces _ hmem hc := h.eq_space hmem hc
  single := h.not_infix
  small := lowercaseFrom_of_isSmall hsmall
  forms := hforms
  article := harticle

theorem isNormal_nil : IsNormal [] :=
  ⟨nofun, nofun, nofun, by simp, rfl, nofun, nofun⟩

theorem isNormal_normalChars (cs : List Char) : IsNormal (normalChars cs) := by
  cases hblank : blank cs with
  | true =>
    rw [normalChars_eq_nil_iff.2 hblank]
    exact isNormal_nil
  | false =>
    have hspaced : Spaced ((lowercase (collapse cs)).map ordinaryForm) :=
      spaced_map_ordinaryForm ((spaced_collapse hblank).lowercaseFrom [])
    have hchars : ∀ c ∈ normalChars cs, IsSmall c ∧ c ∉ finalForms := by
      intro c hc
      obtain ⟨d, hd, rfl⟩ := List.mem_map.1 ((stripArticles_suffix false _).mem hc)
      exact ⟨isSmall_ordinaryForm (isSmall_of_mem_lowercaseFrom hd), ordinaryForm_not_mem d⟩
    exact isNormal_of_spaced (spaced_stripArticles hspaced false) (fun c hc => (hchars c hc).1)
      (fun c hc => (hchars c hc).2) stripArticles_of_head

/-- The texts in normal form are those that are their own normal forms. -/
theorem normalChars_eq_self_iff : normalChars cs = cs ↔ IsNormal cs := by
  refine ⟨fun h => h ▸ isNormal_normalChars cs, fun h => ?_⟩
  have hcollapse : collapse cs = cs := by
    by_cases hne : cs = []
    · rw [hne]
      rfl
    · exact (spaced_of_forall hne h.head h.last h.spaces h.single).collapse_eq
  have hforms : cs.map ordinaryForm = cs := by
    rw [List.map_congr_left fun c hc => ordinaryForm_of_not_mem (h.forms c hc), List.map_id']
  rw [normalChars, hcollapse, h.small, hforms, stripArticles_eq_self h.article]

/-- The normal form of a term is in normal form, and so is its own; it is empty exactly if the term
is blank. -/
theorem normalize_isNormal (term : String) :
    normalize (normalize term) = normalize term ∧
    (normalize term = "" ↔ isBlankText term = true) ∧
    IsNormal (normalize term).toList := by
  have hnormal : IsNormal (normalize term).toList := by
    rw [normalize, String.toList_ofList]
    exact isNormal_normalChars _
  refine ⟨?_, ?_, hnormal⟩
  · rw [normalize, normalChars_eq_self_iff.2 hnormal, String.ofList_toList]
  · rw [← normalize_isEmpty, String.isEmpty_iff]

end AskSql.Vocabulary
