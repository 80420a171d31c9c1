import AskSql.Proofs.Sql.Piece

/-! Names that need no quotes, as pieces of a statement.  Written out or not, such a name ends a
statement with no limit, and unless it reads as a limit itself it begins a projection with none. -/

namespace AskSql

open Text Idiom RowLimit Sql

variable {dialect : Dialect}

/-! ### Names -/

namespace Idiom

/-- A number that stands in no word ends the word before it and begins no limit. -/
theorem stops_of_mark {c : Char} (hplain : isPlainChar c = true) (hmark : isWordChar c = false)
    (rest : List Char) : Stops (c :: rest) c where
  head := rfl
  letter := by
    cases hc : (fold c).isAlpha with
    | false => rfl
    | true => simp [isWordChar_of_foldsToLetter hc] at hmark
  digit := by
    rw [isPlainChar, Bool.or_eq_true, beq_iff_eq] at hplain
    rcases hplain with halpha | rfl
    · exact isDecimalDigit_of_isAlphanumeric halpha hmark
    · exact absurd hmark (by decide)
  opening := by
    rintro rfl
    exact not_punctuation_of_isPlainChar hplain (by simp)
  next hblank := by simp [isBlank_of_isPlainChar hplain] at hblank

namespace WritesOut

variable {busy : Bool} {text new : List Char}

theorem new_ne_nil (h : WritesOut dialect busy text new) (hne : text ≠ []) : new ≠ [] := by
  cases h with
  | nil => contradiction
  | mark => simp
  | word hword => simp [hword]
  | @clock _ clock =>
    obtain ⟨-, -, -, -, hlast⟩ := renderClock_chars dialect clock
    have hclock := List.ne_nil_of_mem (List.mem_of_getLast? hlast)
    simp [hclock]

/-- The last word of a name that has been written out is the name, or has a parenthesis in it. -/
theorem lastWord (h : WritesOut dialect busy text new) :
    (∀ c ∈ new, isBlank c = false ∧ c ≠ ';') ∨
      ∃ front token, new = front ++ token ∧ (∀ c ∈ token, isBlank c = false ∧ c ≠ ';') ∧
        ∃ c ∈ token, isDecimalDigit c = false := by
  have hchar : ∀ {c}, isPlainChar c = true → isBlank c = false ∧ c ≠ ';' := fun hplain =>
    ⟨isBlank_of_isPlainChar hplain, ne_of_isPlainChar hplain (by decide +kernel)⟩
  have hword : ∀ {word new : List Char}, (∀ c ∈ word, isPlainChar c = true) →
      ((∀ c ∈ new, isBlank c = false ∧ c ≠ ';') ∨
        ∃ front token, new = front ++ token ∧ (∀ c ∈ token, isBlank c = false ∧ c ≠ ';') ∧
          ∃ c ∈ token, isDecimalDigit c = false) →
      ((∀ c ∈ word ++ new, isBlank c = false ∧ c ≠ ';') ∨
        ∃ front token, word ++ new = front ++ token ∧
          (∀ c ∈ token, isBlank c = false ∧ c ≠ ';') ∧ ∃ c ∈ token, isDecimalDigit c = false) := by
    rintro word new hplain (hall | ⟨front, token, rfl, htoken⟩)
    · refine Or.inl fun c hc => ?_
      rcases List.mem_append.1 hc with hc | hc
      · exact hchar (hplain c hc)
      · exact hall c hc
    · exact Or.inr ⟨word ++ front, token, by simp, htoken⟩
  induction h with
  | nil => exact Or.inl (by simp)
  | @mark _ c _ _ hplain _ _ ih => exact @hword [c] _ (by simpa using hplain) ih
  | word _ _ hplain _ _ _ ih => exact hword hplain ih
  | @clock _ clock word text new _ _ _ _ _ ih =>
    obtain ⟨-, -, -, -, hlast⟩ := renderClock_chars dialect clock
    obtain ⟨front, hfront⟩ := List.getLast?_eq_some_iff.1 hlast
    rcases ih with hall | ⟨more, token, rfl, htoken⟩
    · refine Or.inr ⟨front, ')' :: new, by simp [hfront], ?_, ')', by simp, by decide⟩
      intro c hc
      rcases List.mem_cons.1 hc with rfl | hc
      · decide
      · exact hall c hc
    · exact Or.inr ⟨renderClock dialect clock ++ more, token, by simp, htoken⟩

theorem unlimited (h : WritesOut dialect busy text new) (hne : text ≠ []) : Unlimited new := by
  rcases h.lastWord with hall | ⟨front, token, rfl, htoken, hdigit⟩
  · exact unlimited_of_forall (h.new_ne_nil hne) hall
  · intro before _
    rw [← List.append_assoc]
    exact trailingLimit?_of_token htoken hdigit

/-- No clock begins as one of the keywords behind `SELECT` does. -/
theorem keyword?_renderClock (dialect : Dialect) (clock : Clock) (rest : List Char) :
    keyword? "distinct" (renderClock dialect clock ++ rest) = none ∧
      keyword? "top" (renderClock dialect clock ++ rest) = none := by
  cases dialect <;> cases clock <;> exact ⟨rfl, rfl⟩

theorem untopped (h : WritesOut dialect busy text new) (hne : text ≠ [])
    (htop : isTopNumber text = false) : Untopped new := by
  intro after x hx
  cases h with
  | nil => contradiction
  | @mark busy c text new hplain hmark h =>
    have hblank := isBlank_of_isPlainChar hplain
    refine @Stops.toLimit_of_word [] _ c (stops_of_mark hplain hmark (new ++ after)) (by simp)
      ⟨c, rfl, hblank⟩ fun hstop => ?_
    rcases hstop with hstop | rfl
    · simp [hblank] at hstop
    · exact absurd hplain (by decide +kernel)
  | @word busy word text new hword hchars hplain hstop hclock h =>
    have hstart : ∀ rest, ∃ c ∈ (word ++ rest).head?, isBlank c = false := fun rest => by
      obtain ⟨c, cs, rfl⟩ := List.exists_cons_of_ne_nil hword
      exact ⟨c, rfl, isBlank_of_isPlainChar (hplain c (by simp))⟩
    cases text with
    | nil =>
      rw [List.append_nil] at htop
      rw [h.new_eq_nil, List.append_nil]
      exact hx.toLimit_of_word hchars (hstart _) fun _ => htop
    | cons c text =>
      have hmark := hstop c rfl
      have hmarkPlain := h.plain c (by simp)
      obtain ⟨new, rfl⟩ := List.head?_eq_some_iff.1 (h.head?_eq hstop)
      rw [List.append_assoc]
      refine (stops_of_mark hmarkPlain hmark (new ++ after)).toLimit_of_word hchars (hstart _)
        fun hstop => ?_
      rcases hstop with hstop | rfl
      · simp [isBlank_of_isPlainChar hmarkPlain] at hstop
      · exact absurd hmarkPlain (by decide +kernel)
  | @clock busy clock word text new =>
    rw [List.append_assoc]
    obtain ⟨hdistinct, htopNone⟩ := keyword?_renderClock dialect clock (new ++ after)
    refine toLimit_of_notTop ?_ hdistinct htopNone
    cases dialect <;> cases clock <;> exact ⟨_, rfl, by decide⟩

end WritesOut

end Idiom

namespace Sql

/-- A name that needs no quotes and is not `TOP` with a number behind it. -/
structure PlainName (dialect : Dialect) (name : String) : Prop where
  plain : isPlainPart name.toList = true
  unreserved : isReserved dialect name.toList = false
  notTop : isTopNumber name.toList = false

instance (dialect : Dialect) (name : String) : Decidable (PlainName dialect name) :=
  decidable_of_iff
    (isPlainPart name.toList = true ∧ isReserved dialect name.toList = false ∧
      isTopNumber name.toList = false)
    ⟨fun h => ⟨h.1, h.2.1, h.2.2⟩, fun h => ⟨h.plain, h.unreserved, h.notTop⟩⟩

namespace PlainName

variable {name : String} (h : PlainName dialect name)
include h

theorem chars : ∀ c ∈ name.toList, isPlainChar c = true := by
  have hplain := h.plain
  simp only [isPlainPart, Bool.and_eq_true, List.all_eq_true] at hplain
  exact hplain.1.2

theorem ne_nil : name.toList ≠ [] := by
  have hplain := h.plain
  simp only [isPlainPart, Bool.and_eq_true, Bool.not_eq_true', List.isEmpty_eq_false_iff] at hplain
  exact hplain.1.1

/-- A plain name stands in a statement as it is. -/
theorem escape_eq : (escapeIdentifier dialect name).toList = name.toList := by
  have hdot : '.' ∉ name.toList := fun hmem =>
    not_punctuation_of_isPlainChar (h.chars _ hmem) (by simp)
  rw [escapeIdentifier, String.toList_ofList, escapeChars, List.splitOn_eq_singleton hdot]
  simp [escapePart, h.plain, h.unreserved]

theorem exists_writesOut : WritesOut dialect (hasClock name.toList) name.toList
    (writtenOut dialect name.toList) := by
  obtain ⟨busy, new, hout⟩ := Idiom.exists_writesOut dialect name.toList h.chars
  have hbusy : busy = hasClock name.toList :=
    @WritesOut.busy_eq _ _ _ _ none hout (Or.inr (by simp))
  have hnew : writtenOut dialect name.toList = new := hout.clocks.rewriteWords_eq
  rwa [hnew, ← hbusy]

theorem shown : Shown dialect [name] (escapeIdentifier dialect name).toList := by
  have hout := h.exists_writesOut
  rw [h.escape_eq]
  refine ⟨⟨⟨hout.clocks, ⟨hout.clocks_self, hout.calls_self, hout.calm⟩,
    reads_of_not_mem fun hmem => not_punctuation_of_isPlainChar (h.chars _ hmem) (by simp),
    fun hidle => hout.eq_of_not_busy (hidle name (by simp)), hout.count_le.1, ?_⟩,
    fun _ => hout.unlimited h.ne_nil⟩, hout.untopped h.ne_nil h.notTop⟩
  rintro ⟨other, hother, hclock⟩
  obtain rfl := List.mem_singleton.1 hother
  exact hout.count_le.2 hclock

end PlainName

end Sql

end AskSql
