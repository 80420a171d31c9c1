import AskSql.Proofs.Translate.Amounts
import AskSql.Proofs.Translate.Untouched

/-! Intervals whose unit is a word that names none, such as `DAY_HOUR`.  A call leaves its interval
as it is, since the interval is read there to its end.  A sum does not look at what follows the
letters of a unit, so that it takes `DAY` for the unit and writes a shift with the rest of the word
behind it. -/

namespace AskSql

open Text Sql Idiom

namespace Idiom

variable {dialect : Dialect} {number word front text unit unit' : List Char} {back : Bool} {n : Int}
  {f : List Char → Option (List Char × Nat)}

/-! ### Words that are no units -/

/-- A word that names no unit. -/
structure OtherUnit (word : List Char) : Prop where
  ne_nil : word ≠ []
  chars : ∀ c ∈ word, isWordChar c = true
  unknown : TimeUnit.ofText? word = none

theorem calm_of_isWordChar (h : ∀ c ∈ text, isWordChar c = true) : Calm text :=
  calm_of_forall fun c hc => by
    have hword := h c hc
    refine ⟨?_, ?_, ?_⟩ <;> (rintro rfl; exact absurd hword (by decide))

namespace OtherUnit

variable (h : OtherUnit word)
include h

theorem head : ∃ c ∈ word.head?, isWordChar c = true :=
  ⟨_, List.head?_eq_some_head h.ne_nil, h.chars _ (List.head_mem h.ne_nil)⟩

theorem isArg : IsArg word where
  closed := closed_of_not_isMark fun c hc => isMark_of_isWordChar (h.chars c hc)
  trimmed := trimmed_of_forall h.ne_nil fun c hc => isBlank_of_isWordChar (h.chars c hc)

end OtherUnit

/-- `INTERVAL` and a number, and the white space before the unit. -/
inductive IntervalFront (number : List Char) : List Char → Prop
  | intro {keyword : List Char} (hkeyword : Keyword "interval" keyword) (gap gap' : List Char)
      (hgap : blank gap = true) (hne : gap ≠ []) (hgap' : blank gap' = true) (hne' : gap' ≠ []) :
      IntervalFront number (keyword ++ gap ++ number ++ gap')

/-- A sign before an interval, up to the unit. -/
inductive AddendFront (number : List Char) : (back : Bool) → List Char → Prop
  | intro {sign : Char} {interval : List Char} (hsign : sign = '+' ∨ sign = '-')
    (gap gap' : List Char)
      (hgap : ∀ c ∈ gap, isAsciiBlank c = true) (hgap' : blank gap' = true)
      (h : IntervalFront number interval) :
      AddendFront number (sign == '-') (gap ++ sign :: (gap' ++ interval))

/-- The letters at the front of `unit`, as far as they go, name no unit. -/
def Unread (unit : List Char) : Prop :=
  TimeUnit.ofText? (unit.takeWhile foldsToLetter) = none

/-- Letters that name a unit are letters of ASCII. -/
theorem isWord_of_ofText? {known : TimeUnit} (hletters : ∀ c ∈ word, foldsToLetter c = true)
    (h : TimeUnit.ofText? word = some known) : IsWord word := by
  have hne : word ≠ [] := by
    rintro rfl
    contradiction
  refine ⟨hne, fun c hc => ?_⟩
  rw [TimeUnit.ofText?, unitKey_of_isWordChar hne
    fun c hc => isWordChar_of_foldsToLetter (hletters c hc)] at h
  obtain ⟨before, after, hsplit, -⟩ := List.lookup_eq_some_iff.1 h
  have hall : ∀ entry ∈ TimeUnit.spellings, ∀ c ∈ entry.1.toList, c.isAlpha = true := by decide
  have hkey := hall (String.ofList (lowerAscii word), known) (by rw [hsplit]; simp)
  rw [String.toList_ofList] at hkey
  rw [← isAlpha_toLower]
  exact hkey _ (List.mem_map_of_mem hc)

/-! ### Intervals up to the unit -/

/-- What stands between words stays, and the text behind it is rewritten as it is by itself. -/
theorem rewrites_between_append {gap : List Char} (hne : gap ≠ [])
    (hgap : ∀ c ∈ gap, isWordChar c = false ∧ c ≠ '\'' ∧ isAnchored (some c) = true)
    (h : Rewrites f unit unit') : Rewrites f (gap ++ unit) (gap ++ unit') := by
  intro before rest _ hapart
  have hfree : Free (gap.getLast?.or before) unit := by
    rw [List.getLast?_eq_some_getLast hne, Option.some_or]
    intro b hb _ _ _
    obtain rfl := Option.some.inj hb
    obtain ⟨hword, -, hanchored⟩ := hgap _ (List.getLast_mem hne)
    exact ⟨hword, hanchored⟩
  have hapartUnit : Apart unit rest := by
    intro c hc
    exact hapart c (by simp [List.getLast?_append, Option.mem_def.1 hc])
  rw [List.append_assoc, rewriteWordsFrom_between (fun c hc => ⟨(hgap c hc).1, (hgap c hc).2.1⟩),
    h _ rest hfree hapartUnit, List.getLast?_append, Option.or_assoc, List.append_assoc]

theorem between_of_blank {gap : List Char} (hgap : blank gap = true) :
    ∀ c ∈ gap, isWordChar c = false ∧ c ≠ '\'' ∧ isAnchored (some c) = true := by
  intro c hc
  have hblank : isBlank c = true := List.all_eq_true.1 hgap c hc
  exact ⟨isWordChar_of_isBlank hblank, not_quote_of_isBlank hblank, isAnchored_of_isBlank hblank⟩

namespace IntervalFront

variable (h : IntervalFront number front) (hnumber : IsNumber number)
include h hnumber

theorem mute : Mute front := by
  obtain ⟨hkeyword, gap, gap', hgap, -, hgap', -⟩ := h
  exact (((hkeyword.mute (by decide)).append (mute_of_blank hgap)).append hnumber.mute).append
    (mute_of_blank hgap')

omit hnumber in
theorem head : ∃ c ∈ front.head?, isWordChar c = true := by
  obtain ⟨hkeyword, gap, gap', -, -, -, -⟩ := h
  rename_i keyword
  have hne := hkeyword.ne_nil (by decide)
  obtain ⟨c, keyword, rfl⟩ := List.exists_cons_of_ne_nil hne
  refine ⟨c, rfl, ?_⟩
  exact hkeyword.forall_mem (p := fun c => isWordChar c = true)
    (fun _ => isWordChar_of_foldsToLetter) (fun c hc => Or.inl (by revert c; decide)) c (by simp)

/-- An interval is rewritten as its unit is. -/
theorem rewrites (hf : Selective f) (hhead : ∃ c ∈ unit.head?, isWordChar c = true)
    (hunit : Rewrites f unit unit') : Rewrites f (front ++ unit) (front ++ unit') := by
  obtain ⟨hkeyword, gap, gap', hgap, hne, hgap', hne'⟩ := h
  rename_i keyword
  have hmute : Mute (keyword ++ gap ++ number) :=
    ((hkeyword.mute (by decide)).append (mute_of_blank hgap)).append hnumber.mute
  obtain ⟨d, hd, hblank⟩ := hnumber.trimmed.last
  have hquiet : Quiet (keyword ++ gap ++ number) := by
    refine hmute.toTame.quiet hmute.calls ⟨d, ?_, hblank⟩
    rw [List.getLast?_append, Option.mem_def.1 hd]
    rfl
  obtain ⟨c, hc, hword⟩ := hhead
  have hjoin : Joins (keyword ++ gap ++ number) (gap' ++ unit) := by
    obtain ⟨unit, rfl⟩ := List.head?_eq_some_iff.1 hc
    refine joins_to_blank hgap' ⟨isBlank_of_isWordChar hword, ?_⟩ (Or.inl hne')
    rintro rfl
    exact absurd hword (by decide)
  simpa using (hquiet f hf).append
    (rewrites_between_append hne' (between_of_blank hgap') hunit) hjoin

/-- The number of an interval is scanned, and the letters behind it. -/
theorem scanInterval?_eq (hhead : ∃ c ∈ unit.head?, isWordChar c = true) :
    scanInterval? (front ++ unit) = (letters? unit).map fun (letters, rest) =>
    ⟨number, letters, rest⟩ := by
  obtain ⟨hkeyword, gap, gap', hgap, hne, hgap', hne'⟩ := h
  rename_i keyword
  obtain ⟨d, hd, hdblank⟩ := hnumber.trimmed.head
  obtain ⟨c, hc, hword⟩ := hhead
  have hstart : trimStart (number ++ (gap' ++ unit)) = number ++ (gap' ++ unit) :=
    trimStart_of_head ⟨d, by simp [List.head?_append, Option.mem_def.1 hd], hdblank⟩
  have hunit : trimStart unit = unit := trimStart_of_head ⟨c, hc, isBlank_of_isWordChar hword⟩
  have hquote : char? '\'' (number ++ (gap' ++ unit)) = none := by
    refine char?_eq_none fun hquote => ?_
    have hmem : '\'' ∈ number := by
      obtain ⟨e, number, rfl⟩ := List.exists_cons_of_ne_nil hnumber.ne_nil
      obtain rfl : e = '\'' := by simpa using hquote
      simp
    exact hnumber.quote_not_mem hmem
  have hdigits : signedDigits? (number ++ (gap' ++ unit)) = some (number, gap' ++ unit) := by
    refine hnumber.signedDigits?_append fun e he => ?_
    obtain ⟨g, gap', rfl⟩ := List.exists_cons_of_ne_nil hne'
    obtain rfl : g = e := by simpa using he
    exact isDecimalDigit_of_isBlank (List.all_eq_true.1 hgap' g (by simp))
  have hsplit : keyword ++ gap ++ number ++ gap' ++ unit =
      keyword ++ (gap ++ (number ++ (gap' ++ unit))) := by simp
  rw [hsplit, scanInterval?, keyword?_append hkeyword]
  simp only [blanks?_append hne hgap, hstart, quotedAmount?, quotedBoth?, unquoted?, hquote,
    hdigits, blanks?_append hne' hgap', hunit, Option.bind_eq_bind, Option.bind_some,
    Option.bind_none, Option.pure_def]
  cases letters? unit <;> rfl

/-- A shift is not read where the letters of a unit name none. -/
theorem shiftAt?_eq_none (hhead : ∃ c ∈ unit.head?, isWordChar c = true) (hunread : Unread unit)
    {gap : List Char} (hgap : blank gap = true) (write : Idiom → Option (List Char))
    (before : List Char) (sign : Char) : shiftAt? write before sign (gap ++ (front ++ unit)) =
        none := by
  obtain ⟨c, hc, hword⟩ := h.head
  have hstart : trimStart (gap ++ (front ++ unit)) = front ++ unit := by
    rw [trimStart_append hgap]
    exact trimStart_of_head ⟨c, by simp [List.head?_append, Option.mem_def.1 hc],
      isBlank_of_isWordChar hword⟩
  have hvalue : ScannedInterval.value?
      ⟨number, unit.takeWhile foldsToLetter, unit.dropWhile foldsToLetter⟩ = none := by
    rw [Unread] at hunread
    simp [ScannedInterval.value?, hunread]
  rw [shiftAt?, hstart, h.scanInterval?_eq hnumber hhead, letters?, run?]
  split
  · rfl
  · split
    · rfl
    · simp only [Option.map_some, Option.bind_eq_bind, Option.bind_some, hvalue, Option.bind_none]

/-- An interval is not read in a call where what is given for the unit is none as a whole. -/
theorem interval?_eq_none (hhead : ∃ c ∈ unit.head?, isWordChar c = true)
    (hlast : ∃ c ∈ unit.getLast?, isBlank c = false)
    (hother : unit.dropWhile foldsToLetter = [] → TimeUnit.ofText? unit = none) :
    interval? (front ++ unit) = none := by
  obtain ⟨c, hc, hword⟩ := h.head
  obtain ⟨d, hd, hblank⟩ := hlast
  have htrim : Trimmed (front ++ unit) :=
    ⟨⟨c, by simp [List.head?_append, Option.mem_def.1 hc], isBlank_of_isWordChar hword⟩,
      ⟨d, by simp [List.getLast?_append, Option.mem_def.1 hd], hblank⟩⟩
  rw [interval?, htrim.trim_eq, h.scanInterval?_eq hnumber hhead, letters?, run?]
  split
  · rfl
  · simp only [Option.map_some, Option.bind_eq_bind, Option.bind_some, List.isEmpty_iff]
    split
    · rename_i hnil
      have hall := @List.takeWhile_append_dropWhile _ foldsToLetter unit
      rw [hnil, List.append_nil] at hall
      simp [ScannedInterval.value?, hall, hother hnil]
    · rfl

end IntervalFront

/-! ### Units that stay -/

/-- What is given for a unit, names none and is not rewritten. -/
structure StandingUnit (dialect : Dialect) (unit : List Char) : Prop extends Clean unit where
  head : ∃ c ∈ unit.head?, isWordChar c = true
  calls : ∀ operand, Rewrites (rewriteCallAt? (render dialect operand)) unit unit
  calm : Calm unit
  other : unit.dropWhile foldsToLetter = [] → TimeUnit.ofText? unit = none
  unlimited : RowLimit.Unlimited unit

theorem standingUnit_word (h : OtherUnit word) (hclock : clockKeyword? word = none) :
    StandingUnit dialect word := by
  have hquiet := quiet_word h.ne_nil h.chars hclock
  have hblank : ∀ c ∈ word, isBlank c = false := fun c hc => isBlank_of_isWordChar (h.chars c hc)
  have hmark : ∀ c ∈ word, ∀ x, isWordChar x = false → c ≠ x := by
    rintro c hc x hx rfl
    simp [h.chars c hc] at hx
  refine ⟨⟨h.isArg, fun write => hquiet _ (selective_rewriteClockAt? _)⟩, h.head,
    fun operand => hquiet _ (selective_rewriteCallAt? _), ?_, fun _ => h.unknown, ?_⟩
  · exact calm_of_forall fun c hc =>
      ⟨hmark c hc _ (by decide), hmark c hc _ (by decide), hmark c hc _ (by decide)⟩
  · exact RowLimit.unlimited_of_forall h.ne_nil fun c hc => ⟨hblank c hc, hmark c hc _ (by decide)⟩

/-- The clocks are written with a parenthesis, and their letters name no unit. -/
theorem renderClock_unread (dialect : Dialect) (clock : Clock) :
    '(' ∈ renderClock dialect clock ∧ (renderClock dialect clock).dropWhile foldsToLetter ≠ [] ∧
      Unread (renderClock dialect clock) := by
  cases dialect <;> cases clock <;> exact ⟨by decide, by decide, by rw [Unread]; decide⟩

theorem standingUnit_renderClock (dialect : Dialect) (clock : Clock) :
    StandingUnit dialect (renderClock dialect clock) := by
  have hsteady := (steadyCall_renderClock dialect clock).toSteady
  obtain ⟨-, hne, -⟩ := renderClock_unread dialect clock
  refine ⟨hsteady.clean, hsteady.head, rewrites_renderClock dialect clock, hsteady.calm,
    fun hnil => absurd hnil hne, RowLimit.unlimited_of_last ?_⟩
  cases dialect <;> cases clock <;> exact ⟨')', by decide, by decide, by decide, by decide⟩

/-! ### Calls -/

section Calls

variable {column : Column} {name : List Char} (hfront : IntervalFront number front)
  (hnumber : IsNumber number) (hname : DateFunction.ofName? name = some .addInterval)
include hfront hnumber

theorem isArg_interval (hunit : IsArg unit) : IsArg (front ++ unit) := by
  obtain ⟨c, hc, hword⟩ := hfront.head
  obtain ⟨d, hd, hblank⟩ := hunit.trimmed.last
  exact ⟨(hfront.mute hnumber).closed.append hunit.closed,
    ⟨c, by simp [List.head?_append, Option.mem_def.1 hc], isBlank_of_isWordChar hword⟩,
    ⟨d, by simp [List.getLast?_append, Option.mem_def.1 hd], hblank⟩⟩

theorem clean_interval (hunit : StandingUnit dialect unit) : Clean (front ++ unit) where
  isArg := isArg_interval hfront hnumber hunit.isArg
  clockFree write :=
    hfront.rewrites hnumber (selective_rewriteClockAt? write) hunit.head (hunit.clockFree write)

include hname

/-- A call stays whose interval has no unit. -/
theorem rewriteWithin_call (hunit : StandingUnit dialect unit)
    (htext : Written name [column.text, front ++ unit] text) (depth : Nat) :
    rewriteIntervals (render dialect (operandText dialect (rewriteWithin dialect depth)))
      (rewriteCalls (render dialect (operandText dialect (rewriteWithin dialect depth))) text) =
        text := by
  have hargs : ∀ a ∈ [column.text, front ++ unit], IsArg a := by
    simpa using ⟨column.isArg, (clean_interval hfront hnumber hunit).isArg⟩
  have hstay : ∀ a ∈ [column.text, front ++ unit], Rewrites
      (rewriteCallAt? (render dialect (operandText dialect (rewriteWithin dialect depth))))
      a a := by
    simpa using ⟨column.quiet _ (selective_rewriteCallAt? _),
      hfront.rewrites hnumber (selective_rewriteCallAt? _) hunit.head (hunit.calls _)⟩
  have hrecognise : recognise .addInterval [column.text, front ++ unit] = none := by
    rw [recognise, recogniseWith,
      hfront.interval?_eq_none hnumber hunit.head hunit.isArg.trimmed.last
      hunit.other]
    rfl
  have hcalm : ∀ a ∈ [column.text, front ++ unit], Calm a := by
    simpa using ⟨column.calm, (hfront.mute hnumber).calm.append hunit.calm⟩
  rw [rewriteCalls_written htext hname hargs (by simp) hstay, hrecognise]
  exact (calm_written htext (isName_of_ofName? hname) hcalm).rewriteIntervals_eq _

end Calls

/-! ### Clock keywords for units -/

/-- What a word is in `dialect` once its clock is written out, if it is a clock keyword. -/
def unitText (dialect : Dialect) (word : List Char) : List Char :=
  ((clockKeyword? word).map (renderClock dialect)).getD word

theorem rewrites_unitText (h : OtherUnit word) :
    Rewrites (rewriteClockAt? (renderClock dialect)) word (unitText dialect word) := by
  rw [unitText]
  cases hclock : clockKeyword? word with
  | none => exact quiet_word h.ne_nil h.chars hclock _ (selective_rewriteClockAt? _)
  | some clock => exact rewrites_clock h.chars hclock

theorem standingUnit_unitText (h : OtherUnit word) :
    StandingUnit dialect (unitText dialect word) := by
  rw [unitText]
  cases hclock : clockKeyword? word with
  | none => exact standingUnit_word h hclock
  | some clock => exact standingUnit_renderClock dialect clock

/-- A word stays exactly if it is no clock keyword. -/
theorem unitText_eq_iff (dialect : Dialect) (h : OtherUnit word) :
    unitText dialect word = word ↔ clockKeyword? word = none := by
  rw [unitText]
  cases hclock : clockKeyword? word with
  | none => simp
  | some clock =>
    obtain ⟨hopen, -, -⟩ := renderClock_unread dialect clock
    have hne : renderClock dialect clock ≠ word := by
      intro heq
      have hword := h.chars '(' (heq ▸ hopen)
      exact absurd hword (by decide)
    simpa using hne

theorem letters_of_clockKeyword? {clock : Clock} (h : clockKeyword? word = some clock) :
    (word.takeWhile foldsToLetter).map fold = "current".toList := by
  have hkey : ∀ key ∈ ["current_date", "current_timestamp"],
      key.toList.takeWhile Char.isAlpha = "current".toList := by decide
  have hcomp : foldsToLetter = Char.isAlpha ∘ fold := rfl
  have hsome : (clockKeyword? word).isSome = true := by rw [h]; rfl
  rw [isSome_clockKeyword?, Bool.or_eq_true, beq_iff_eq, beq_iff_eq] at hsome
  rw [hcomp, ← List.takeWhile_map]
  rcases hsome with hword | hword
  · rw [hword]
    exact hkey _ (by simp)
  · rw [hword]
    exact hkey _ (by simp)

/-- The letters in front of a clock keyword name no unit. -/
theorem unread_of_clockKeyword? {clock : Clock} (h : clockKeyword? word = some clock) :
    Unread word := by
  have hletters := letters_of_clockKeyword? h
  cases hunit : TimeUnit.ofText? (word.takeWhile foldsToLetter) with
  | none => exact hunit
  | some unit =>
    have hword := isWord_of_ofText? (fun c hc => List.mem_takeWhile_imp hc) hunit
    have hlower : lowerAscii (word.takeWhile foldsToLetter) = "current".toList := by
      rw [← hletters, lowerAscii]
      exact List.map_congr_left fun c hc => (fold_of_isAlpha (hword.2 c hc)).symm
    rw [TimeUnit.ofText?, unitKey_of_isWordChar hword.1
      fun c hc => isWordChar_of_isAlpha (hword.2 c hc), hlower] at hunit
    have hcurrent : TimeUnit.spellings.lookup (String.ofList "current".toList) = none := by decide
    rw [hcurrent] at hunit
    contradiction

theorem unread_unitText (h : Unread word) : Unread (unitText dialect word) := by
  rw [unitText]
  cases clockKeyword? word with
  | none => exact h
  | some clock => exact (renderClock_unread dialect clock).2.2

section Calls

variable {column : Column} {name : List Char} (hfront : IntervalFront number front)
  (hnumber : IsNumber number) (hname : DateFunction.ofName? name = some .addInterval)
include hfront hnumber hname

/-- One pass over a call with an interval writes out what is given for the unit, if that is a clock
keyword, and nothing else. -/
theorem exists_translatePass_call (hunit : StandingUnit dialect unit') (hisArg : IsArg unit)
    (hhead : ∃ c ∈ unit.head?, isWordChar c = true)
    (hclocks : Rewrites (rewriteClockAt? (renderClock dialect)) unit unit')
    (htext : Written name [column.text, front ++ unit] text) :
    ∃ text', Written name [column.text, front ++ unit'] text' ∧
      rewriteClocks (renderClock dialect) text = text' ∧ translatePass dialect text = text' := by
  have hselective := selective_rewriteClockAt? (renderClock dialect)
  have hisName := isName_of_ofName? hname
  have hargs : List.Forall₂ (Rewrites (rewriteClockAt? (renderClock dialect)))
      [column.text, front ++ unit] [column.text, front ++ unit'] :=
    .cons (column.quiet _ hselective)
      (.cons (hfront.rewrites hnumber hselective hhead hclocks) .nil)
  obtain ⟨inner, hcall, -⟩ := htext.isCall hisName
    (by simpa using ⟨column.isArg, isArg_interval hfront hnumber hisArg⟩) (by simp)
  obtain ⟨text', htext', hrewrites⟩ := exists_rewrites_written htext hisName hargs fun rest => by
    obtain ⟨gap, -, hword⟩ := hcall.word_eq rest
    simp [rewriteClockAt?, clockAt?, hword, clockKeyword?_of_length (length_of_ofName? hname)]
  obtain ⟨inner', hcall', -⟩ := htext'.isCall hisName
    (by simpa using ⟨column.isArg, isArg_interval hfront hnumber hunit.isArg⟩) (by simp)
  have hwithin := rewriteWithin_call hfront hnumber hname hunit htext' (8 * text.length + 63)
  have hpass : translatePass dialect text = RowLimit.rewrite dialect
      (rewriteWithin dialect (8 * text.length + 63 + 1) text) := rfl
  rw [rewriteWithin, rewriteClocks, hrewrites.rewriteWords_eq, hwithin,
    rewriteLimit_isCall hcall' hname] at hpass
  exact ⟨text', htext', hrewrites.rewriteWords_eq, hpass⟩

omit hnumber hfront in
/-- A call whose arguments stay has no clock keyword to write out. -/
theorem rewriteClocks_call (hcolumn : Clean (front ++ unit))
    (htext : Written name [column.text, front ++ unit] text) :
    rewriteClocks (renderClock dialect) text = text := by
  have hclean : Clean text :=
    clean_written htext (isName_of_ofName? hname) (length_of_ofName? hname)
    (by simpa using ⟨⟨column.isArg, column.clockFree⟩, hcolumn⟩) (by simp)
  rw [rewriteClocks, (hclean.clockFree _).rewriteWords_eq]

/-- A call with an interval of another unit keeps everything but a clock keyword for the unit. -/
theorem exists_settle_call (dialect : Dialect) (hword : OtherUnit word)
    (htext : Written name [column.text, front ++ word] text) :
    ∃ text', Written name [column.text, front ++ unitText dialect word] text' ∧
      rewriteClocks (renderClock dialect) text = text' ∧
      settle (translatePass dialect) maxPasses text = text' := by
  have hunit := @standingUnit_unitText dialect _ hword
  obtain ⟨text', htext', hrewrites, hpass⟩ := exists_translatePass_call hfront hnumber hname hunit
    hword.isArg hword.head (rewrites_unitText hword) htext
  obtain ⟨again, -, hstays, hagain⟩ := exists_translatePass_call hfront hnumber hname hunit
    hunit.isArg hunit.head (hunit.clockFree _) htext'
  obtain rfl : text' = again :=
    (rewriteClocks_call hname (clean_interval hfront hnumber hunit) htext').symm.trans hstays
  exact ⟨text', htext', hrewrites, settle_of_step hpass hagain 7⟩

/-- A call with an interval of another unit stays exactly if the unit is no clock keyword. -/
theorem settle_call_iff (hword : OtherUnit word)
    (htext : Written name [column.text, front ++ word] text) :
    settle (translatePass dialect) maxPasses text = text ↔ clockKeyword? word = none := by
  have hunit := @standingUnit_unitText dialect _ hword
  obtain ⟨text', htext', hclocks, hsettle⟩ :=
    exists_settle_call hfront hnumber hname dialect hword htext
  rw [hsettle]
  constructor
  · rintro rfl
    obtain ⟨inner, hcall, hargs, -⟩ := htext.isCall (isName_of_ofName? hname)
      (by simpa using ⟨column.isArg, isArg_interval hfront hnumber hword.isArg⟩) (by simp)
    obtain ⟨inner', hcall', hargs', -⟩ := htext'.isCall (isName_of_ofName? hname)
      (by simpa using ⟨column.isArg, isArg_interval hfront hnumber hunit.isArg⟩) (by simp)
    obtain rfl : inner = inner' := by
      simpa using hcall.callParts_eq.symm.trans hcall'.callParts_eq
    have hsame : word = unitText dialect word := by simpa using hargs.symm.trans hargs'
    exact (unitText_eq_iff dialect hword).1 hsame.symm
  · intro hclock
    have hstands : StandingUnit dialect word := standingUnit_word hword hclock
    have hclean := clean_interval hfront hnumber hstands
    exact hclocks.symm.trans (rewriteClocks_call hname hclean htext)

end Calls

/-! ### Sums -/

namespace AddendFront

variable (h : AddendFront number back front)
include h

theorem addend (word : List Char) : Addend number word back (front ++ word) := by
  obtain ⟨hsign, gap, gap', hgap, hgap', hinterval⟩ := h
  rename_i sign interval
  obtain ⟨hkeyword, blanks, blanks', hblanks, hne, hblanks', hne'⟩ := hinterval
  rename_i keyword
  have hof : IntervalOf number word (keyword ++ blanks ++ (number ++ blanks' ++ word)) :=
    .intro hkeyword blanks hblanks hne (.bare blanks' hblanks' hne')
  simpa using Addend.intro hsign gap gap' hgap hgap' hof

variable (hnumber : IsNumber number)
include hnumber

/-- A sum is rewritten as its unit is. -/
theorem rewrites (hf : Selective f) (hhead : ∃ c ∈ unit.head?, isWordChar c = true)
    (hunit : Rewrites f unit unit') : Rewrites f (front ++ unit) (front ++ unit') := by
  obtain ⟨hsign, gap, gap', hgap, hgap', hinterval⟩ := h
  rename_i sign interval
  have hbetween : ∀ c ∈ gap ++ sign :: gap', isWordChar c = false ∧ c ≠ '\'' ∧
      isAnchored (some c) = true := by
    intro c hc
    rw [List.mem_append, List.mem_cons] at hc
    rcases hc with hc | rfl | hc
    · exact between_of_blank (blank_of_isAsciiBlank hgap) c hc
    · rcases hsign with rfl | rfl <;> decide
    · exact between_of_blank hgap' c hc
  simpa using rewrites_between_append (by simp) hbetween
    (hinterval.rewrites hnumber hf hhead hunit)

/-- A sum whose unit is not read stays. -/
theorem rewriteIntervals_eq (column : Column) (hunit : StandingUnit dialect unit)
    (hunread : Unread unit) (write : Idiom → Option (List Char)) :
    rewriteIntervals write (column.text ++ (front ++ unit)) = column.text ++ (front ++ unit) := by
  obtain ⟨hsign, gap, gap', hgap, hgap', hinterval⟩ := h
  rename_i sign interval
  have hsplit : column.text ++ (gap ++ sign :: (gap' ++ interval) ++ unit) =
      (column.text ++ gap) ++ sign :: (gap' ++ (interval ++ unit)) := by simp
  have hcolumn := (column.calm.append (mute_of_blank (blank_of_isAsciiBlank hgap)).calm)
  have hrest : Calm (gap' ++ (interval ++ unit)) :=
    (mute_of_blank hgap').calm.append ((hinterval.mute hnumber).calm.append hunit.calm)
  have hshift := hinterval.shiftAt?_eq_none hnumber hunit.head hunread hgap' write
    (column.text ++ gap).reverse sign
  have hliteral : insideLiteral (sign :: (column.text ++ gap).reverse) = false := by
    have hquote : (sign == '\'') = false := by rcases hsign with rfl | rfl <;> decide
    rw [insideLiteral_cons, insideLiteral_reverse, hcolumn.quotes, hquote]
    rfl
  have hpass := rewriteIntervalsFrom_append write (hliteral ▸ hrest.signs) []
  rw [List.append_nil] at hpass
  rw [hsplit, rewriteIntervals, hcolumn.rewriteIntervalsFrom_eq, rewriteIntervalsFrom, if_pos hsign,
    hshift, hpass, rewriteIntervalsFrom]
  simp

/-- A number before a word is no limit. -/
theorem guards : ∃ before after, front = before ++ after ∧ RowLimit.Guards after := by
  obtain ⟨hsign, gap, gap', hgap, hgap', hinterval⟩ := h
  rename_i sign interval
  obtain ⟨hkeyword, blanks, blanks', hblanks, hne, hblanks', hne'⟩ := hinterval
  rename_i keyword
  obtain ⟨c, hc, hblank⟩ := hnumber.trimmed.last
  have hletter : fold c ≠ 't' := by
    intro heq
    have hchars := hnumber.chars c (List.mem_of_getLast? hc)
    obtain rfl | rfl | hdigit := hchars
    · exact absurd heq (by decide)
    · exact absurd heq (by decide)
    · rw [fold_of_isDigit hdigit] at heq
      subst heq
      exact absurd hdigit (by decide)
  exact ⟨gap ++ sign :: (gap' ++ (keyword ++ blanks)), number ++ blanks', by simp,
    RowLimit.guards_of_blank ⟨c, hc, hblank, hletter⟩ hblanks' hne'⟩

theorem rewriteLimit_eq (column : Column) (hunit : StandingUnit dialect unit) :
    RowLimit.rewrite dialect (column.text ++ (front ++ unit)) = column.text ++ (front ++ unit) := by
  have hstart := (h.addend unit).start
  obtain ⟨before, after, rfl, hguards⟩ := h.guards hnumber
  cases dialect with
  | sqlServer =>
    have hlimit := hunit.unlimited _ (hguards.prepend (column.text ++ before))
    refine RowLimit.toTop_of_trailingLimit ?_
    simpa using hlimit
  | sqlite | mySql => exact column.toLimit_sum hstart.1 hstart.2

/-- One pass over a sum whose unit is not read writes out the unit, if that is a clock keyword, and
nothing else. -/
theorem translatePass_unread (column : Column) (hunit : StandingUnit dialect unit')
    (hunread : Unread unit') (hhead : ∃ c ∈ unit.head?, isWordChar c = true)
    (hclocks : Rewrites (rewriteClockAt? (renderClock dialect)) unit unit') :
    translatePass dialect (column.text ++ (front ++ unit)) = column.text ++ (front ++ unit') := by
  have hjoins : ∀ unit, Joins column.text (front ++ unit) := fun unit => (h.addend unit).joins _
  have hfirst := (column.quiet _ (selective_rewriteClockAt? (renderClock dialect))).append
    (h.rewrites hnumber (selective_rewriteClockAt? _) hhead hclocks) (hjoins unit)
  have hsecond := fun operand => (column.quiet _
    (selective_rewriteCallAt? (render dialect operand))).append
      (h.rewrites hnumber (selective_rewriteCallAt? _) hunit.head (hunit.calls operand))
      (hjoins unit')
  rw [translatePass, rewrite, depthFor, rewriteWithin, rewriteClocks, hfirst.rewriteWords_eq,
    rewriteCalls, (hsecond _).rewriteWords_eq, h.rewriteIntervals_eq hnumber column hunit hunread,
    h.rewriteLimit_eq hnumber column hunit]

/-- A sum whose unit is not read keeps everything but a clock keyword for the unit. -/
theorem settle_unread (column : Column) (hword : OtherUnit word) (hunread : Unread word) :
    settle (translatePass dialect) maxPasses (column.text ++ (front ++ word)) =
      column.text ++ (front ++ unitText dialect word) := by
  have hunit := @standingUnit_unitText dialect _ hword
  have hunread' := @unread_unitText dialect _ hunread
  exact settle_of_step
    (h.translatePass_unread hnumber column hunit hunread' hword.head (rewrites_unitText hword))
    (h.translatePass_unread hnumber column hunit hunread' hunit.head (hunit.clockFree _)) 7

end AddendFront

/-! ### Units with more behind them -/

/-- The form of a shift is a call, with nothing between the name and the parenthesis. -/
theorem exists_shiftForm (dialect : Dialect) (unit : TimeUnit) (n : Int) (base : List Char)
    (clock : Clock) :
    ∃ name inner, shiftForm dialect unit n base clock = name ++ '(' :: inner ++ [')'] ∧
      ∀ c ∈ name, isWordChar c = true := by
  have hcall : ∀ (name : String) (args : List (List Char)),
    (∀ c ∈ name.toList, isWordChar c = true) →
      ∃ front inner, call name args = front ++ '(' :: inner ++ [')'] ∧
        ∀ c ∈ front, isWordChar c = true :=
    fun name args hname => ⟨name.toList, _, rfl, hname⟩
  cases dialect with
  | sqlite => cases unit <;> cases clock <;> exact hcall _ _ (by decide)
  | sqlServer => exact hcall "DATEADD" _ (by decide)
  | mySql => exact hcall "DATE_ADD" _ (by decide)

/-- A form of a shift with a word behind it is no statement with a row limit. -/
theorem rewriteLimit_shiftForm (dialect : Dialect) {rest : List Char}
    (hrest : ∀ c ∈ rest, isWordChar c = true)
    (unit : TimeUnit) (n : Int) (base : List Char) (clock : Clock) :
    RowLimit.rewrite dialect (shiftForm dialect unit n base clock ++ rest) =
      shiftForm dialect unit n base clock ++ rest := by
  obtain ⟨name, inner, hform, hname⟩ := exists_shiftForm dialect unit n base clock
  rw [hform]
  cases dialect with
  | sqlServer =>
    have hlimit : RowLimit.trailingLimit? ((name ++ '(' :: inner) ++ ')' :: rest) = none := by
      refine RowLimit.trailingLimit?_of_token ?_ ⟨')', by simp, by decide⟩
      intro c hc
      rcases List.mem_cons.1 hc with rfl | hc
      · decide
      · refine ⟨isBlank_of_isWordChar (hrest c hc), ?_⟩
        rintro rfl
        exact absurd (hrest _ hc) (by decide)
    refine RowLimit.toTop_of_trailingLimit ?_
    simpa using hlimit
  | sqlite | mySql =>
    have hselect := @RowLimit.select?_of_mark name (inner ++ [')'] ++ rest) '(' hname (by decide)
      (by decide)
    refine RowLimit.toLimit_of_select ?_
    simpa using hselect

section Known

variable {known : TimeUnit} (hword : OtherUnit word)
  (hknown : TimeUnit.ofText? (word.takeWhile foldsToLetter) = some known)
include hword hknown

/-- What stands behind the letters of a unit is nothing that is rewritten. -/
theorem rest_of_known : (∀ c ∈ word.dropWhile foldsToLetter, isWordChar c = true) ∧
    Quiet (word.dropWhile foldsToLetter) := by
  have hchars : ∀ c ∈ word.dropWhile foldsToLetter, isWordChar c = true :=
    fun c hc => hword.chars c ((List.dropWhile_suffix _).mem hc)
  obtain ⟨c, rest, hrest⟩ : ∃ c rest, word.dropWhile foldsToLetter = c :: rest := by
    apply List.exists_cons_of_ne_nil
    intro hnil
    have hall := @List.takeWhile_append_dropWhile _ foldsToLetter word
    rw [hnil, List.append_nil] at hall
    rw [hall, hword.unknown] at hknown
    contradiction
  have hletter : foldsToLetter c = false := head_dropWhile c (by rw [hrest]; rfl)
  rw [hrest] at hchars ⊢
  refine ⟨hchars, quiet_word (by simp) hchars ?_⟩
  cases hclock : clockKeyword? (c :: rest) with
  | none => rfl
  | some clock =>
    have hletters := letters_of_clockKeyword? hclock
    rw [List.takeWhile_cons_of_neg (by simp [hletter])] at hletters
    exact absurd hletters (by decide)

omit hword in
theorem clockKeyword?_of_known : clockKeyword? word = none := by
  cases hclock : clockKeyword? word with
  | none => rfl
  | some clock =>
    rw [unread_of_clockKeyword? hclock] at hknown
    contradiction

/-- One pass leaves a form with such a rest behind it. -/
theorem translatePass_form {column : Column} (hfits : shiftFits dialect known n back = true)
    (clock : Clock) :
    translatePass dialect (shiftForm dialect known (signed back n) column.text clock ++
        word.dropWhile foldsToLetter) =
      shiftForm dialect known (signed back n) column.text clock ++
        word.dropWhile foldsToLetter := by
  obtain ⟨hrest, hquiet⟩ := rest_of_known hword hknown
  obtain ⟨span, hspan⟩ := text_shift column hfits clock
  obtain ⟨name, inner, hform, -⟩ := exists_shiftForm dialect known (signed back n) column.text clock
  have hlimit := rewriteLimit_shiftForm dialect hrest known (signed back n) column.text clock
  have hsteady := DateTree.steady_text hspan
  generalize shiftForm dialect known (signed back n) column.text clock = form at *
  generalize word.dropWhile foldsToLetter = rest at *
  have hjoins : Joins form rest :=
    joins_of_last ⟨')', by rw [hform, List.getLast?_concat]; rfl, by decide, by decide⟩
  have hdepth : callCount form ≤ 8 * (form ++ rest).length + 63 := by
    have hle : callCount form ≤ form.length := List.count_le_length
    rw [List.length_append]
    omega
  have hclocks := (hsteady.clean.clockFree (renderClock dialect)).append
    (hquiet _ (selective_rewriteClockAt? (renderClock dialect))) hjoins
  have hcalls := (hsteady.rewrites _ hdepth).append
    (hquiet _ (selective_rewriteCallAt? _)) hjoins
  have hintervals := hsteady.calm.append (calm_of_isWordChar hrest)
  rw [translatePass, rewrite, depthFor, rewriteWithin, rewriteClocks, hclocks.rewriteWords_eq,
    rewriteCalls, hcalls.rewriteWords_eq, hintervals.rewriteIntervals_eq, hlimit]

/-- One pass over a sum whose unit begins with a known one writes the shift by that, if it fits, and
leaves the rest of the unit behind it. -/
theorem AddendFront.translatePass_known (h : AddendFront number back front)
    (hn : Numeral n number) (dialect : Dialect) (column : Column) :
    translatePass dialect (column.text ++ (front ++ word)) =
      if shiftFits dialect known n back then
        shiftForm dialect known (signed back n) column.text
          (if known.isSubDay then .now else .date) ++
          word.dropWhile foldsToLetter
      else column.text ++ (front ++ word) := by
  obtain ⟨hrest, hquiet⟩ := rest_of_known hword hknown
  have hclock := clockKeyword?_of_known hknown
  have hnumber := hn.isNumber
  have hletters : IsWord (word.takeWhile foldsToLetter) :=
    isWord_of_ofText? (fun c hc => List.mem_takeWhile_imp hc) hknown
  have haddend := h.addend (word.takeWhile foldsToLetter)
  have hstays : ∀ rewriteAt?, Selective rewriteAt? →
      rewriteWords rewriteAt? (column.text ++ (front ++ word)) =
        column.text ++ (front ++ word) := by
    intro rewriteAt? hf
    have hunit := quiet_word hword.ne_nil hword.chars hclock rewriteAt? hf
    exact ((column.quiet _ hf).append (h.rewrites hnumber hf hword.head hunit)
      ((h.addend word).joins _)).rewriteWords_eq
  have hsplit : column.text ++ (front ++ word) =
      column.text ++ (front ++ word.takeWhile foldsToLetter) ++ word.dropWhile foldsToLetter := by
    rw [List.append_assoc, List.append_assoc, List.takeWhile_append_dropWhile]
  have hword' : word.takeWhile foldsToLetter ++ word.dropWhile foldsToLetter = word :=
    List.takeWhile_append_dropWhile
  have hpass : ∀ write (new : List Char), insideLiteral new = false →
      rewriteIntervalsFrom write new.reverse 0 (word.dropWhile foldsToLetter) =
        new ++ word.dropWhile foldsToLetter := by
    intro write new hnew
    have hrestPass := (calm_of_isWordChar hrest).idle.passes write new.reverse []
      (by rwa [insideLiteral_reverse])
    rw [List.append_nil, rewriteIntervalsFrom] at hrestPass
    simpa using hrestPass
  have hkeeps := @keeps_rewriteWithin dialect 1 (8 * (column.text ++ (front ++ word)).length + 63)
    (by omega) Nat.one_pos
  have hsum := @Addend.rewriteIntervalsFrom_eq
    (render dialect (operandText dialect (rewriteWithin dialect
      (8 * (column.text ++ (front ++ word)).length + 63)))) _ _ _
      (word.dropWhile foldsToLetter) _ _ _ _
    haddend hn hletters hknown column.isOperand column.calm head_dropWhile
  rw [shiftIdiom?_bind, hkeeps.operandText_column, column.clockOf_eq, List.append_assoc,
    List.append_assoc, hword'] at hsum
  rw [translatePass, rewrite, depthFor, rewriteWithin, rewriteClocks,
    hstays _ (selective_rewriteClockAt? _), rewriteCalls, hstays _ (selective_rewriteCallAt? _),
    rewriteIntervals, hsum]
  cases hfits : shiftFits dialect known n back with
  | true =>
    obtain ⟨span, hspan⟩ := text_shift column hfits (if known.isSubDay then .now else .date)
    have hform := (DateTree.steady_text hspan).calm.quotes
    rw [if_pos rfl, if_pos rfl, Option.getD_some, hpass _ _ hform,
      rewriteLimit_shiftForm dialect hrest]
  | false =>
    have hquotes : insideLiteral (column.text ++ (front ++ word.takeWhile foldsToLetter)) =
        false := by
      rw [insideLiteral_append, column.calm.quotes, (haddend.tame hnumber hletters).1.quotes]
      rfl
    rw [if_neg (by simp), if_neg (by simp), Option.getD_none, hpass _ _ hquotes, List.append_assoc,
      List.append_assoc, hword', h.rewriteLimit_eq hnumber column (standingUnit_word hword hclock)]

/-- A sum whose unit begins with a known one is written as the shift by that if it fits, and stays
otherwise. -/
theorem AddendFront.settle_known {column : Column} (h : AddendFront number back front)
    (hn : Numeral n number) :
    settle (translatePass dialect) maxPasses (column.text ++ (front ++ word)) =
      if shiftFits dialect known n back then
        shiftForm dialect known (signed back n) column.text
          (if known.isSubDay then .now else .date) ++
          word.dropWhile foldsToLetter
      else column.text ++ (front ++ word) := by
  have hpass := h.translatePass_known hword hknown hn dialect column
  cases hfits : shiftFits dialect known n back with
  | true =>
    rw [hfits, if_pos rfl] at hpass
    exact settle_of_step hpass (translatePass_form hword hknown hfits _) 7
  | false =>
    rw [hfits, if_neg (by simp)] at hpass
    exact settle_of_step hpass hpass 7

/-- A shift is another text than the sum it is read from. -/
theorem AddendFront.shiftForm_ne (h : AddendFront number back front) (hnumber : IsNumber number)
    (dialect : Dialect) (column : Column) (unit : TimeUnit) (n : Int) (clock : Clock)
    (rest : List Char) :
    shiftForm dialect unit n column.text clock ++ rest ≠ column.text ++ (front ++ word) := by
  obtain ⟨name, inner, hform, -⟩ := exists_shiftForm dialect unit n column.text clock
  have hletters : IsWord (word.takeWhile foldsToLetter) :=
    isWord_of_ofText? (fun c hc => List.mem_takeWhile_imp hc) hknown
  obtain ⟨-, hfront, -⟩ := (h.addend (word.takeWhile foldsToLetter)).tame hnumber hletters
  have hwordOpen : '(' ∉ word := fun hmem => absurd (hword.chars _ hmem) (by decide)
  have hopen : '(' ∉ column.text ++ (front ++ word) := by
    simp only [List.mem_append, not_or] at hfront ⊢
    exact ⟨column.open_not_mem, hfront.1, hwordOpen⟩
  intro heq
  rw [← heq, hform] at hopen
  simp at hopen

end Known

/-! ### Shifts by other units -/

/-- A column shifted by an interval whose unit is `word`, written as a sum, where `back?` is whether
the interval is taken away, or as a call. -/
inductive OtherShift (column : Column) (number word : List Char) :
    (back? : Option Bool) → List Char → Prop
  | sum {back : Bool} {front : List Char} (h : AddendFront number back front) :
      OtherShift column number word (some back) (column.text ++ (front ++ word))
  | call {name front text : List Char} (h : IntervalFront number front)
      (hname : DateFunction.ofName? name = some .addInterval)
      (htext : Written name [column.text, front ++ word] text) :
      OtherShift column number word none text

/-- The shift that a sum is read as: its letters name a unit and the shift by that fits. -/
def mistaken? (dialect : Dialect) (column : Column) (n : Int) (word : List Char)
    (back? : Option Bool) : Option (List Char) := do
  let back ← back?
  let known ← TimeUnit.ofText? (word.takeWhile foldsToLetter)
  if shiftFits dialect known n back then
    some (shiftForm dialect known (signed back n) column.text
      (if known.isSubDay then .now else .date))
  else none

namespace OtherShift

variable {column : Column} {back? : Option Bool} (h : OtherShift column number word back? text)
  (hn : Numeral n number) (hword : OtherUnit word)
include h hn hword

/-- A shift by another unit is mistaken for one by a known unit, or keeps everything but a clock
keyword for the unit. -/
theorem settle_eq (dialect : Dialect) : settle (translatePass dialect) maxPasses text =
    match mistaken? dialect column n word back? with
    | some form => form ++ word.dropWhile foldsToLetter
    | none => rewriteClocks (renderClock dialect) text := by
  have hnumber := hn.isNumber
  cases h with
  | call hfront hname htext =>
    obtain ⟨text', -, hclocks, hsettle⟩ :=
      exists_settle_call hfront hnumber hname dialect hword htext
    exact hsettle.trans hclocks.symm
  | @sum back front hfront =>
    have hclocks : rewriteClocks (renderClock dialect) (column.text ++ (front ++ word)) =
        column.text ++ (front ++ unitText dialect word) := by
      have hf := selective_rewriteClockAt? (renderClock dialect)
      exact ((column.quiet _ hf).append
        (hfront.rewrites hnumber hf hword.head (rewrites_unitText hword))
        ((hfront.addend word).joins _)).rewriteWords_eq
    rw [hclocks]
    cases hknown : TimeUnit.ofText? (word.takeWhile foldsToLetter) with
    | none =>
      rw [hfront.settle_unread hnumber column hword hknown]
      simp [mistaken?, hknown]
    | some known =>
      rw [hfront.settle_known hword hknown hn]
      have hsame : unitText dialect word = word :=
        (unitText_eq_iff dialect hword).2 (clockKeyword?_of_known hknown)
      cases hfits : shiftFits dialect known n back <;> simp [mistaken?, hknown, hfits, hsame]

/-- A shift by another unit stays exactly if it is mistaken for no other and the unit is no clock
keyword. -/
theorem settle_iff : settle (translatePass dialect) maxPasses text = text ↔
    mistaken? dialect column n word back? = none ∧ clockKeyword? word = none := by
  have hnumber := hn.isNumber
  have hsettle := h.settle_eq hn hword dialect
  cases h with
  | call hfront hname htext =>
    have hnone : mistaken? dialect column n word none = none := rfl
    rw [settle_call_iff hfront hnumber hname hword htext]
    exact ⟨fun hclock => ⟨hnone, hclock⟩, And.right⟩
  | @sum back front hfront =>
    cases hknown : TimeUnit.ofText? (word.takeWhile foldsToLetter) with
    | none =>
      have hnone : mistaken? dialect column n word (some back) = none := by simp [mistaken?, hknown]
      rw [hfront.settle_unread hnumber column hword hknown, hnone, ← unitText_eq_iff dialect hword]
      simp
    | some known =>
      rw [hfront.settle_known hword hknown hn]
      have hclock := clockKeyword?_of_known hknown
      cases hfits : shiftFits dialect known n back with
      | false => simp [mistaken?, hknown, hfits, hclock]
      | true =>
        have hne :=
          hfront.shiftForm_ne hword hknown hnumber dialect column known (signed back n)
          (if known.isSubDay then .now else .date) (word.dropWhile foldsToLetter)
        simp [mistaken?, hknown, hfits, hne]

end OtherShift

end Idiom

/-- A shift by a word that names no unit keeps everything but a clock keyword for the unit, in a
call.  In a sum the letters in front of the word are taken for the unit if they name one and the
shift fits, and what follows them comes behind the shift. -/
theorem translate_otherUnit_iff (dialect : Dialect) {column : Column} {number word : List Char}
    {n : Int} {back? : Option Bool} {text : String} (hn : Numeral n number) (hword : OtherUnit word)
    (h : OtherShift column number word back? text.toList) :
    (translate dialect text = text ↔
      mistaken? dialect column n word back? = none ∧ clockKeyword? word = none) ∧
    translate dialect text = String.ofList (match mistaken? dialect column n word back? with
      | some form => form ++ word.dropWhile foldsToLetter
      | none => rewriteClocks (renderClock dialect) text.toList) := by
  refine ⟨?_, congrArg String.ofList (h.settle_eq hn hword dialect)⟩
  rw [← String.toList_inj, translate, String.toList_ofList]
  exact h.settle_iff hn hword

/-- A day and an hour are taken for a day in a sum and not in a call, and a fortnight for
nothing. -/
theorem translate_otherUnit_dayHour :
    translate .sqlite "x + INTERVAL 1 DAY_HOUR" = "date(x, '+1 days')_HOUR" ∧
      translate .sqlServer "x + INTERVAL 1 DAY_HOUR" = "DATEADD(day, 1, x)_HOUR" ∧
      translate .mySql "x + INTERVAL 1 DAY_HOUR" = "DATE_ADD(x, INTERVAL 1 DAY)_HOUR" ∧
      ∀ dialect, translate dialect "DATE_ADD(x, INTERVAL 1 DAY_HOUR)" =
          "DATE_ADD(x, INTERVAL 1 DAY_HOUR)" ∧
        translate dialect "x - INTERVAL 1 FORTNIGHT" = "x - INTERVAL 1 FORTNIGHT" := by
  let column : Column := ⟨['x'], by decide, by decide, by decide⟩
  have hn : Numeral 1 ['1'] := .unsigned (by decide)
  have hhour : OtherUnit "DAY_HOUR".toList := ⟨by decide, by decide, by decide⟩
  have hfortnight : OtherUnit "FORTNIGHT".toList := ⟨by decide, by decide, by decide⟩
  have hkeyword : Keyword "interval" "INTERVAL".toList := rfl
  have hfront : IntervalFront ['1'] "INTERVAL 1 ".toList :=
    .intro hkeyword [' '] [' '] rfl (by simp) rfl (by simp)
  have hplus :
      OtherShift column ['1'] "DAY_HOUR".toList (some false) "x + INTERVAL 1 DAY_HOUR".toList :=
    .sum (.intro (.inl rfl) [' '] [' '] (by decide) rfl hfront)
  have hminus : OtherShift column ['1'] "FORTNIGHT".toList (some true)
      "x - INTERVAL 1 FORTNIGHT".toList :=
    .sum (.intro (.inr rfl) [' '] [' '] (by decide) rfl hfront)
  have hcall : OtherShift column ['1'] "DAY_HOUR".toList none
      "DATE_ADD(x, INTERVAL 1 DAY_HOUR)".toList :=
    .call hfront (by decide) (written_call "DATE_ADD" _ _)
  refine ⟨?_, ?_, ?_, fun dialect => ⟨?_, ?_⟩⟩
  · exact (translate_otherUnit_iff .sqlite hn hhour hplus).2.trans (by decide +kernel)
  · exact (translate_otherUnit_iff .sqlServer hn hhour hplus).2.trans (by decide +kernel)
  · exact (translate_otherUnit_iff .mySql hn hhour hplus).2.trans (by decide +kernel)
  · exact (translate_otherUnit_iff dialect hn hhour hcall).1.2 ⟨rfl, by decide⟩
  · exact (translate_otherUnit_iff dialect hn hfortnight hminus).1.2
      ⟨by cases dialect <;> decide, by decide⟩

end AskSql
