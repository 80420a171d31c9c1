import AskSql.Proofs.Idiom.Shifts
import AskSql.Proofs.RowLimit.Absent
import AskSql.Proofs.Translate.Trees

/-! Amounts of shifts are exact.  A number of any length is read as what it is or makes the shift
stay as it is written: no amount wraps around, is cut off or changes its sign. -/

namespace AskSql

open Text Sql Idiom

namespace Idiom

variable {dialect : Dialect} {base number word text : List Char} {unit : TimeUnit} {n : Int}
  {back : Bool} {told : Option Clock}

/-- The form of a shift by `n` units.  SQLite counts weeks in days. -/
def shiftForm (dialect : Dialect) (unit : TimeUnit) (n : Int) (base : List Char) (clock : Clock) :
    List Char :=
  match dialect, unit with
  | .sqlite, .week => call (shiftName .day clock) [base, modifierText (7 * n) .day]
  | .sqlite, unit => call (shiftName unit clock) [base, modifierText n unit]
  | .sqlServer, unit => call "DATEADD" [unit.keyword.toList, amountText n, base]
  | .mySql, unit => call "DATE_ADD" [base, intervalForm n unit]

/-- Whether a shift can be written: its number fits in 64 bits on the side where it is read and on
the side where it is written, and so do the days in its weeks for SQLite. -/
def shiftFits (dialect : Dialect) (unit : TimeUnit) (n : Int) (back : Bool) : Bool :=
  fitsInt64 n && fitsInt64 (signed back n) &&
    (dialect ≠ .sqlite || unit ≠ .week || fitsInt64 (7 * signed back n))

theorem renderShift_eq (dialect : Dialect) (unit : TimeUnit) (n : Int) (base : List Char)
    (clock : Clock) : renderShift dialect unit n base clock =
      if dialect ≠ .sqlite || unit ≠ .week || fitsInt64 (7 * n) then
        some (shiftForm dialect unit n base clock) else none := by
  cases dialect with
  | sqlite =>
    cases unit with
    | week =>
      have hdays : renderShift .sqlite .week n base clock =
          ((some (7 * n)).filter fitsInt64).map fun days =>
            call (shiftName .day clock) [base, modifierText days .day] := by
        rw [Int.mul_comm, renderShift, if_pos rfl, Option.map_map]
        rfl
      rw [hdays, Option.filter_some]
      cases hfits : fitsInt64 (7 * n) <;> rfl
    | _ => rfl
  | sqlServer | mySql => cases unit <;> rfl

/-- The idiom of a shift is written if the shift fits. -/
theorem shiftIdiom?_bind (operand : List Char → List Char) (clock : Clock) :
    (shiftIdiom? unit n back base clock).bind (render dialect operand) =
      if shiftFits dialect unit n back then
        some (shiftForm dialect unit (signed back n) (operand base) clock) else none := by
  rw [shiftIdiom?, shiftFits]
  cases fitsInt64 n && fitsInt64 (signed back n) with
  | false => rfl
  | true =>
    rw [if_pos rfl, Bool.true_and, Option.bind_some, render, renderShift_eq]

/-! ### One pass -/

/-- The clock of a shift of a column. -/
theorem Column.clockOf_eq (column : Column) (unit : TimeUnit) :
    clockOf column.text unit = if unit.isSubDay then .now else .date :=
  (Spells.column column).clockOf_eq unit

/-- The form of a shift that fits is the form of a tree. -/
theorem text_shift (column : Column) (hfits : shiftFits dialect unit n back = true)
    (clock : Clock) :
    ∃ span, (DateTree.shift span clock (.column column)).text dialect =
      some (shiftForm dialect unit (signed back n) column.text clock) := by
  simp only [shiftFits, Bool.and_eq_true] at hfits
  obtain ⟨⟨-, hsigned⟩, hweeks⟩ := hfits
  refine ⟨⟨unit, signed back n, hsigned⟩, ?_⟩
  simp only [DateTree.text, form, Option.bind_eq_bind, Option.bind_some, render]
  rw [keeps_rewrite.operandText_column, renderShift_eq]
  exact if_pos hweeks

/-- A column may be called `select`, but what is selected then begins with a sign. -/
theorem Column.toLimit_sum (column : Column) {tail : List Char}
    (hletter : ∀ c ∈ tail.head?, foldsToLetter c = false)
    (hstart : ∃ sign more, (sign = '+' ∨ sign = '-') ∧ trimStart tail = sign :: more) :
    RowLimit.toLimit (column.text ++ tail) = column.text ++ tail := by
  obtain ⟨sign, more, hsign, hstart⟩ := hstart
  rcases RowLimit.select?_word
    (column.forall_mem (fun c hc => isBlank_of_isWordChar hc) (by decide))
    column.ne_nil hletter with hnone | ⟨-, select, hselect⟩
  · exact RowLimit.toLimit_of_select hnone
  · rw [hstart] at hselect
    have hkeyword : ∀ (key : String) {w : Char} {ws : List Char}, key.toList = w :: ws →
        w.isAlpha = true → keyword? key (sign :: more) = none := fun key _ _ hkey hw => by
      refine RowLimit.keyword?_cons_eq_none hkey fun heq => ?_
      subst heq
      rcases hsign with rfl | rfl <;> exact absurd hw (by decide)
    have hdistinct := RowLimit.distinct_of_keyword (hkeyword "distinct" rfl (by decide))
    have htop := hkeyword "top" rfl (by decide)
    simp only [RowLimit.toLimit, hselect, hdistinct, htop, Option.bind_eq_bind, Option.bind_some,
      Option.bind_none, Option.getD_none]

namespace ShiftText

variable {column : Column} (h : ShiftText column.text number word back told text)
  (hn : Numeral n number) (hword : IsWord word) (hunit : TimeUnit.ofText? word = some unit)
include h hn hword

theorem clean : Clean text := by
  have hcolumn : Clean column.text := ⟨column.isArg, column.clockFree⟩
  cases h with
  | sum h => exact h.clean hn.isNumber hword hcolumn
  | call h hname htext =>
    exact clean_written htext (isName_of_ofName? hname) (length_of_ofName? hname)
      (h.clean hn hword hcolumn) h.ne_nil

/-- A shift of a column is no statement with a row limit. -/
theorem rewriteLimit_eq : RowLimit.rewrite dialect text = text := by
  cases h with
  | @sum tail h =>
    obtain ⟨-, -, c, hc, hlast⟩ := h.tame hn.isNumber hword
    have hlimit : RowLimit.trailingLimit? (column.text ++ tail) = none := by
      refine RowLimit.trailingLimit?_of_last
        ⟨c, by simp [List.getLast?_append, Option.mem_def.1 hc], isBlank_of_letter hlast, ?_, ?_⟩
      · rintro rfl
        exact absurd hlast (by decide)
      · rcases hlast with halpha | rfl
        · exact isDecimalDigit_of_isAlpha halpha
        · decide
    have hselect : RowLimit.toLimit (column.text ++ tail) = column.text ++ tail :=
      column.toLimit_sum h.start.1 h.start.2
    cases dialect with
    | sqlServer => exact RowLimit.toTop_of_trailingLimit hlimit
    | sqlite | mySql => exact hselect
  | call h hname htext =>
    have hcolumn : Clean column.text := ⟨column.isArg, column.clockFree⟩
    obtain ⟨inner, hcall, -⟩ := htext.isCall (isName_of_ofName? hname)
      (fun a ha => (h.clean hn hword hcolumn a ha).isArg) h.ne_nil
    exact rewriteLimit_isCall hcall hname dialect

include hunit

/-- The scans of one pass write a shift of a column if `write` does, and leave it otherwise. -/
theorem rewrite_eq {write : Idiom → Option (List Char)} {clock : Clock} {new : Option (List Char)}
    (hclock : clock = told.getD (if unit.isSubDay then .now else .date))
    (hwrite : (shiftIdiom? unit n back column.text clock).bind write = new)
    (hcalm : ∀ form ∈ new, Calm form) :
    rewriteIntervals write (rewriteCalls write (rewriteClocks (renderClock dialect) text)) =
      new.getD text := by
  rw [rewriteClocks, ((h.clean hn hword).clockFree _).rewriteWords_eq]
  cases h with
  | @sum tail h =>
    obtain rfl : clock = clockOf column.text unit := by rw [hclock, column.clockOf_eq]; rfl
    have hquiet : Quiet (column.text ++ tail) :=
      column.quiet.append (h.quiet hn.isNumber hword) (h.joins column.text)
    have hcalls := (hquiet _ (selective_rewriteCallAt? write)).rewriteWords_eq
    have hsum := @Addend.rewriteIntervalsFrom_eq write _ _ _ [] _ _ _ _ h hn hword hunit
      column.isOperand column.calm (by simp)
    rw [List.append_nil, hwrite] at hsum
    rw [rewriteCalls, hcalls, rewriteIntervals, hsum, rewriteIntervalsFrom, List.reverse_reverse]
  | call h hname htext =>
    have hcolumn : Clean column.text := ⟨column.isArg, column.clockFree⟩
    have hstay : ∀ a ∈ _, Rewrites (rewriteCallAt? write) a a := fun a ha => by
      rcases h.args_eq hn hword a ha with rfl | ⟨hmute, htrim⟩
      · exact column.quiet _ (selective_rewriteCallAt? write)
      · exact hmute.toTame.quiet hmute.calls htrim.last _ (selective_rewriteCallAt? write)
    have hcalls := rewriteCalls_written htext hname
      (fun a ha => (h.clean hn hword hcolumn a ha).isArg) h.ne_nil hstay
    rw [recognise, h.recogniseWith_eq hn hword hunit (isNowLiteral_of_head column.start),
      column.clockOf_eq, ← hclock, hwrite] at hcalls
    rw [hcalls]
    cases new with
    | none =>
      refine (calm_written htext (isName_of_ofName? hname) fun a ha => ?_).rewriteIntervals_eq _
      rcases h.args_eq hn hword a ha with rfl | ⟨hmute, -⟩
      · exact column.calm
      · exact hmute.calm
    | some form => exact (hcalm form rfl).rewriteIntervals_eq _

/-- One pass writes a shift of a column if the shift fits, and leaves it otherwise. -/
theorem rewriteWithin_eq (depth : Nat) : rewriteWithin dialect (depth + 2) text =
    if shiftFits dialect unit n back then
      shiftForm dialect unit (signed back n) column.text
        (told.getD (if unit.isSubDay then .now else .date))
    else text := by
  have hkeeps := @keeps_rewriteWithin dialect 1 _ (Nat.le_add_left 1 depth) Nat.one_pos
  have hwrite := @shiftIdiom?_bind dialect column.text unit n back
    (operandText dialect (rewriteWithin dialect (depth + 1)))
    (told.getD (if unit.isSubDay then .now else .date))
  rw [hkeeps.operandText_column] at hwrite
  rw [rewriteWithin, h.rewrite_eq hn hword hunit rfl hwrite fun form hform => ?_]
  · cases shiftFits dialect unit n back <;> rfl
  · obtain ⟨hfits, hform⟩ := Option.ite_none_right_eq_some.1 hform
    obtain ⟨span, hspan⟩ :=
      text_shift column hfits (told.getD (if unit.isSubDay then .now else .date))
    obtain rfl := Option.some.inj hform
    exact (DateTree.steady_text hspan).calm

/-- A shift of a column is written in one pass if it fits, and stays otherwise. -/
theorem settle_eq : settle (translatePass dialect) maxPasses text =
    if shiftFits dialect unit n back then
      shiftForm dialect unit (signed back n) column.text
        (told.getD (if unit.isSubDay then .now else .date))
    else text := by
  have hone := @rewriteWithin_eq dialect _ _ _ _ _ _ _ _ h hn hword hunit (8 * text.length + 62)
  have hpass : translatePass dialect text = RowLimit.rewrite dialect
      (rewriteWithin dialect (8 * text.length + 62 + 2) text) := rfl
  rw [hone] at hpass
  cases hfits : shiftFits dialect unit n back with
  | false =>
    have hstay : translatePass dialect text = text := by
      rw [hpass, hfits]
      exact h.rewriteLimit_eq hn hword
    exact settle_of_step hstay hstay 7
  | true =>
    obtain ⟨span, hspan⟩ := text_shift column hfits
      (told.getD (if unit.isSubDay then .now else .date))
    rw [hfits, if_pos rfl, DateTree.rewriteLimit_text hspan] at hpass
    exact settle_of_step hpass (DateTree.translatePass_text hspan) 7

end ShiftText

end Idiom

/-- A shift of a column by any number of units, in any spelling, translates to the shift by exactly
that number if it can be written in the dialect, and is left as it is otherwise. -/
theorem translate_shift (dialect : Dialect) {column : Column} {number word : List Char} {n : Int}
    {unit : TimeUnit} {back : Bool} {told : Option Clock} {text : String} (hn : Numeral n number)
    (hword : IsWord word) (hunit : TimeUnit.ofText? word = some unit)
    (h : ShiftText column.text number word back told text.toList) :
    translate dialect text =
      if shiftFits dialect unit n back then
        String.ofList (shiftForm dialect unit (signed back n) column.text
          (told.getD (if unit.isSubDay then .now else .date)))
      else text := by
  rw [translate, h.settle_eq hn hword hunit]
  cases shiftFits dialect unit n back with
  | false => exact String.ofList_toList
  | true => rfl

/-- The largest number of weeks that SQLite can count in days, the next one, and the smallest number
of days, which cannot be taken away. -/
theorem translate_shift_bounds :
    translate .sqlite "DATEADD(wk, 1317624576693539401, o.d)" =
      "date(o.d, '+9223372036854775807 days')" ∧
      translate .sqlite "DATEADD(wk, 1317624576693539402, o.d)" =
        "DATEADD(wk, 1317624576693539402, o.d)" ∧
      translate .mySql "o.d - INTERVAL '-9223372036854775808' Day" =
        "o.d - INTERVAL '-9223372036854775808' Day" := by
  let column : Column := ⟨"o.d".toList, by decide, by decide, by decide⟩
  have hlast : natural? "1317624576693539401".toList = some 1317624576693539401 := by decide +kernel
  have hnext : natural? "1317624576693539402".toList = some 1317624576693539402 := by decide +kernel
  have hleast : natural? "9223372036854775808".toList = some 9223372036854775808 := by
    decide +kernel
  have hweek : IsWord "wk".toList := ⟨by decide, by decide⟩
  have hday : IsWord "Day".toList := ⟨by decide, by decide⟩
  have hunit : TimeUnit.ofText? "wk".toList = some .week := by decide
  have hcall : ∀ number : List Char, ShiftText column.text number "wk".toList false none
      (call "DATEADD" ["wk".toList, number, column.text]) := fun number =>
    .call (.dateAdd (.inl rfl)) (by decide) (written_call "DATEADD" _ _)
  have hkeyword : Keyword "interval" "INTERVAL".toList := rfl
  have hsum : ShiftText column.text ('-' :: "9223372036854775808".toList) "Day".toList true none
      "o.d - INTERVAL '-9223372036854775808' Day".toList :=
    .sum (.intro (.inr rfl) [' '] [' '] (by decide) rfl
      (.intro hkeyword [' '] rfl (by simp) (.number [] [] [' '] rfl rfl rfl)))
  refine ⟨?_, ?_, ?_⟩
  · have hmost : ShiftText column.text "1317624576693539401".toList "wk".toList false none
        "DATEADD(wk, 1317624576693539401, o.d)".toList := hcall _
    exact (translate_shift .sqlite (.unsigned hlast) hweek hunit hmost).trans (by decide +kernel)
  · have hmore : ShiftText column.text "1317624576693539402".toList "wk".toList false none
        "DATEADD(wk, 1317624576693539402, o.d)".toList := hcall _
    exact (translate_shift .sqlite (.unsigned hnext) hweek hunit hmore).trans (by decide +kernel)
  · have hunit : TimeUnit.ofText? "Day".toList = some .day := by decide
    exact (translate_shift .mySql (.minus hleast) hday hunit hsum).trans (by decide +kernel)

end AskSql
