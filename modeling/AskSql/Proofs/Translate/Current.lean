import AskSql.Proofs.Translate.Native
import AskSql.Proofs.Translate.Passes
import AskSql.Proofs.Translate.Precision

/-! Shifts of the current date and of the current moment in SQLite.  Both are written as shifts of
the time value `'now'`, so the name of the function alone tells them apart: it does where the unit
is no shorter than a day, and does not where the unit is shorter. -/

namespace AskSql

open Text Sql Idiom

namespace Idiom

variable {clock : Clock} {span : Span} {isSum isSum' : Bool} {start text new : List Char}

/-! ### Shifts that are written -/

theorem argumentText_current (clock : Clock) :
    argumentText .sqlite (renderClock .sqlite clock) = "'now'".toList := by
  cases clock <;> decide

/-- A shift of the current date or moment is written as a shift of the time value. -/
theorem settle_current (hstart : BaseText (.current clock) start)
    (h : ChainText start [⟨span, isSum⟩] text)
    (hweeks : span.unit = .week → fitsInt64 (span.amount * 7) = true) :
    settle (translatePass .sqlite) maxPasses text =
      call (shiftName span.unit (if span.unit.isSubDay then .now else clock))
        ["'now'".toList, spanModifier span] := by
  obtain ⟨new, hnew⟩ := @exists_chainTree_text (.current clock) [⟨span, isSum⟩] (foundClock clock)
    (by simpa using hweeks)
  have hclock : foundClock clock [⟨span, isSum⟩] = if span.unit.isSubDay then .now else clock := by
    simp [foundClock, endsInSum]
  obtain ⟨arg, harg, hform, -⟩ := DateTree.text_shift_sqlite hnew
  obtain rfl : renderClock .sqlite clock = arg := Option.some.inj harg
  rw [hclock, argumentText_current] at hform
  rw [← hform]
  exact settle_of_step (h.translatePass_eq hstart hnew) (DateTree.translatePass_text hnew) 7

/-! ### Shifts that stay -/

theorem shiftIdiom?_bind_eq_none {n : Int} {back : Bool} {number word arg : List Char}
    {found : Clock} {operand : List Char → List Char} (hspan : Counts n span back number word)
    (hweek : span.unit = .week) (hfits : fitsInt64 (span.amount * 7) = false) :
    (shiftIdiom? span.unit n back arg found).bind (render .sqlite operand) = none := by
  rw [hspan.shiftIdiom?_eq, Option.bind_some, render, renderShift_eq, hweek, Int.mul_comm, hfits]
  rfl

/-- What begins with the current date or moment in the form of SQLite is no statement with a
limit. -/
theorem toLimit_current (clock : Clock) (rest : List Char) :
    RowLimit.toLimit (renderClock .sqlite clock ++ rest) = renderClock .sqlite clock ++ rest := by
  have hword : ∀ word tail : List Char, (∀ c ∈ word, isBlank c = false) → word ≠ [] →
      word.length ≠ 6 → (∀ c ∈ tail.head?, foldsToLetter c = false) →
      RowLimit.toLimit (word ++ tail) = word ++ tail := fun word tail hink hne hlength htail =>
    RowLimit.toLimit_of_select
      ((RowLimit.select?_word hink hne htail).resolve_right fun hsix => hlength hsix.1)
  have htail : ∀ c ∈ ("('now')".toList ++ rest).head?, foldsToLetter c = false := by
    simpa using (by decide : foldsToLetter '(' = false)
  cases clock with
  | date => exact hword "date".toList _ (by decide) (by decide) (by decide) htail
  | now => exact hword "datetime".toList _ (by decide) (by decide) (by decide) htail

theorem isOperand_current (clock : Clock) : IsOperand (renderClock .sqlite clock) :=
  @isOperand_text (.current clock) [] _ (foundClock clock) rfl

section Stays

variable (hweek : span.unit = .week) (hfits : fitsInt64 (span.amount * 7) = false)
include hweek hfits

/-- A pass leaves a shift by more weeks than SQLite can count in days, and writes what is shifted in
the form of SQLite. -/
theorem ChainText.translatePass_stays (hstart : BaseText (.current clock) start)
    (h : ChainText start [⟨span, isSum⟩] text) :
    ChainText (renderClock .sqlite clock) [⟨span, isSum⟩] (translatePass .sqlite text) := by
  obtain ⟨hisArg, plain, hplain, hclocks⟩ := hstart.exists_plainText
  obtain ⟨text', htext', hwrites⟩ := h.exists_clocks hisArg hclocks
  obtain ⟨depth, hdepth⟩ : ∃ depth, depthFor text = depth + 1 := ⟨8 * text.length + 63, rfl⟩
  have hpass : translatePass .sqlite text = RowLimit.toLimit (rewriteIntervals (writeWithin depth)
      (rewriteCalls (writeWithin depth) text')) := by
    rw [translatePass, Idiom.rewrite, hdepth, rewriteWithin, rewriteClocks, hwrites.rewriteWords_eq]
    rfl
  obtain ⟨hclean, hhead, -⟩ := hplain.steady
  have hcurrent :
      Rewrites (rewriteCallAt? (writeWithin depth)) plain (renderClock .sqlite clock) := by
    cases hplain with
    | current dialect => exact rewrites_current dialect clock
  obtain ⟨-, -, -, hcalm, -⟩ := renderClock_chars .sqlite clock
  rw [hpass]
  cases htext' with
  | @sum _ _ n back number word arg tail harg hspan hadd =>
    cases harg with
    | base =>
      have hquiet := hadd.quiet hspan.numeral.isNumber hspan.isWord _
        (selective_rewriteCallAt? (writeWithin depth))
      have hcalls := hcurrent.append hquiet (hadd.joins plain)
      have hsum :=
        @Addend.rewriteIntervalsFrom_eq (writeWithin depth) _ _ _ [] _ _ _ _ hadd hspan.numeral
        hspan.isWord hspan.unit (isOperand_current clock) hcalm (by simp)
      rw [writeWithin, shiftIdiom?_bind_eq_none hspan hweek hfits, Option.getD_none,
        List.append_nil, ← writeWithin, rewriteIntervalsFrom, List.reverse_reverse] at hsum
      rw [rewriteCalls, hcalls.rewriteWords_eq, rewriteIntervals, hsum, toLimit_current]
      exact .sum .base hspan hadd
  | @call _ _ n back function number word arg name _ args harg hspan hshift hname htext =>
    cases harg with
    | base =>
      obtain ⟨inner, hcall, hsplit, -⟩ := htext.isCall (isName_of_ofName? hname)
        (fun a ha => (hshift.clean hspan.numeral hspan.isWord hclean a ha).isArg) hshift.ne_nil
      have hidiom :=
        @ShiftCall.recogniseWith_eq _ _ _ _ _ clockOf hspan.numeral hspan.isWord hspan.unit
        _ _ _ _ hshift (isNowLiteral_of_head hhead)
      obtain ⟨args', hshift', hargs⟩ := hshift.change hspan.numeral hspan.isWord hcurrent
        fun a hmute htrim => hmute.toTame.quiet hmute.calls htrim.last _
        (selective_rewriteCallAt? _)
      have hnone : ∀ rest, rewriteCallAt? (writeWithin depth) (text' ++ rest) = none :=
        fun rest => by
        have hwrite := @shiftIdiom?_bind_eq_none _ n back number word plain
          ((none : Option Clock).getD (clockOf plain span.unit))
          (operandText .sqlite (rewriteWithin .sqlite depth)) hspan hweek hfits
        rw [← hidiom, ← recognise, ← hsplit, ← writeWithin] at hwrite
        cases hfound : recognise function (splitArgs inner) with
        | none => simp [rewriteCallAt?, hcall.callAt?_eq hname rest, hfound]
        | some idiom =>
          rw [hfound, Option.bind_some] at hwrite
          simp [rewriteCallAt?, hcall.callAt?_eq hname rest, hfound, hwrite]
      obtain ⟨new, hnew, hrewrites⟩ :=
        exists_rewrites_written htext (isName_of_ofName? hname) hargs hnone
      have hargsNew := hshift'.clean hspan.numeral hspan.isWord
        (steadyCall_renderClock .sqlite clock).toSteady.clean
      have hcalmNew : Calm new := by
        refine calm_written hnew (isName_of_ofName? hname) fun a ha => ?_
        rcases hshift'.args_eq hspan.numeral hspan.isWord a ha with rfl | ⟨hmute, -⟩
        · exact hcalm
        · exact hmute.calm
      obtain ⟨inner', hcall', -⟩ := hnew.isCall (isName_of_ofName? hname)
        (fun a ha => (hargsNew a ha).isArg) hshift'.ne_nil
      have hlimit : RowLimit.toLimit new = new := rewriteLimit_isCall hcall' hname .sqlite
      rw [rewriteCalls, hrewrites.rewriteWords_eq, hcalmNew.rewriteIntervals_eq, hlimit]
      exact .call .base hspan hshift' hname hnew

/-- A shift by more weeks than SQLite can count in days stays through all passes. -/
theorem ChainText.settle_stays (hstart : BaseText (.current clock) start)
    (h : ChainText start [⟨span, isSum⟩] text) :
    ChainText (renderClock .sqlite clock) [⟨span, isSum⟩]
    (settle (translatePass .sqlite) maxPasses text) := by
  have hiterate : ∀ passes, ChainText (renderClock .sqlite clock) [⟨span, isSum⟩]
      ((translatePass .sqlite)^[passes + 1] text) := by
    intro passes
    induction passes with
    | zero => exact h.translatePass_stays hweek hfits hstart
    | succ passes ih =>
      rw [Function.iterate_succ_apply']
      exact ih.translatePass_stays hweek hfits (.plain (.current .sqlite clock))
  rw [settle_eq_iterate]
  exact hiterate 7

end Stays

/-! ### Texts that differ -/

theorem ofName?_word_current (clock : Clock) (rest : List Char) :
    DateFunction.ofName? (word (renderClock .sqlite clock ++ rest)).1 =
      some (clockFunction clock) := by
  cases clock <;> rfl

/-- A shift of the current date or moment is a sum that begins with it or a call that has it for its
base. -/
theorem ChainText.sum_or_call (h : ChainText (renderClock .sqlite clock) [⟨span, isSum⟩] text) :
    DateFunction.ofName? (word text).1 = some (clockFunction clock) ∨
      ∃ name inner function number word back, IsCall name inner text ∧
        DateFunction.ofName? name = some function ∧
        ShiftCall (renderClock .sqlite clock) number word back none function (splitArgs inner) := by
  have hclean := (steadyCall_renderClock .sqlite clock).toSteady.clean
  cases h with
  | sum harg _ _ =>
    cases harg with
    | base => exact Or.inl (ofName?_word_current clock _)
  | @call _ _ n back function number word arg name _ args harg hspan hshift hname htext =>
    cases harg with
    | base =>
      obtain ⟨inner, hcall, hsplit, -⟩ := htext.isCall (isName_of_ofName? hname)
        (fun a ha => (hshift.clean hspan.numeral hspan.isWord hclean a ha).isArg) hshift.ne_nil
      exact Or.inr ⟨name, inner, function, number, word, back, hcall, hname, hsplit ▸ hshift⟩

theorem ShiftCall.ne_clockFunction {base number word : List Char} {back : Bool}
    {function : DateFunction} {args : List (List Char)}
    (h : ShiftCall base number word back none function args) (clock : Clock) :
    function ≠ clockFunction clock := by
  cases h <;> cases clock <;> simp [clockFunction]

/-- A call for a shift has one base. -/
theorem ShiftCall.base_eq {base base' number number' word word' : List Char} {back back' : Bool}
    {function : DateFunction} {args : List (List Char)}
    (h : ShiftCall base number word back none function args)
    (h' : ShiftCall base' number' word' back' none function args) : base = base' := by
  cases h <;> cases h' <;> rfl

/-- A shift of the current date in the form of SQLite is no shift of the current moment. -/
theorem ChainText.ne_of_current {text' : List Char}
    (h : ChainText (renderClock .sqlite .date) [⟨span, isSum⟩] text)
    (h' : ChainText (renderClock .sqlite .now) [⟨span, isSum'⟩] text') : text ≠ text' := by
  rintro rfl
  have hword : ∀ {name inner : List Char} {function : DateFunction}, IsCall name inner text →
      DateFunction.ofName? name = some function →
      DateFunction.ofName? (word text).1 = some function :=
    fun hcall hname => by
      obtain ⟨gap, -, hword⟩ := hcall.word_eq []
      rw [List.append_nil] at hword
      rw [hword]
      exact hname
  rcases h.sum_or_call with hdate |
    ⟨name, inner, function, number, unit, back, hcall, hname, hshift⟩ <;>
    rcases h'.sum_or_call with
      hnow | ⟨name', inner', function', number', unit', back', hcall', hname', hshift'⟩
  · rw [hdate] at hnow
    contradiction
  · exact hshift'.ne_clockFunction .date (Option.some.inj ((hword hcall' hname').symm.trans hdate))
  · exact hshift.ne_clockFunction .now (Option.some.inj ((hword hcall hname).symm.trans hnow))
  · have hparts := hcall.callParts_eq.symm.trans hcall'.callParts_eq
    obtain ⟨rfl, rfl⟩ : name = name' ∧ inner = inner' := by simpa using hparts
    obtain rfl : function = function' := Option.some.inj (hname.symm.trans hname')
    exact absurd (hshift.base_eq hshift') (by decide)

end Idiom

/-- Shifts of the current date and of the current moment by one span, each in any spelling,
translate to different texts for SQLite exactly if the unit is no shorter than a day. -/
theorem translate_current_ne_iff {span : Span} {isSum isSum' : Bool} {date moment : List Char}
    {text text' : String} (hdate : BaseText (.current .date) date)
    (h : ChainText date [⟨span, isSum⟩] text.toList) (hmoment : BaseText (.current .now) moment)
    (h' : ChainText moment [⟨span, isSum'⟩] text'.toList) :
    translate .sqlite text ≠ translate .sqlite text' ↔ span.unit.isSubDay = false := by
  rw [ne_eq, ← String.toList_inj, translate, translate, String.toList_ofList, String.toList_ofList]
  by_cases hweeks : span.unit = .week → fitsInt64 (span.amount * 7) = true
  · rw [settle_current hdate h hweeks, settle_current hmoment h' hweeks]
    cases hday : span.unit.isSubDay with
    | true => simp
    | false =>
      simp only [Bool.false_eq_true, if_false, iff_true]
      exact fun heq => absurd (shiftName_inj heq hday) (by decide)
  · obtain ⟨hweek, hfits⟩ : span.unit = .week ∧ fitsInt64 (span.amount * 7) = false := by
      simpa using hweeks
    have hne :=
      (h.settle_stays hweek hfits hdate).ne_of_current (h'.settle_stays hweek hfits hmoment)
    simpa [hweek, TimeUnit.isSubDay] using hne

/-- A week after the current date is told apart from a week after the current moment, two hours
after the one are not told apart from two hours after the other. -/
theorem translate_current_week :
    translate .sqlite "DATE_ADD(CURDATE(), INTERVAL 1 WEEK)" ≠
        translate .sqlite "CURRENT_TIMESTAMP + INTERVAL 1 WEEK" ∧
      translate .sqlite "CURRENT_DATE + INTERVAL 2 HOUR" =
        translate .sqlite "NOW() + INTERVAL 2 HOUR" := by
  have hkeyword : Keyword "interval" "INTERVAL".toList := rfl
  have hweek : Counts 1 ⟨.week, 1, by decide⟩ false ['1'] "WEEK".toList :=
    ⟨.unsigned rfl, by decide, ⟨by decide, by decide⟩, by decide, rfl⟩
  have hhours : Counts 2 ⟨.hour, 2, by decide⟩ false ['2'] "HOUR".toList :=
    ⟨.unsigned rfl, by decide, ⟨by decide, by decide⟩, by decide, rfl⟩
  have honeWeek : IntervalOf ['1'] "WEEK".toList "INTERVAL 1 WEEK".toList :=
    .intro hkeyword [' '] rfl (by simp) (.bare [' '] rfl (by simp))
  have htwoHours : IntervalOf ['2'] "HOUR".toList "INTERVAL 2 HOUR".toList :=
    .intro hkeyword [' '] rfl (by simp) (.bare [' '] rfl (by simp))
  have hdate : ∀ word : List Char, word = "CURRENT_DATE".toList →
      BaseText (.current .date) word := by
    rintro word rfl
    exact .keyword (by decide) (by decide)
  have hmoment : BaseText (.current .now) "CURRENT_TIMESTAMP".toList :=
    .keyword (by decide) (by decide)
  have hadd : ∀ {number word interval : List Char}, IntervalOf number word interval →
      Addend number word false (" + ".toList ++ interval) := fun h =>
    .intro (.inl rfl) [' '] [' '] (by decide) rfl h
  refine ⟨?_, ?_⟩
  · exact (translate_current_ne_iff (.plain (.current .mySql .date))
      (.call .base hweek (.addInterval honeWeek) (by decide) (written_call "DATE_ADD" _ _)) hmoment
      (.sum .base hweek (hadd honeWeek))).2 rfl
  · by_contra hne
    exact absurd ((translate_current_ne_iff (hdate _ rfl) (.sum .base hhours (hadd htwoHours))
      (.plain (.current .mySql .now)) (.sum .base hhours (hadd htwoHours))).1 hne) (by decide)

end AskSql
