import AskSql.Proofs.Translate.Chains

/-! The precision of chains of shifts in SQLite.  Every chain is written as nested calls, and a
chain in which each shift is a call keeps its time of day.  So does a mixed chain unless a call by a
day or more stands around a sum with a time of day: there the time of day is lost. -/

namespace AskSql

open Text Sql Idiom

namespace Idiom

variable {base : Base} {steps : List Step} {start text new : List Char} {depth : Nat}

/-! ### One pass -/

/-- How idioms are written when their arguments are rewritten `depth` levels deep. -/
def writeWithin (depth : Nat) : Idiom → Option (List Char) :=
  render .sqlite (operandText .sqlite (rewriteWithin .sqlite depth))

/-- The calls of `text` and then its intervals are rewritten until it is `new`, whatever follows. -/
def Reaches (depth : Nat) (text new : List Char) : Prop :=
  ∃ middle, Rewrites (rewriteCallAt? (writeWithin depth)) text middle ∧
    ∀ rest, (∀ c ∈ rest.head?, foldsToLetter c = false) →
      rewriteIntervalsFrom (writeWithin depth) [] 0 (middle ++ rest) =
        rewriteIntervalsFrom (writeWithin depth) new.reverse 0 rest

theorem reaches_of_calm (h : Rewrites (rewriteCallAt? (writeWithin depth)) text new)
    (hcalm : Calm new) : Reaches depth text new :=
  ⟨new, h, fun rest _ => hcalm.rewriteIntervalsFrom_eq _ rest⟩

theorem Reaches.rewriteIntervals_eq (h : Reaches depth text new) :
    rewriteIntervals (writeWithin depth) (rewriteCalls (writeWithin depth) text) = new := by
  obtain ⟨middle, hcalls, hintervals⟩ := h
  have hend := hintervals [] (by simp)
  rw [List.append_nil] at hend
  rw [rewriteCalls, hcalls.rewriteWords_eq, rewriteIntervals, hend, rewriteIntervalsFrom,
    List.reverse_reverse]

theorem Reaches.rewriteWithin_eq (h : Reaches depth text new) (hclock : ClockFree text) :
    rewriteWithin .sqlite (depth + 1) text = new := by
  have hintervals := h.rewriteIntervals_eq
  rw [rewriteWithin, rewriteClocks, (hclock _).rewriteWords_eq]
  exact hintervals

/-- A call that is recognised is rewritten as a whole. -/
theorem rewrites_isCall {write : Idiom → Option (List Char)} {name inner : List Char}
    {function : DateFunction} {idiom : Idiom} (hcall : IsCall name inner text)
    (hname : DateFunction.ofName? name = some function)
    (hidiom : recognise function (splitArgs inner) = some idiom) (hwrite : write idiom = some new)
    (hne : text ≠ new) (hquotes : insideLiteral text = false) :
    Rewrites (rewriteCallAt? write) text new := by
  refine rewrites_whole ?_ hquotes fun rest _ => ?_
  · obtain ⟨gap, -, rfl⟩ := hcall.split
    obtain ⟨c, hc, hs⟩ := hcall.named.start
    refine ⟨c, ?_, isWordChar_of_isNameChar (isNameChar_of_isNameStart hs)⟩
    simp [List.head?_append, Option.mem_def.1 hc]
  · simp [rewriteCallAt?, hcall.callAt?_eq hname rest, hidiom, hwrite, Ne.symm hne]

/-- The current date or moment is written in the form of SQLite from that of any dialect. -/
theorem rewrites_current (dialect : Dialect) (clock : Clock) :
    Rewrites (rewriteCallAt? (writeWithin depth)) (renderClock dialect clock)
      (renderClock .sqlite clock) := by
  by_cases hdialect : dialect = .sqlite
  · subst hdialect
    exact rewrites_renderClock .sqlite clock _
  · obtain ⟨name, inner, function, hcall, hname, -, hidiom⟩ := isCall_renderClock dialect clock
    obtain ⟨-, -, hquotes, -, -⟩ := renderClock_chars dialect clock
    have hne : renderClock dialect clock ≠ renderClock .sqlite clock := by
      cases dialect <;> cases clock <;> simp_all <;> decide
    exact rewrites_isCall hcall hname (hidiom clockOf) rfl hne hquotes

theorem PlainText.reaches (h : PlainText base text) (hnew : base.tree.text .sqlite = some new) :
    Reaches depth text new := by
  cases h with
  | column column =>
    obtain rfl := Option.some.inj hnew
    exact reaches_of_calm (column.quiet _ (selective_rewriteCallAt? _)) column.calm
  | current dialect clock =>
    obtain rfl := Option.some.inj hnew
    obtain ⟨-, -, -, hcalm, -⟩ := renderClock_chars .sqlite clock
    exact reaches_of_calm (rewrites_current dialect clock) hcalm

/-- No call by which a shift is spelled alike in all dialects is a form of SQLite. -/
theorem ShiftCall.ne_form {arg number word name : List Char} {back : Bool} {function : DateFunction}
    {args : List (List Char)} {tree : DateTree} {span : Span} {clock : Clock} {inner : List Char}
    (h : ShiftCall arg number word back none function args)
    (hname : DateFunction.ofName? name = some function) (hcall : IsCall name inner text)
    (hnew : (DateTree.shift span clock tree).text .sqlite = some new) : text ≠ new := by
  rintro rfl
  obtain ⟨found, hform⟩ := DateTree.isCall_text_sqlite hnew
  have hparts := hcall.callParts_eq.symm.trans hform.callParts_eq
  obtain ⟨rfl, -⟩ : name = (shiftName span.unit clock).toList ∧ inner = found := by
    simpa using hparts
  have hfunction : function = .date ∨ function = .datetime := by
    unfold shiftName at hname
    split at hname
    · exact Or.inr (Option.some.inj hname).symm
    · exact Or.inl (Option.some.inj hname).symm
  cases h <;> simp at hfunction

/-- A chain is written as its expression with the clocks that are found for it. -/
theorem ChainText.reaches (h : ChainText start steps text) (hstart : PlainText base start)
    (hdepth : steps.length < depth)
    (hnew : (chainTree base.tree (foundClock base.clock) steps).text .sqlite = some new) :
    Reaches depth text new := by
  obtain ⟨hclean, hhead, -⟩ := hstart.steady
  have hquotes : insideLiteral start = false := hstart.steady.2.2.quotes
  induction h generalizing depth new with
  | base => exact hstart.reaches hnew
  | @sum steps span n back number word arg tail harg hspan h ih =>
    -- What stands before the sign is rewritten by then, so its clock is read off its form.
    obtain ⟨arg', harg', -⟩ := DateTree.text_shift_sqlite hnew
    obtain ⟨middle, hcalls, hintervals⟩ := ih (Nat.lt_of_succ_lt hdepth) harg'
    have hnumber := hspan.numeral.isNumber
    have hquiet := h.quiet hnumber hspan.isWord _ (selective_rewriteCallAt? (writeWithin depth))
    refine ⟨middle ++ tail, hcalls.append hquiet (h.joins arg), fun rest hrest => ?_⟩
    have hsteady := DateTree.steady_text harg'
    have hcount : callCount arg' < depth := Nat.lt_of_le_of_lt (callCount_text harg') hdepth
    have hoperand :=
      (keeps_rewriteWithin (Nat.le_refl depth) (Nat.zero_lt_of_lt hcount)).operandText_eq
      hsteady hcount
    have hwrite := render_shift_eq hnew harg' hoperand
    have hclock := clockOf_text harg' rfl (by intro step rest h; simp [foundClock, h]) span.unit
    have hsum :=
      @Addend.rewriteIntervalsFrom_eq (writeWithin depth) _ _ _ rest _ _ _ _ h hspan.numeral
      hspan.isWord hspan.unit (isOperand_text harg') hsteady.calm hrest
    have hfound : foundClock base.clock (⟨span, true⟩ :: steps) =
        if span.unit.isSubDay then .now else foundClock base.clock steps := by
      simp [foundClock]
    rw [hclock, ← hfound, hspan.shiftIdiom?_eq, Option.bind_some, writeWithin, hwrite,
      Option.getD_some]
      at hsum
    rw [List.append_assoc, hintervals (tail ++ rest) ?_, ← hsteady.calm.rewriteIntervalsFrom_eq,
      ← List.append_assoc]
    · exact hsum
    · obtain ⟨hletter, sign, more, -, hstart⟩ := h.start
      have hne : tail ≠ [] := by
        rintro rfl
        simp [trimStart] at hstart
      rwa [List.head?_append_of_ne_nil _ hne]
  | @call steps span n back function number word arg name text args harg hspan h hname htext ih =>
    -- A call is recognised by its argument as it is spelled, and the argument is rewritten after
    -- that, one level down.
    obtain ⟨depth, rfl⟩ := Nat.exists_eq_succ_of_ne_zero (Nat.ne_zero_of_lt hdepth)
    obtain ⟨arg', harg', -⟩ := DateTree.text_shift_sqlite hnew
    have hargClean := harg.clean hclean
    have hargHead := harg.head hhead
    have hinner := (ih (Nat.lt_of_succ_lt_succ hdepth) harg').rewriteWithin_eq hargClean.clockFree
    obtain ⟨inner, hcall, hsplit, -⟩ := htext.isCall (isName_of_ofName? hname)
      (fun a ha => (h.clean hspan.numeral hspan.isWord hargClean a ha).isArg) h.ne_nil
    have hnow := isNowLiteral_of_head hargHead
    have hidiom :=
      @ShiftCall.recogniseWith_eq _ _ _ _ _ clockOf hspan.numeral hspan.isWord hspan.unit
      _ _ _ _ h hnow
    have hclock := harg.clockWithin_eq hstart (Nat.lt_succ_self _) span.unit
    have hfound : foundClock base.clock (⟨span, false⟩ :: steps) = clockOf arg span.unit := by
      rw [clockOf, hclock, foundClock]
      rfl
    rw [hspan.shiftIdiom?_eq, Option.getD_none, ← hfound, ← hsplit] at hidiom
    have hwrite :=
      render_shift_eq hnew harg' (operandText_of_rewrite hargClean.isArg.trimmed hnow hinner)
    have hwritten := (ChainText.call harg hspan h hname htext).quotes hquotes
    have hcalm := (DateTree.steady_text hnew).calm
    exact reaches_of_calm
      (rewrites_isCall hcall hname hidiom hwrite (h.ne_form hname hcall hnew) hwritten) hcalm

/-- One pass writes a chain as its expression with the clocks that are found for it. -/
theorem ChainText.translatePass_eq (h : ChainText start steps text) (hstart : BaseText base start)
    (hnew : (chainTree base.tree (foundClock base.clock) steps).text .sqlite = some new) :
    translatePass .sqlite text = new := by
  obtain ⟨hisArg, plain, hplain, hclocks⟩ := hstart.exists_plainText
  obtain ⟨text', htext', hwrites⟩ := h.exists_clocks hisArg hclocks
  have hdepth : steps.length < 8 * text.length + 63 := by
    have hle := h.length_le
    omega
  have hpass : rewrite .sqlite text = rewriteWithin .sqlite (8 * text.length + 63 + 1) text := rfl
  rw [translatePass, hpass, rewriteWithin, rewriteClocks, hwrites.rewriteWords_eq]
  have hcalls := (htext'.reaches hplain hdepth hnew).rewriteIntervals_eq
  rw [writeWithin] at hcalls
  rw [hcalls, DateTree.rewriteLimit_text hnew]

/-! ### Clocks -/

/-- `step` with the shift written as a call. -/
def Step.asCall (step : Step) : Step :=
  { step with isSum := false }

/-- Whether no call by a day or more stands around a sum with a time of day. -/
def keepsTime (base : Clock) : List Step → Bool
  | [] => true
  | step :: steps =>
    (step.isSum || step.span.unit.isSubDay || !endsInSum steps || chainClock base steps == .date) &&
      keepsTime base steps

/-- A chain of calls keeps its time of day. -/
theorem foundClock_asCall (base : Clock) (steps : List Step) :
    foundClock base (steps.map Step.asCall) = chainClock base steps := by
  induction steps with
  | nil => rfl
  | cons step steps ih =>
    have hsum : endsInSum (steps.map Step.asCall) = false := by cases steps <;> rfl
    simp only [List.map_cons, foundClock, chainClock, hsum, ih, Bool.and_false, Bool.false_eq_true,
      if_false]
    rfl

theorem chainTree_asCall (base : DateTree) (clock : Clock) (steps : List Step) :
    chainTree base (foundClock clock) (steps.map Step.asCall) =
      chainTree base (chainClock clock) steps := by
  induction steps with
  | nil => rfl
  | cons step steps ih =>
    have hclock := foundClock_asCall clock (step :: steps)
    rw [List.map_cons] at hclock
    rw [List.map_cons, chainTree, chainTree, hclock, ih]
    rfl

theorem foundClock_eq (clock : Clock) (step : Step) (steps : List Step)
    (h : foundClock clock steps = chainClock clock steps) :
    foundClock clock (step :: steps) = chainClock clock (step :: steps) ↔
      (step.isSum || step.span.unit.isSubDay || !endsInSum steps ||
        chainClock clock steps == .date) =
        true := by
  simp only [foundClock, chainClock, h]
  cases step.span.unit.isSubDay <;> cases step.isSum <;> cases endsInSum steps <;>
    cases chainClock clock steps <;> decide

/-! ### Forms that differ -/

/-- A form of SQLite other than that of a clock alone stands inside another as it is. -/
theorem argumentText_shift {span : Span} {clock : Clock} {tree : DateTree}
    (h : (DateTree.shift span clock tree).text .sqlite = some new) :
    argumentText .sqlite new = new := by
  obtain ⟨arg, -, rfl, -⟩ := DateTree.text_shift_sqlite h
  have hcomma : ∀ key : List Char, ',' ∉ key.map Char.toLower →
      sameAscii (call (shiftName span.unit clock) [argumentText .sqlite arg, spanModifier span])
        key = false := by
    intro key hkey
    rw [sameAscii, beq_eq_false_iff_ne]
    intro heq
    have hmem : ','.toLower ∈ key.map Char.toLower := by
      rw [← heq]
      exact List.mem_map_of_mem (by simp [call])
    exact hkey hmem
  rw [argumentText, hcomma _ (by decide), hcomma _ (by decide)]
  simp

theorem call_inj {name : String} {a b modifier : List Char}
    (h : call name [a, modifier] = call name [b, modifier]) : a = b := by
  simpa [call] using h

/-- Shifts by one span with different clocks have different forms. -/
theorem shiftName_inj {unit : TimeUnit} {clock clock' : Clock} {args args' : List (List Char)}
    (h : call (shiftName unit clock) args = call (shiftName unit clock') args')
    (hday : unit.isSubDay = false) : clock = clock' := by
  cases clock <;> cases clock' <;> simp [shiftName, hday, call] at h ⊢

/-! ### Chains that keep their time of day -/

theorem foundClock_of_keepsTime {clock : Clock} (h : keepsTime clock steps = true) :
    foundClock clock steps = chainClock clock steps := by
  induction steps with
  | nil => rfl
  | cons step steps ih =>
    obtain ⟨hstep, hsteps⟩ := (Bool.and_eq_true _ _).mp h
    exact (foundClock_eq clock step steps (ih hsteps)).2 hstep

theorem chainTree_of_keepsTime {clock : Clock} (tree : DateTree)
    (h : keepsTime clock steps = true) :
    chainTree tree (foundClock clock) steps = chainTree tree (chainClock clock) steps := by
  induction steps with
  | nil => rfl
  | cons step steps ih =>
    obtain ⟨-, hsteps⟩ := (Bool.and_eq_true _ _).mp h
    rw [chainTree, chainTree, foundClock_of_keepsTime h, ih hsteps]

/-- Where a time of day is lost the form is another. -/
theorem keepsTime_of_text {base : DateTree} {clock : Clock}
    (hfound : (chainTree base (foundClock clock) steps).text .sqlite = some new)
    (hchain : (chainTree base (chainClock clock) steps).text .sqlite = some new) :
    keepsTime clock steps = true := by
  induction steps generalizing new with
  | nil => rfl
  | cons step steps ih =>
    obtain ⟨arg, harg, hnew, -⟩ := DateTree.text_shift_sqlite hfound
    obtain ⟨arg', harg', hnew', -⟩ := DateTree.text_shift_sqlite hchain
    have hclock : foundClock clock (step :: steps) = chainClock clock (step :: steps) := by
      cases hday : step.span.unit.isSubDay with
      | true => simp [foundClock, chainClock, hday]
      | false => exact shiftName_inj (hnew.symm.trans hnew') hday
    rw [hclock] at hnew
    have hargs : argumentText .sqlite arg = argumentText .sqlite arg' :=
      call_inj (hnew.symm.trans hnew')
    have hsame : arg = arg' := by
      cases steps with
      | nil => exact Option.some.inj (harg.symm.trans harg')
      | cons => rwa [argumentText_shift harg, argumentText_shift harg'] at hargs
    have hsteps := ih harg (hsame ▸ harg')
    have hstep := (foundClock_eq clock step steps (foundClock_of_keepsTime hsteps)).1 hclock
    rw [keepsTime, hstep, hsteps]
    rfl

/-- A chain has a form if the days in its weeks fit in 64 bits. -/
theorem exists_chainTree_text {clock : List Step → Clock}
    (hweeks : ∀ step ∈ steps, step.span.unit = .week → fitsInt64 (step.span.amount * 7) = true) :
    ∃ new, (chainTree base.tree clock steps).text .sqlite = some new := by
  have hfit : (chainTree base.tree clock steps).weeksFit = true := by
    induction steps with
    | nil => cases base <;> rfl
    | cons step steps ih =>
      rw [chainTree, DateTree.weeksFit, ih fun s hs => hweeks s (List.mem_cons_of_mem _ hs)]
      have hstep := hweeks step List.mem_cons_self
      by_cases hweek : step.span.unit = .week
      · simp [hstep hweek]
      · simp [hweek]
  rw [← Option.isSome_iff_exists, DateTree.isSome_text, hfit]
  rfl

end Idiom

/-- A chain of shifts in which every shift is a call translates to calls that keep its time of day.
In another spelling the same chain translates to the same text exactly if no call by a day or more
stands around a sum with a time of day; such a call, and what is shifted by days on from there, is
one of a date. -/
theorem translate_chain_iff {base : Base} {steps : List Step} {start start' : List Char}
    {text text' : String} (hstart : BaseText base start) (h : ChainText start steps text.toList)
    (hstart' : BaseText base start') (h' : ChainText start' (steps.map Step.asCall) text'.toList)
    (hweeks : ∀ step ∈ steps, step.span.unit = .week → fitsInt64 (step.span.amount * 7) = true) :
    some (translate .sqlite text').toList =
        (chainTree base.tree (chainClock base.clock) steps).text .sqlite ∧
      some (translate .sqlite text).toList =
        (chainTree base.tree (foundClock base.clock) steps).text .sqlite ∧
      (translate .sqlite text = translate .sqlite text' ↔ keepsTime base.clock steps = true) := by
  have htranslate : ∀ {start : List Char} {steps : List Step} {text : String} {new : List Char},
      BaseText base start → ChainText start steps text.toList →
      (chainTree base.tree (foundClock base.clock) steps).text .sqlite = some new →
      translate .sqlite text = String.ofList new := fun hstart h hnew =>
    congrArg String.ofList
      (settle_of_step (h.translatePass_eq hstart hnew) (DateTree.translatePass_text hnew) 7)
  obtain ⟨new, hnew⟩ := @exists_chainTree_text base _ (foundClock base.clock) hweeks
  obtain ⟨new', hnew'⟩ := @exists_chainTree_text base _ (chainClock base.clock) hweeks
  have hcalls := chainTree_asCall base.tree base.clock steps
  rw [htranslate hstart h hnew, htranslate hstart' h' (hcalls ▸ hnew'), hnew, hnew',
    String.toList_ofList, String.toList_ofList]
  refine ⟨rfl, rfl, fun heq => ?_, fun hkeeps => ?_⟩
  · have hsame : new = new' := by simpa using congrArg String.toList heq
    exact keepsTime_of_text hnew (hsame ▸ hnew')
  · have htree := chainTree_of_keepsTime base.tree hkeeps
    rw [htree, hnew'] at hnew
    rw [Option.some.inj hnew]

/-- A day after two hours after a date, with the hours as a sum in the call for the day. -/
theorem translate_chain_hours :
    translate .sqlite "DATE_ADD(DATE_ADD(d, INTERVAL 2 HOUR), INTERVAL 1 DAY)" =
        "datetime(datetime(d, '+2 hours'), '+1 days')" ∧
      translate .sqlite "DATE_ADD(d + INTERVAL 2 HOUR, INTERVAL 1 DAY)" =
        "date(datetime(d, '+2 hours'), '+1 days')" := by
  let column : Column := ⟨['d'], by decide, by decide, by decide⟩
  let steps : List Step := [⟨⟨.day, 1, by decide⟩, false⟩, ⟨⟨.hour, 2, by decide⟩, true⟩]
  have hkeyword : Keyword "interval" "INTERVAL".toList := rfl
  have hhours : Counts 2 ⟨.hour, 2, by decide⟩ false ['2'] "HOUR".toList :=
    ⟨.unsigned rfl, by decide, ⟨by decide, by decide⟩, by decide, rfl⟩
  have hday : Counts 1 ⟨.day, 1, by decide⟩ false ['1'] "DAY".toList :=
    ⟨.unsigned rfl, by decide, ⟨by decide, by decide⟩, by decide, rfl⟩
  have htwoHours : IntervalOf ['2'] "HOUR".toList "INTERVAL 2 HOUR".toList :=
    .intro hkeyword [' '] rfl (by simp) (.bare [' '] rfl (by simp))
  have honeDay : IntervalOf ['1'] "DAY".toList "INTERVAL 1 DAY".toList :=
    .intro hkeyword [' '] rfl (by simp) (.bare [' '] rfl (by simp))
  have hbase : BaseText (.column column) column.text := .plain (.column column)
  have hsum : ChainText column.text (steps.drop 1) "d + INTERVAL 2 HOUR".toList :=
    .sum .base hhours (.intro (.inl rfl) [' '] [' '] (by decide) rfl htwoHours)
  have hmixed : ChainText column.text steps
      "DATE_ADD(d + INTERVAL 2 HOUR, INTERVAL 1 DAY)".toList :=
    .call hsum hday (.addInterval honeDay) (by decide) (written_call "DATE_ADD" _ _)
  have hinner : ChainText column.text ((steps.drop 1).map Step.asCall)
      "DATE_ADD(d, INTERVAL 2 HOUR)".toList :=
    .call .base hhours (.addInterval htwoHours) (by decide) (written_call "DATE_ADD" _ _)
  have hcalls : ChainText column.text (steps.map Step.asCall)
      "DATE_ADD(DATE_ADD(d, INTERVAL 2 HOUR), INTERVAL 1 DAY)".toList :=
    .call hinner hday (.addInterval honeDay) (by decide) (written_call "DATE_ADD" _ _)
  obtain ⟨hall, hfound, -⟩ := translate_chain_iff hbase hmixed hbase hcalls (by decide)
  have hchainText : (chainTree (.column column) (chainClock .date) steps).text .sqlite =
      some "datetime(datetime(d, '+2 hours'), '+1 days')".toList := by
    decide +kernel
  have hfoundText : (chainTree (.column column) (foundClock .date) steps).text .sqlite =
      some "date(datetime(d, '+2 hours'), '+1 days')".toList := by
    decide +kernel
  exact ⟨String.toList_inj.1 (Option.some.inj (hall.trans hchainText)),
    String.toList_inj.1 (Option.some.inj (hfound.trans hfoundText))⟩

end AskSql
