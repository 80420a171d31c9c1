import AskSql.Proofs.Idiom.Names

/-! Texts that rewriting leaves as they are, and how every operation makes a longer one from a
shorter one.  SQLite reads the current date or moment inside a form as the time value `'now'`;
everywhere else the argument of a form stands in it unchanged. -/

namespace AskSql.Idiom

open Text Sql

variable {dialect : Dialect} {write : Idiom → Option (List Char)} {rewrite : List Char → List Char}
  {text arg : List Char} {calls : Nat}

/-! ### Texts that stay -/

/-- The number of calls in a text. -/
def callCount (text : List Char) : Nat :=
  text.count '('

/-- A text that stays in a dialect, by itself and inside the forms of the dialect. -/
structure Steady (dialect : Dialect) (text : List Char) : Prop where
  clean : Clean text
  head : ∃ c ∈ text.head?, isWordChar c = true
  calm : Calm text
  moment : dialect = .sqlServer → isNowClock text = true → text = call "GETDATE" []
  rewrites : ∀ depth, callCount text ≤ depth →
    Rewrites (rewriteCallAt? (render dialect (operandText dialect (rewriteWithin dialect depth))))
      text text

/-- `rewrite` leaves the texts that stay and have fewer than `calls` calls, and writes out a
clock. -/
structure Keeps (dialect : Dialect) (rewrite : List Char → List Char) (calls : Nat) : Prop where
  steady : ∀ text, Steady dialect text → callCount text < calls → rewrite text = text
  clock : ∀ clock, rewrite (clockWord clock) = renderClock dialect clock

theorem Steady.rewriteWithin_eq (h : Steady dialect text) {depth : Nat}
    (hdepth : callCount text < depth) : rewriteWithin dialect depth text = text := by
  obtain ⟨depth, rfl⟩ := Nat.exists_eq_succ_of_ne_zero (Nat.ne_zero_of_lt hdepth)
  rw [rewriteWithin, rewriteClocks, (h.clean.clockFree _).rewriteWords_eq, rewriteCalls,
    (h.rewrites depth (Nat.le_of_lt_succ hdepth)).rewriteWords_eq, h.calm.rewriteIntervals_eq]

theorem rewriteWithin_clockWord (depth : Nat) (clock : Clock) :
    rewriteWithin dialect (depth + 1) (clockWord clock) = renderClock dialect clock := by
  have hword : ∀ c ∈ clockWord clock, isWordChar c = true := by cases clock <;> decide
  have hclock : clockKeyword? (clockWord clock) = some clock := by cases clock <;> decide
  have hclocks := @rewrites_clock (renderClock dialect) _ _ hword hclock
  have hcalls := rewrites_renderClock dialect clock
    (operandText dialect (rewriteWithin dialect depth))
  obtain ⟨-, -, -, hcalm, -⟩ := renderClock_chars dialect clock
  rw [rewriteWithin, rewriteClocks, hclocks.rewriteWords_eq, rewriteCalls, hcalls.rewriteWords_eq,
    hcalm.rewriteIntervals_eq]

theorem keeps_rewriteWithin {depth : Nat} (h : calls ≤ depth) (hcalls : 0 < calls) :
    Keeps dialect (rewriteWithin dialect depth) calls where
  steady text hsteady hlt := hsteady.rewriteWithin_eq (by omega)
  clock clock := by
    obtain ⟨depth, rfl⟩ := Nat.exists_eq_succ_of_ne_zero (by omega : depth ≠ 0)
    exact rewriteWithin_clockWord depth clock

theorem Steady.rewrite_eq (h : Steady dialect text) : Idiom.rewrite dialect text = text := by
  have hle : callCount text ≤ text.length := List.count_le_length
  exact h.rewriteWithin_eq (by rw [depthFor]; omega)

theorem keeps_rewrite : Keeps dialect (Idiom.rewrite dialect) calls where
  steady _ h _ := h.rewrite_eq
  clock clock := rewriteWithin_clockWord _ clock

/-! ### Arguments -/

/-- `arg` as it is written inside a form. -/
def argumentText (dialect : Dialect) (arg : List Char) : List Char :=
  if dialect = .sqlite ∧
      (sameAscii arg "date('now')".toList ∨ sameAscii arg "datetime('now')".toList) then
    "'now'".toList
  else arg

theorem argumentText_cases (dialect : Dialect) (arg : List Char) :
    argumentText dialect arg = arg ∨ dialect = .sqlite ∧
    argumentText dialect arg = "'now'".toList := by
  unfold argumentText
  split
  · rename_i h
    exact Or.inr ⟨h.1, rfl⟩
  · exact Or.inl rfl

theorem operandText_of_rewrite {new : List Char} (htrim : Trimmed arg)
    (hnow : isNowLiteral arg = false) (h : rewrite arg = new) :
    operandText dialect rewrite arg = argumentText dialect new := by
  simp only [operandText, htrim.trim_eq, hnow, h, Bool.false_eq_true, if_false]
  rfl

theorem Keeps.operandText_eq (h : Keeps dialect rewrite calls) (harg : Steady dialect arg)
    (hcalls : callCount arg < calls) : operandText dialect rewrite arg = argumentText dialect arg :=
  operandText_of_rewrite harg.clean.isArg.trimmed (isNowLiteral_of_head harg.head)
    (h.steady arg harg hcalls)

/-- SQLite takes both clocks for the time value. -/
theorem Keeps.operandText_clockWord (h : Keeps .sqlite rewrite calls) (clock : Clock) :
    operandText .sqlite rewrite (clockWord clock) = "'now'".toList := by
  have hnow : isNowLiteral (clockWord clock) = false := by cases clock <;> decide
  have htrim : trim (clockWord clock) = clockWord clock := by cases clock <;> decide
  simp only [operandText, htrim, hnow, h.clock]
  cases clock <;> decide

/-! ### Calls that stay -/

/-- A text that stays because it reads back as itself. -/
structure SteadyCall (dialect : Dialect) (text : List Char) : Prop extends Steady dialect text where
  readsBack : ∀ rewrite, Keeps dialect rewrite (callCount text) →
    ReadsBack (render dialect (operandText dialect rewrite)) text

theorem calm_name {name : List Char} (h : IsName name) : Calm name :=
  calm_of_forall fun c hc => by
    have hname := h.chars c hc
    refine ⟨?_, ?_, ?_⟩ <;> (rintro rfl; exact absurd hname (by decide))

theorem callCount_lt (name : String) {args : List (List Char)} {a : List Char}
    (ha : a ∈ arg :: args) : callCount a < callCount (call name (arg :: args)) := by
  have hsublist := (written_call name arg args).sublist ha
  have hle := hsublist.count_le '('
  rw [List.count_cons_self] at hle
  exact hle

/-- A call stays if its arguments do and it is recognised as what is written as the call. -/
theorem steadyCall_call {name : String} {args : List (List Char)} {function : DateFunction}
    (hname : DateFunction.ofName? name.toList = some function)
    (hmoment : dialect = .sqlServer → function ≠ .moment ∧ function ≠ .datetime)
    (hclean : ∀ a ∈ arg :: args, Clean a) (hcalm : ∀ a ∈ arg :: args, Calm a)
    (hstay : ∀ depth, callCount (call name (arg :: args)) ≤ depth → ∀ a ∈ arg :: args,
      Rewrites (rewriteCallAt? (render dialect (operandText dialect (rewriteWithin dialect depth))))
      a a)
    (hread : ∀ rewrite, Keeps dialect rewrite (callCount (call name (arg :: args))) →
      ∃ idiom, recognise function (arg :: args) = some idiom ∧
        render dialect (operandText dialect rewrite) idiom = some (call name (arg :: args))) :
    SteadyCall dialect (call name (arg :: args)) := by
  have hisName := isName_of_ofName? hname
  have hwritten := written_call name arg args
  have hreads : ∀ rewrite, Keeps dialect rewrite (callCount (call name (arg :: args))) →
      ReadsBack (render dialect (operandText dialect rewrite)) (call name (arg :: args)) :=
    fun rewrite hkeeps => by
      obtain ⟨idiom, hidiom, hwrite⟩ := hread rewrite hkeeps
      exact readsBack_call hname (fun a ha => (hclean a ha).isArg) hidiom hwrite
  have hpos : 0 < callCount (call name (arg :: args)) :=
    Nat.zero_lt_of_lt (callCount_lt name List.mem_cons_self)
  refine ⟨⟨clean_written hwritten hisName (length_of_ofName? hname) hclean (by simp),
    hwritten.head hisName, calm_call (calm_name hisName) hcalm, fun hserver hnow => ?_,
    fun depth hdepth => ?_⟩, hreads⟩
  · obtain ⟨hnotMoment, hnotDatetime⟩ := hmoment hserver
    obtain ⟨inner, hcall, -⟩ :=
      hwritten.isCall hisName (fun a ha => (hclean a ha).isArg) (by simp)
    rw [isNowClock_eq_false hwritten.paren_mem hcall.callParts_eq hname hnotMoment
      hnotDatetime] at hnow
    contradiction
  · have hkeeps := @keeps_rewriteWithin dialect _ _ hdepth hpos
    exact rewrites_call hisName (hstay depth hdepth) (hreads _ hkeeps).rewriteCallAt?_eq_none

/-! ### Clocks and columns -/

theorem Column.steady (column : Column) (dialect : Dialect) : Steady dialect column.text where
  clean := ⟨column.isArg, column.clockFree⟩
  head := column.start
  calm := column.calm
  moment _ h := by simp [column.isNowClock_eq] at h
  rewrites _ _ := column.quiet _ (selective_rewriteCallAt? _)

theorem Column.open_not_mem (column : Column) : '(' ∉ column.text := fun hmem =>
  column.forall_mem (p := (· ≠ '(')) (fun c hc => by rintro rfl; exact absurd hc (by decide))
    (by decide) _ hmem rfl

/-- A column is written inside a form as it is. -/
theorem Keeps.operandText_column (h : Keeps dialect rewrite 1) (column : Column) :
    operandText dialect rewrite column.text = column.text := by
  have hcount : callCount column.text < 1 := by
    rw [callCount, List.count_eq_zero_of_not_mem column.open_not_mem]
    exact Nat.one_pos
  have hsame : ∀ key : List Char, '(' ∈ key → sameAscii column.text key = false :=
    fun _ => sameAscii_eq_false_of_not_mem column.open_not_mem
  rw [h.operandText_eq (column.steady dialect) hcount, argumentText, hsame _ (by decide),
    hsame _ (by decide)]
  simp

theorem steadyCall_renderClock (dialect : Dialect) (clock : Clock) :
    SteadyCall dialect (renderClock dialect clock) := by
  obtain ⟨hplain, -, hquotes, hcalm, -⟩ := renderClock_chars dialect clock
  have hclosed : Closed (renderClock dialect clock) := by cases dialect <;> cases clock <;> decide
  have htrimmed : Trimmed (renderClock dialect clock) := by cases dialect <;> cases clock <;> decide
  refine ⟨⟨Tame.clean ⟨hclosed, hquotes, hplain⟩ htrimmed, ?_, hcalm, ?_, fun depth _ =>
    rewrites_renderClock dialect clock _⟩, fun rewrite _ => ?_⟩
  · cases dialect <;> cases clock <;> decide
  · rintro rfl
    cases clock <;> decide +kernel
  · obtain ⟨name, inner, function, hcall, hname, -, hidiom⟩ := isCall_renderClock dialect clock
    exact ⟨name, inner, function, .clock clock, hcall, hname, hidiom clockOf, rfl⟩

/-! ### Parts and periods -/

/-- The unit of a shift matters to its clock only if it is shorter than a day. -/
theorem clockOf_eq (arg : List Char) (unit : TimeUnit) :
    clockOf arg unit = if unit.isSubDay then .now else clockOf arg .day := by
  unfold clockOf
  simp only [clockWithin]
  cases unit.isSubDay <;> rfl

/-- The form of a part or a period stays if it has its argument in it unchanged. -/
theorem steadyCall_write (h : Steady dialect arg) (hsame : argumentText dialect arg = arg)
    (operation : Operation) :
    SteadyCall dialect (operation.write dialect (operation.clock (clockOf arg .day)) arg) := by
  obtain ⟨name, function, args, hform, hname, hdatetime, hwrite⟩ :=
    operation.form_write dialect (clockOf arg .day) arg
  obtain ⟨first, args, rfl⟩ := List.exists_cons_of_ne_nil hform.ne_nil
  obtain ⟨a, ha, hsublist⟩ := hform.sublist
  have hclean := hform.clean h.clean
  have hisName := isName_of_ofName? hname
  have hwritten := written_call name first args
  have hlt : callCount arg < callCount (call name (first :: args)) :=
    Nat.lt_of_le_of_lt (hsublist.count_le '(') (callCount_lt _ ha)
  have hcalm := operation.calm_write dialect (operation.clock (clockOf arg .day)) h.calm
  have hclock := clockOf_eq arg
  rw [hwrite] at hcalm
  have hoperand : ∀ rewrite, Keeps dialect rewrite (callCount (call name (first :: args))) →
      operandText dialect rewrite arg = arg := fun rewrite hkeeps => by
    rw [hkeeps.operandText_eq h hlt, hsame]
  rw [hwrite]
  refine ⟨⟨clean_written hwritten hisName (length_of_ofName? hname) hclean (by simp),
    hwritten.head hisName, hcalm, fun hserver hnow => ?_, fun depth hdepth => ?_⟩,
    fun rewrite hkeeps => ?_⟩
  · obtain ⟨inner, hcall, -⟩ :=
      hwritten.isCall hisName (fun a ha => (hclean a ha).isArg) (by simp)
    rw [isNowClock_eq_false hwritten.paren_mem hcall.callParts_eq hname hform.ne_moment
      (hdatetime (by simp [hserver]))] at hnow
    contradiction
  · have hkeeps := @keeps_rewriteWithin dialect _ _ hdepth (by omega)
    have hstays : Stays dialect (operandText dialect (rewriteWithin dialect depth))
        (clockOf arg .day) arg :=
      ⟨h.clean, h.head, h.moment, hclock, hoperand _ hkeeps, h.rewrites depth (by omega)⟩
    rw [← hwrite]
    exact hstays.rewrites_write operation
  · rw [← hwrite]
    exact readsBack_write h.clean h.head hclock (hoperand _ hkeeps) operation

/-- What a form of SQLite with the time value in it has to satisfy to stay. -/
theorem steadyCall_now {name : String} {args : List (List Char)} {function : DateFunction}
    {idiom : Idiom} (hname : DateFunction.ofName? name.toList = some function)
    (hargs : ∀ a ∈ arg :: args, Tame a ∧ Trimmed a ∧ Calm a ∧ isQuiet a = true)
    (hidiom : recognise function (arg :: args) = some idiom)
    (hwrite : ∀ rewrite, render .sqlite (operandText .sqlite rewrite) idiom =
      some (call name (arg :: args))) : SteadyCall .sqlite (call name (arg :: args)) :=
  steadyCall_call hname (by simp) (fun a ha => (hargs a ha).1.clean (hargs a ha).2.1)
    (fun a ha => (hargs a ha).2.2.1) (fun _ _ a ha => rewrites_fixed (hargs a ha).2.2.2)
    fun rewrite _ => ⟨idiom, hidiom, hwrite rewrite⟩

theorem steadyCall_extract_now (part : DatePart) :
    SteadyCall .sqlite (renderExtract .sqlite part "'now'".toList) := by
  cases part <;> exact steadyCall_now rfl (by decide) rfl fun _ => rfl

theorem steadyCall_truncate_now (part : DatePart) :
    SteadyCall .sqlite (renderTruncate .sqlite part "'now'".toList) := by
  cases part <;> exact steadyCall_now rfl (by decide) rfl fun _ => rfl

theorem Steady.extract (h : Steady dialect arg) (part : DatePart) :
    SteadyCall dialect (renderExtract dialect part (argumentText dialect arg)) := by
  rcases argumentText_cases dialect arg with hsame | ⟨rfl, hnow⟩
  · rw [hsame]
    exact steadyCall_write h hsame (.extract part)
  · rw [hnow]
    exact steadyCall_extract_now part

theorem Steady.truncate (h : Steady dialect arg) (part : DatePart) :
    SteadyCall dialect (renderTruncate dialect part (argumentText dialect arg)) := by
  rcases argumentText_cases dialect arg with hsame | ⟨rfl, hnow⟩
  · rw [hsame]
    exact steadyCall_write h hsame (.truncate part)
  · rw [hnow]
    exact steadyCall_truncate_now part

/-! ### Shifts -/

/-- The modifier of a shift in SQLite. -/
def modifierText (n : Int) (unit : TimeUnit) : List Char :=
  '\'' :: signedText n ++ ' ' :: unit.keyword.toList ++ "s'".toList

/-- The interval of a shift in MySQL. -/
def intervalForm (n : Int) (unit : TimeUnit) : List Char :=
  "INTERVAL ".toList ++ amountText n ++ ' ' :: unit.capitals

/-- The name of a shift in SQLite tells its clock. -/
def shiftName (unit : TimeUnit) (clock : Clock) : String :=
  if clock = .now || unit.isSubDay then "datetime" else "date"

/-- The clock that the name of a shift tells is written as the name again. -/
theorem exists_shiftName (unit : TimeUnit) (clock : Clock) :
    ∃ function told, DateFunction.ofName? (shiftName unit clock).toList = some function ∧
      (∀ args, recognise function args = dateCall? told args) ∧
      shiftName unit told = shiftName unit clock := by
  unfold shiftName
  by_cases hnow : (clock = .now || unit.isSubDay) = true
  · rw [if_pos hnow]
    exact ⟨.datetime, .now, rfl, fun _ => rfl, by simp⟩
  · have hday : unit.isSubDay = false := by simp_all
    rw [if_neg hnow]
    exact ⟨.date, .date, rfl, fun _ => rfl, by simp [hday]⟩

section Amounts

variable {n : Int} (unit : TimeUnit) (h : fitsInt64 n = true)
include h

theorem modifier_modifierText : Modifier n unit (modifierText n unit) :=
  modifier_amount unit h

theorem calm_modifierText : Calm (modifierText n unit) := by
  obtain ⟨content, hcontent, hquote, -⟩ := (modifier_modifierText unit h).exists_quoted
  exact hcontent ▸ calm_quoted hquote

theorem rewrites_modifierText :
    Rewrites (rewriteCallAt? write) (modifierText n unit) (modifierText n unit) := by
  obtain ⟨content, hcontent, hquote, -⟩ := (modifier_modifierText unit h).exists_quoted
  exact hcontent ▸ rewrites_quoted hquote

/-- A shift in SQLite by an amount that is written there. -/
theorem steadyCall_modifier (clock : Clock) (hweek : unit ≠ .week) (hclean : Clean arg)
    (hcalm : Calm arg)
    (hstay : ∀ depth, callCount arg ≤ depth →
      Rewrites (rewriteCallAt? (render .sqlite (operandText .sqlite (rewriteWithin .sqlite depth))))
        arg arg)
    (hoperand : ∀ rewrite clock calls, Keeps .sqlite rewrite calls → callCount arg < calls →
      operandText .sqlite rewrite (if isNowLiteral arg then clockWord clock else arg) = arg) :
    SteadyCall .sqlite (call (shiftName unit clock) [arg, modifierText n unit]) := by
  have hmodifier := modifier_modifierText unit h
  obtain ⟨function, told, hname, hrecognise, htold⟩ := exists_shiftName unit clock
  refine steadyCall_call hname (by simp) ?_ ?_ (fun depth hdepth => ?_) fun rewrite hkeeps => ?_
  · simpa using ⟨hclean, hmodifier.tame.clean hmodifier.isArg.trimmed⟩
  · simpa using ⟨hcalm, calm_modifierText unit h⟩
  · have hlt := callCount_lt (shiftName unit clock)
      (List.mem_cons_self (a := arg) (l := [modifierText n unit]))
    simpa using ⟨hstay depth (by omega), rewrites_modifierText unit h⟩
  · refine ⟨_, by rw [hrecognise, dateCall?_modifier hmodifier], ?_⟩
    rw [render, hoperand rewrite told _ hkeeps (callCount_lt _ List.mem_cons_self), ← htold]
    simp only [renderShift, if_neg hweek, Option.map_some]
    rfl

end Amounts

/-- A shift stays, whichever clock it has. -/
theorem Steady.shift {n : Int} {unit : TimeUnit} {clock : Clock} (h : Steady dialect arg)
    (hn : fitsInt64 n = true)
    (htext : renderShift dialect unit n (argumentText dialect arg) clock = some text) :
    SteadyCall dialect text := by
  cases dialect with
  | sqlite =>
    have hmodifier : ∀ (unit : TimeUnit) (n : Int), unit ≠ .week → fitsInt64 n = true →
        SteadyCall .sqlite (call (shiftName unit clock)
          [argumentText .sqlite arg, modifierText n unit]) := by
      intro unit n hweek hn
      rcases argumentText_cases .sqlite arg with hsame | ⟨-, hnow⟩
      · rw [hsame]
        refine steadyCall_modifier unit hn clock hweek h.clean h.calm h.rewrites
          fun rewrite clock calls hkeeps hcalls => ?_
        rw [isNowLiteral_of_head h.head, if_neg (by simp), hkeeps.operandText_eq h hcalls, hsame]
      · rw [hnow]
        exact steadyCall_modifier unit hn clock hweek (Tame.clean (by decide) (by decide))
          (by decide) (fun _ _ => rewrites_fixed (by decide))
          fun rewrite clock calls hkeeps _ => hkeeps.operandText_clockWord clock
    simp only [renderShift] at htext
    split at htext
    · obtain ⟨pair, hpair, rfl⟩ := Option.map_eq_some_iff.1 htext
      obtain ⟨days, hdays, rfl⟩ := Option.map_eq_some_iff.1 hpair
      exact hmodifier .day days (by simp) (Option.filter_eq_some_iff.1 hdays).2
    · rename_i hweek
      obtain rfl := Option.some.inj htext
      exact hmodifier unit n hweek hn
  | sqlServer =>
    have hsame : argumentText .sqlServer arg = arg := rfl
    obtain rfl := Option.some.inj htext
    obtain ⟨hnumber, htrim⟩ := number_amountText hn
    rw [hsame]
    have hname : DateFunction.ofName? "DATEADD".toList = some .dateAdd := rfl
    have hmem : arg ∈ [unit.keyword.toList, amountText n, arg] := by simp
    refine steadyCall_call hname (by simp) ?_ ?_ (fun depth hdepth => ?_)
      fun rewrite hkeeps => ⟨.shift unit n arg (clockOf arg unit), ?_, ?_⟩
    · simpa using ⟨(reads_unit unit).tame.clean (reads_unit unit).trimmed,
        (tame_of_spacedNumber hnumber).clean htrim, h.clean⟩
    · simpa using ⟨by cases unit <;> decide, calm_amountText hn, h.calm⟩
    · have hlt := callCount_lt "DATEADD" hmem
      simpa using ⟨rewrites_fixed (by cases unit <;> decide),
        quiet_amountText hn _ (selective_rewriteCallAt? _), h.rewrites depth (by omega)⟩
    · simp only [recognise, recogniseWith, hnumber, (reads_unit unit).value, Option.map_some]
    · rw [render, hkeeps.operandText_eq h (callCount_lt _ hmem), hsame]
      rfl
  | mySql =>
    have hsame : argumentText .mySql arg = arg := rfl
    obtain rfl := Option.some.inj htext
    have hinterval : IntervalText n unit (intervalForm n unit) := intervalText_amount unit hn
    rw [hsame]
    change SteadyCall .mySql (call "DATE_ADD" [arg, intervalForm n unit])
    have hname : DateFunction.ofName? "DATE_ADD".toList = some .addInterval := rfl
    refine steadyCall_call hname (by simp) ?_ ?_ (fun depth hdepth => ?_)
      fun rewrite hkeeps => ⟨.shift unit n arg (clockOf arg unit), ?_, ?_⟩
    · simpa using ⟨h.clean, hinterval.tame.clean hinterval.trimmed⟩
    · simpa using ⟨h.calm, calm_interval unit hn⟩
    · have hlt := callCount_lt "DATE_ADD"
        (List.mem_cons_self (a := arg) (l := [intervalForm n unit]))
      simpa using ⟨h.rewrites depth (by omega), rewrites_interval unit hn⟩
    · simp only [recognise, recogniseWith, hinterval.interval?_eq, Option.map_some]
    · rw [render, hkeeps.operandText_eq h (callCount_lt _ List.mem_cons_self), hsame]
      rfl

end AskSql.Idiom
