import AskSql.Proofs.Translate.Amounts

/-! Calls of the date functions of SQLite, translated for SQLite.  A call that shifts a column stays
a call of its function, however large the number of units.  The start of a period is always a call
of `DATE`, so a call of `DATETIME` for it does not stay one of `DATETIME`. -/

namespace AskSql

open Text Sql Idiom

namespace Idiom

/-! ### Functions of SQLite -/

/-- The function that the whole of a text is a call of. -/
def calledFunction? (text : List Char) : Option DateFunction := do
  let (name, _) ← callParts text
  DateFunction.ofName? name

/-- The function of SQLite whose results have `clock`. -/
def clockFunction : Clock → DateFunction
  | .date => .date
  | .now => .datetime

/-- A modifier of SQLite: the start of a period, in any case, or a number of units that are no
shorter than a day.  `starts` tells the two apart. -/
inductive NativeModifier : (starts : Bool) → List Char → Prop
  | startOf {part : DatePart} {start : List Char} (hweek : part ≠ .week)
      (h : lowerAscii start = "start of ".toList ++ part.keyword.toList) :
      NativeModifier true (quoted start)
  | units {n : Int} {number word modifier : List Char} {unit : TimeUnit} (hn : Numeral n number)
      (hword : IsWord word) (hunit : TimeUnit.ofText? word = some unit)
      (hday : unit.isSubDay = false)
      (h : QuotedBoth number word modifier) : NativeModifier false modifier

variable {column : Column} {name start modifier text inner : List Char} {part : DatePart}
  {clock : Clock}

theorem calledFunction?_isCall (h : IsCall name inner text) :
    calledFunction? text = DateFunction.ofName? name := by
  simp only [calledFunction?, h.callParts_eq, Option.bind_eq_bind, Option.bind_some]

theorem calledFunction?_call (name : String) {arg : List Char} {args : List (List Char)}
    (hname : IsName name.toList) (hargs : ∀ a ∈ arg :: args, IsArg a) :
    calledFunction? (call name (arg :: args)) = DateFunction.ofName? name.toList := by
  obtain ⟨inner, hcall, -⟩ := (written_call name arg args).isCall hname hargs (by simp)
  exact calledFunction?_isCall hcall

/-! ### Starts of periods -/

/-- Both functions take the start of a period for the same idiom. -/
theorem recognise_startOf (hweek : part ≠ .week)
    (h : lowerAscii start = "start of ".toList ++ part.keyword.toList) (clock : Clock)
    (arg : List Char) :
    recognise (clockFunction clock) [arg, quoted start] = some (.truncate part arg) := by
  have hdate := dateCall?_startOf hweek h arg
  cases clock with
  | date => exact hdate
  | now =>
    -- Which function is called is looked at only where no period starts.
    simp only [dateCall?, lowerAscii_quoted, h] at hdate
    simp only [clockFunction, recognise, recogniseWith, dateCall?, lowerAscii_quoted, h]
    cases part with
    | year | month | day => rfl
    | week => contradiction

theorem clean_startOf (h : lowerAscii start = "start of ".toList ++ part.keyword.toList) :
    Clean (quoted start) ∧ '\'' ∉ start := by
  have hquote : '\'' ∉ "start of ".toList ++ part.keyword.toList := by cases part <;> decide
  have hplain : '_' ∉ "start of ".toList ++ part.keyword.toList := by cases part <;> decide
  exact ⟨clean_quoted (tame_quoted_of_lowerAscii h hquote hplain),
    not_mem_of_lowerAscii h (by decide) hquote⟩

/-- The start of a period is written as the form that both functions share. -/
theorem settle_startOf (hname : DateFunction.ofName? name = some (clockFunction clock))
    (hweek : part ≠ .week) (h : lowerAscii start = "start of ".toList ++ part.keyword.toList)
    (htext : Written name [column.text, quoted start] text) :
    settle (translatePass .sqlite) maxPasses text = renderTruncate .sqlite part column.text := by
  obtain ⟨hclean, hquote⟩ := clean_startOf h
  have hcolumn : Clean column.text := ⟨column.isArg, column.clockFree⟩
  have hargs : ∀ a ∈ [column.text, quoted start], Clean a := by simpa using ⟨hcolumn, hclean⟩
  have hform : ((DateTree.truncate part (.column column)).text .sqlite) =
      some (renderTruncate .sqlite part column.text) := by
    simp only [DateTree.text, form, render, Option.bind_eq_bind, Option.bind_some]
    rw [keeps_rewrite.operandText_column]
  have hclocks : rewriteClocks (renderClock .sqlite) text = text :=
    ((clean_written htext (isName_of_ofName? hname) (length_of_ofName? hname) hargs
      (by simp)).clockFree _).rewriteWords_eq
  have hpass : translatePass .sqlite text = renderTruncate .sqlite part column.text := by
    obtain ⟨depth, hdepth⟩ : ∃ depth, depthFor text = depth + 2 := ⟨8 * text.length + 62, rfl⟩
    have hkeeps := @keeps_rewriteWithin .sqlite 1 _ (Nat.le_add_left 1 depth) Nat.one_pos
    have hstay : ∀ a ∈ [column.text, quoted start], Rewrites (rewriteCallAt?
        (render .sqlite (operandText .sqlite (rewriteWithin .sqlite (depth + 1))))) a a := by
      simpa using ⟨column.quiet _ (selective_rewriteCallAt? _), rewrites_quoted hquote⟩
    have hcalls := rewriteCalls_written htext hname (fun a ha => (hargs a ha).isArg) (by simp) hstay
    rw [recognise_startOf hweek h, Option.bind_some, render, hkeeps.operandText_column,
      Option.getD_some] at hcalls
    rw [translatePass, Idiom.rewrite, hdepth, rewriteWithin, hclocks, hcalls,
      (DateTree.steady_text hform).calm.rewriteIntervals_eq, DateTree.rewriteLimit_text hform]
  exact settle_of_step hpass (DateTree.translatePass_text hform) 7

theorem calledFunction?_renderTruncate (hweek : part ≠ .week) (column : Column) :
    calledFunction? (renderTruncate .sqlite part column.text) = some .date := by
  have hdate : DateFunction.ofName? "date".toList = some .date := by decide
  have hargs : ∀ content : List Char, '\'' ∉ content → '_' ∉ content →
      ∀ a ∈ [column.text, quoted content], IsArg a := fun content hquote hplain => by
    simpa using ⟨column.isArg, isArg_quoted hquote hplain⟩
  cases part with
  | year =>
    exact (calledFunction?_call "date" (by decide)
      (hargs "start of year".toList (by decide) (by decide))).trans hdate
  | month =>
    exact (calledFunction?_call "date" (by decide)
      (hargs "start of month".toList (by decide) (by decide))).trans hdate
  | day => exact (calledFunction?_call "date" (by decide) (by simpa using column.isArg)).trans hdate
  | week => contradiction

/-! ### Units -/

/-- A shift by days or longer units is written with the function for its clock. -/
theorem calledFunction?_shiftForm {n : Int} {unit : TimeUnit} (hday : unit.isSubDay = false)
    (hfits : shiftFits .sqlite unit n false = true) (column : Column) (clock : Clock) :
    calledFunction? (shiftForm .sqlite unit n column.text clock) = some (clockFunction clock) := by
  have hcall : ∀ (m : Int) (unit : TimeUnit), fitsInt64 m = true → unit.isSubDay = false →
      calledFunction? (call (shiftName unit clock) [column.text, modifierText m unit]) =
        some (clockFunction clock) := fun m unit hm hday => by
    have hargs : ∀ a ∈ [column.text, modifierText m unit], IsArg a := by
      simpa using ⟨column.isArg, (modifier_modifierText unit hm).isArg⟩
    have hname : IsName (shiftName unit clock).toList := by
      unfold shiftName
      split <;> decide
    rw [calledFunction?_call _ hname hargs]
    cases clock <;> simp only [shiftName, hday] <;> decide
  simp only [shiftFits, signed, Bool.and_eq_true, Bool.or_eq_true] at hfits
  obtain ⟨⟨hn, -⟩, hweeks⟩ := hfits
  cases unit with
  | week => exact hcall _ .day (by simpa using hweeks) rfl
  | _ => exact hcall _ _ hn hday

/-- A text that shifts a column stays a call of the same function, rewritten or not. -/
theorem calledFunction?_settle_units {n : Int} {number word : List Char} {unit : TimeUnit}
    (hname : DateFunction.ofName? name = some (clockFunction clock)) (hn : Numeral n number)
    (hword : IsWord word) (hunit : TimeUnit.ofText? word = some unit) (hday : unit.isSubDay = false)
    (h : QuotedBoth number word modifier) (htext : Written name [column.text, modifier] text) :
    calledFunction? (settle (translatePass .sqlite) maxPasses text) =
      some (clockFunction clock) := by
  have hshift : ShiftText column.text number word false (some clock) text := by
    cases clock with
    | date => exact .call (.date h) hname htext
    | now => exact .call (.datetime h) hname htext
  rw [hshift.settle_eq hn hword hunit]
  cases hfits : shiftFits .sqlite unit n false with
  | true => exact calledFunction?_shiftForm hday hfits column clock
  | false =>
    have hargs : ∀ a ∈ [column.text, modifier], IsArg a := by
      simpa using ⟨column.isArg, (h.mute hn.isNumber hword).closed, h.trimmed⟩
    obtain ⟨inner, hcall, -⟩ := htext.isCall (isName_of_ofName? hname) hargs (by simp)
    exact (calledFunction?_isCall hcall).trans hname

end Idiom

/-- A call of `DATE` or `DATETIME` of a column with a modifier stays a call of its function on
SQLite, unless it takes the start of a period: that is a call of `DATE`, whichever of the two was
written. -/
theorem calledFunction?_translate {column : Column} {clock : Clock} {name modifier : List Char}
    {starts : Bool} {text : String} (hname : DateFunction.ofName? name = some (clockFunction clock))
    (hmodifier : NativeModifier starts modifier)
    (htext : Written name [column.text, modifier] text.toList) :
    calledFunction? (translate .sqlite text).toList =
      some (if starts then .date else clockFunction clock) := by
  rw [translate, String.toList_ofList]
  cases hmodifier with
  | startOf hweek h =>
    rw [settle_startOf hname hweek h htext]
    exact calledFunction?_renderTruncate hweek column
  | units hn hword hunit hday h =>
    exact calledFunction?_settle_units hname hn hword hunit hday h htext

/-- Seven days after a timestamp are a timestamp; the start of its month is written as a date. -/
theorem calledFunction?_translate_orders :
    calledFunction? (translate .sqlite "datetime(o.at, '+7 days')").toList = some .datetime ∧
      calledFunction? (translate .sqlite "DATETIME (o.at, 'Start of month')").toList =
        some .date := by
  let column : Column := ⟨"o.at".toList, by decide, by decide, by decide⟩
  have hunits : NativeModifier false "'+7 days'".toList :=
    @NativeModifier.units 7 "+7".toList "days".toList _ .day (.plus rfl) ⟨by decide, by decide⟩
      (by decide) rfl (.intro [] [' '] [] rfl rfl (by simp) rfl)
  have hstart : NativeModifier true "'Start of month'".toList :=
    @NativeModifier.startOf .month "Start of month".toList (by decide) (by decide)
  have hwritten : Written "DATETIME".toList [column.text, "'Start of month'".toList]
      "DATETIME (o.at, 'Start of month')".toList := by
    refine .intro [' '] ["o.at".toList, " 'Start of month'".toList] rfl (.cons ?_ (.cons ?_ .nil))
    · exact ⟨[], [], rfl, rfl, rfl⟩
    · exact ⟨[' '], [], rfl, rfl, rfl⟩
  exact ⟨@calledFunction?_translate column .now _ _ _ _ (by decide) hunits
      (written_call "datetime" column.text _),
    @calledFunction?_translate column .now _ _ _ _ (by decide) hstart hwritten⟩

end AskSql
