import AskSql.Proofs.Translate.Amounts

/-! Chains of shifts in SQLite.  A chain begins with a column, the current date or the current
moment, and each shift in it is written as a sum or as a call.  Whether a shift is one of a date or
of a moment is decided from the text that is shifted, before that text is itself rewritten: a call
looks into the calls in it, but takes a sum in it for a date. -/

namespace AskSql

open Text Sql Idiom

namespace Idiom

/-! ### Chains -/

/-- A shift in a chain, written as a sum or as a call. -/
structure Step where
  span : Span
  isSum : Bool

/-- What a chain begins with. -/
inductive Base
  | column (column : Column)
  | current (clock : Clock)

namespace Base

/-- Whether a chain begins with a moment. -/
def clock : Base → Clock
  | column _ => .date
  | current clock => clock

/-- What a chain begins with, as an expression. -/
def tree : Base → DateTree
  | column name => .column name
  | current clock => .clock clock

end Base

/-- `base` as it stands without keywords: a clock in the form of any dialect. -/
inductive PlainText : Base → List Char → Prop
  | column (column : Column) : PlainText (.column column) column.text
  | current (dialect : Dialect) (clock : Clock) :
    PlainText (.current clock) (renderClock dialect clock)

/-- `text` spells `base`. -/
inductive BaseText : Base → List Char → Prop
  | plain {base : Base} {text : List Char} (h : PlainText base text) : BaseText base text
  | keyword {clock : Clock} {word : List Char} (hword : ∀ c ∈ word, isWordChar c = true)
      (h : clockKeyword? word = some clock) : BaseText (.current clock) word

/-- `number` and `word` read the units of `span`, or of `span` taken back. -/
structure Counts (n : Int) (span : Span) (back : Bool) (number word : List Char) : Prop where
  numeral : Numeral n number
  fits : fitsInt64 n = true
  isWord : IsWord word
  unit : TimeUnit.ofText? word = some span.unit
  amount : span.amount = signed back n

/-- `text` is `base` shifted by `steps`, of which the last is the first of the list. -/
inductive ChainText (base : List Char) : List Step → List Char → Prop
  | base : ChainText base [] base
  | sum {steps : List Step} {span : Span} {n : Int} {back : Bool} {number word arg tail : List Char}
      (harg : ChainText base steps arg) (hspan : Counts n span back number word)
      (h : Addend number word back tail) : ChainText base (⟨span, true⟩ :: steps) (arg ++ tail)
  | call {steps : List Step} {span : Span} {n : Int} {back : Bool} {function : DateFunction}
      {number word arg name text : List Char} {args : List (List Char)}
      (harg : ChainText base steps arg) (hspan : Counts n span back number word)
      (h : ShiftCall arg number word back none function args)
      (hname : DateFunction.ofName? name = some function) (htext : Written name args text) :
      ChainText base (⟨span, false⟩ :: steps) text

/-- Whether the last shift of a chain is written as a sum. -/
def endsInSum (steps : List Step) : Bool :=
  steps.head?.any (·.isSum)

/-- Whether a chain carries a time of day. -/
def chainClock (base : Clock) : List Step → Clock
  | [] => base
  | step :: steps => if step.span.unit.isSubDay then .now else chainClock base steps

/-- The clock that is found for a chain: a sum inside a call is taken for a date. -/
def foundClock (base : Clock) : List Step → Clock
  | [] => base
  | step :: steps =>
    if step.span.unit.isSubDay then .now
    else if !step.isSum && endsInSum steps then .date
    else foundClock base steps

/-- A chain as an expression, its shifts with the clocks that `clock` gives them. -/
def chainTree (base : DateTree) (clock : List Step → Clock) : List Step → DateTree
  | [] => base
  | step :: steps => .shift step.span (clock (step :: steps)) (chainTree base clock steps)

variable {base : Base} {steps : List Step} {start text new : List Char} {depth : Nat}

/-- A shift that fits is the idiom that is meant. -/
theorem Counts.shiftIdiom?_eq {n : Int} {span : Span} {back : Bool} {number word : List Char}
    (h : Counts n span back number word) (arg : List Char) (clock : Clock) :
    shiftIdiom? span.unit n back arg clock = some (.shift span.unit span.amount arg clock) := by
  rw [shiftIdiom?, ← h.amount, h.fits, span.fits]
  rfl

/-! ### What a chain begins with -/

namespace PlainText

theorem steady (h : PlainText base text) :
    Clean text ∧ (∃ c ∈ text.head?, isWordChar c = true) ∧ Calm text := by
  cases h with
  | column column => exact ⟨⟨column.isArg, column.clockFree⟩, column.start, column.calm⟩
  | current dialect clock =>
    have hsteady := (steadyCall_renderClock dialect clock).toSteady
    exact ⟨hsteady.clean, hsteady.head, hsteady.calm⟩

/-- The clock of what a chain begins with. -/
theorem clockWithin_eq (h : PlainText base text) (hdepth : text.length < depth) (unit : TimeUnit) :
    clockWithin depth text unit = if unit.isSubDay then .now else base.clock := by
  cases h with
  | column column => exact (Spells.column column).clockWithin_eq hdepth unit
  | current dialect clock =>
    obtain ⟨depth, rfl⟩ := Nat.exists_eq_succ_of_ne_zero (Nat.ne_zero_of_lt hdepth)
    obtain ⟨name, inner, function, hcall, hname, hdatetime, hidiom⟩ :=
      isCall_renderClock dialect clock
    cases clock with
    | now =>
      have hnow : isNowClock (renderClock dialect .now) = true := by
        cases dialect <;> decide +kernel
      simp only [clockWithin, hcall.trimmed.trim_eq, hnow, Bool.or_true, if_true, Base.clock,
        ite_self]
    | date =>
      have hnow : isNowClock (renderClock dialect .date) = false := by
        cases dialect <;> decide +kernel
      have hfunction : function ≠ .datetime := fun h => absurd (hdatetime h) (by simp)
      rw [clockWithin_call hcall.trimmed.trim_eq hcall.callParts_eq hname hfunction hnow, hidiom]
      rfl

end PlainText

/-- Of what a chain begins with only a keyword is written out. -/
theorem BaseText.exists_plainText (h : BaseText base text) :
    IsArg text ∧ ∃ plain, PlainText base plain ∧
      Rewrites (rewriteClockAt? (renderClock .sqlite)) text plain := by
  cases h with
  | plain h =>
    have hclean := h.steady.1
    exact ⟨hclean.isArg, text, h, hclean.clockFree _⟩
  | keyword hword hclock =>
    have hne : text ≠ [] := by
      rintro rfl
      contradiction
    have harg : IsArg text :=
      ⟨closed_of_not_isMark fun c hc => isMark_of_isWordChar (hword c hc),
        trimmed_of_forall hne fun c hc => isBlank_of_isWordChar (hword c hc)⟩
    exact ⟨harg, _, .current .sqlite _, rewrites_clock hword hclock⟩

/-! ### Texts of chains -/

namespace ChainText

theorem isArg (h : ChainText start steps text) (hstart : IsArg start) : IsArg text := by
  induction h with
  | base => exact hstart
  | sum _ hspan h ih => exact h.isArg hspan.numeral.isNumber hspan.isWord ih
  | call _ hspan h hname htext ih =>
    refine htext.isArg (isName_of_ofName? hname) (fun a ha => ?_) h.ne_nil
    rcases h.args_eq hspan.numeral hspan.isWord a ha with rfl | ⟨hmute, htrim⟩
    · exact ih
    · exact ⟨hmute.closed, htrim⟩

theorem clean (h : ChainText start steps text) (hstart : Clean start) : Clean text := by
  induction h with
  | base => exact hstart
  | sum _ hspan h ih => exact h.clean hspan.numeral.isNumber hspan.isWord ih
  | call _ hspan h hname htext ih =>
    exact clean_written htext (isName_of_ofName? hname) (length_of_ofName? hname)
      (h.clean hspan.numeral hspan.isWord ih) h.ne_nil

theorem head (h : ChainText start steps text) (hstart : ∃ c ∈ start.head?, isWordChar c = true) :
    ∃ c ∈ text.head?, isWordChar c = true := by
  induction h with
  | base => exact hstart
  | sum _ _ _ ih =>
    obtain ⟨c, hc, hword⟩ := ih
    exact ⟨c, by simp [List.head?_append, Option.mem_def.1 hc], hword⟩
  | call _ _ _ hname htext => exact htext.head (isName_of_ofName? hname)

theorem quotes (h : ChainText start steps text) (hstart : insideLiteral start = false) :
    insideLiteral text = false := by
  induction h with
  | base => exact hstart
  | sum _ hspan h ih =>
    rw [insideLiteral_append, ih, (h.tame hspan.numeral.isNumber hspan.isWord).1.quotes]
    rfl
  | call _ hspan h hname htext ih =>
    have happend : ∀ {front back : List Char}, insideLiteral front = false →
        insideLiteral back = false → insideLiteral (front ++ back) = false := by
      intro front back hf hb
      rw [insideLiteral_append, hf, hb]
      rfl
    refine htext.of_parts happend (fun _ hgap => (tame_of_blank hgap).quotes) (by decide)
      (calm_name (isName_of_ofName? hname)).quotes fun a ha => ?_
    rcases h.args_eq hspan.numeral hspan.isWord a ha with rfl | ⟨hmute, -⟩
    · exact ih
    · exact hmute.quotes

/-- Each shift of a chain takes at least one character to write. -/
theorem length_le (h : ChainText start steps text) : steps.length ≤ text.length := by
  induction h with
  | base => exact Nat.zero_le _
  | sum _ _ h ih =>
    obtain ⟨-, sign, more, -, hstart⟩ := h.start
    have htail := (List.dropWhile_suffix (l := _) isBlank).length_le.trans_eq' (congrArg _ hstart)
    simp only [List.length_cons, List.length_append] at htail ⊢
    omega
  | call _ _ h _ htext ih =>
    have hlt := htext.length_lt h.mem
    simp only [List.length_cons]
    omega

/-- The clock keyword in a chain is written out. -/
theorem exists_clocks {plain : List Char} (h : ChainText start steps text) (hstart : IsArg start)
    (hplain : Rewrites (rewriteClockAt? (renderClock .sqlite)) start plain) :
    ∃ text', ChainText plain steps text' ∧
      Rewrites (rewriteClockAt? (renderClock .sqlite)) text text' := by
  induction h with
  | base => exact ⟨plain, .base, hplain⟩
  | @sum steps span n back number word arg tail harg hspan h ih =>
    obtain ⟨arg', harg', hrewrites⟩ := ih
    have htail := (h.tame hspan.numeral.isNumber hspan.isWord).1.clockFree
    exact ⟨arg' ++ tail, .sum harg' hspan h, hrewrites.append (htail _) (h.joins arg)⟩
  | @call steps span n back function number word arg name text args harg hspan h hname htext ih =>
    obtain ⟨arg', harg', hrewrites⟩ := ih
    obtain ⟨args', hcall, hargs⟩ := h.change hspan.numeral hspan.isWord hrewrites
      fun a hmute _ => hmute.toTame.clockFree _
    have hname' := isName_of_ofName? hname
    have hisArgs : ∀ a ∈ args, IsArg a := fun a ha => by
      rcases h.args_eq hspan.numeral hspan.isWord a ha with rfl | ⟨hmute, htrim⟩
      · exact harg.isArg hstart
      · exact ⟨hmute.closed, htrim⟩
    obtain ⟨inner, hisCall, -⟩ := htext.isCall hname' hisArgs h.ne_nil
    obtain ⟨text', htext', hwrites⟩ := exists_rewrites_written htext hname' hargs fun rest => by
      obtain ⟨gap, -, hword⟩ := hisCall.word_eq rest
      simp [rewriteClockAt?, clockAt?, hword, clockKeyword?_of_length (length_of_ofName? hname)]
    exact ⟨text', .call harg' hspan hcall hname htext', hwrites⟩

/-- The clock that a call around a chain finds for it. -/
theorem clockWithin_eq (h : ChainText start steps text) (hstart : PlainText base start)
    (hdepth : text.length < depth) (unit : TimeUnit) :
    clockWithin depth text unit =
      if unit.isSubDay then .now
      else if endsInSum steps then .date else foundClock base.clock steps := by
  obtain ⟨hcleanStart, hhead, -⟩ := hstart.steady
  have hclean := h.clean hcleanStart
  induction h generalizing depth unit with
  | base => exact hstart.clockWithin_eq hdepth unit
  | sum harg hspan h =>
    -- A sum is neither a clock nor a call, and nothing else is looked at.
    obtain ⟨depth, rfl⟩ := Nat.exists_eq_succ_of_ne_zero (Nat.ne_zero_of_lt hdepth)
    have hnumber := hspan.numeral.isNumber
    simp only [clockWithin, hclean.isArg.trimmed.trim_eq, h.isNowClock_eq hnumber hspan.isWord,
      h.callParts_eq hnumber hspan.isWord, Bool.or_false]
    rfl
  | @call steps span n back function number word arg name text args harg hspan h hname htext ih =>
    obtain ⟨depth, rfl⟩ := Nat.exists_eq_succ_of_ne_zero (Nat.ne_zero_of_lt hdepth)
    have hlt := htext.length_lt h.mem
    have hargClean := harg.clean hcleanStart
    obtain ⟨inner, hcall, hsplit, -⟩ := htext.isCall (isName_of_ofName? hname)
      (fun a ha => (h.clean hspan.numeral hspan.isWord hargClean a ha).isArg) h.ne_nil
    have hfunction : function ≠ .moment ∧ function ≠ .datetime := by cases h <;> simp
    have hnow :=
      isNowClock_eq_false htext.paren_mem hcall.callParts_eq hname hfunction.1 hfunction.2
    have hidiom :=
      @ShiftCall.recogniseWith_eq _ _ _ _ _ (clockWithin depth) hspan.numeral hspan.isWord
      hspan.unit _ _ _ _ h (isNowLiteral_of_head (harg.head hhead))
    have hclock := @ih depth (by omega) span.unit hargClean
    rw [clockWithin_call hcall.trimmed.trim_eq hcall.callParts_eq hname hfunction.2 hnow,
      hsplit, hidiom, hspan.shiftIdiom?_eq]
    simp only [Option.getD_none, hclock, foundClock, endsInSum, List.head?_cons, Option.any_some,
      Bool.false_eq_true, if_false, Bool.not_false, Bool.true_and]
    rfl

end ChainText

/-! ### Forms of chains -/

/-- The modifier of a shift by a span. -/
def spanModifier (span : Span) : List Char :=
  match span.unit with
  | .week => modifierText (7 * span.amount) .day
  | unit => modifierText span.amount unit

/-- The form of a shift in SQLite. -/
theorem DateTree.text_shift_sqlite {span : Span} {clock : Clock} {tree : DateTree}
    (h : (shift span clock tree).text .sqlite = some new) :
    ∃ arg, tree.text .sqlite = some arg ∧
      new = call (shiftName span.unit clock) [argumentText .sqlite arg, spanModifier span] ∧
      ∃ content, spanModifier span = quoted content ∧ '\'' ∉ content ∧ Mute content := by
  obtain ⟨arg, harg, hform⟩ := Option.bind_eq_some_iff.1 h
  refine ⟨arg, harg, ?_⟩
  have hsteady := DateTree.steady_text harg
  rw [form, render, keeps_rewrite.operandText_eq hsteady (Nat.lt_succ_self _),
    renderShift_eq] at hform
  obtain ⟨hfits, hform⟩ := Option.ite_none_right_eq_some.1 hform
  obtain rfl := Option.some.inj hform
  obtain ⟨unit, amount, hamount⟩ := span
  cases unit with
  | week =>
    have hdays : fitsInt64 (7 * amount) = true := by simpa using hfits
    exact ⟨rfl, (modifier_modifierText .day hdays).exists_quoted⟩
  | _ => exact ⟨rfl, (modifier_modifierText _ hamount).exists_quoted⟩

theorem isName_shiftName (unit : TimeUnit) (clock : Clock) :
    IsName (shiftName unit clock).toList := by
  unfold shiftName
  split <;> decide

theorem DateTree.isCall_text_sqlite {span : Span} {clock : Clock} {tree : DateTree}
    (h : (shift span clock tree).text .sqlite = some new) :
    ∃ inner, IsCall (shiftName span.unit clock).toList inner new := by
  obtain ⟨arg, harg, rfl, content, hcontent, hquote, hmute⟩ := DateTree.text_shift_sqlite h
  have hfirst : IsArg (argumentText .sqlite arg) := by
    rcases argumentText_cases .sqlite arg with hsame | ⟨-, hnow⟩
    · rw [hsame]
      exact (DateTree.steady_text harg).clean.isArg
    · rw [hnow]
      exact ⟨by decide, by decide⟩
  have hsecond : IsArg (spanModifier span) := hcontent ▸ isArg_quoted hquote hmute.plain
  have hargs : ∀ a ∈ [argumentText .sqlite arg, spanModifier span], IsArg a := by
    simpa using ⟨hfirst, hsecond⟩
  obtain ⟨inner, hcall, -⟩ := (written_call (shiftName span.unit clock) _ _).isCall
    (isName_shiftName _ _) hargs (by simp)
  exact ⟨inner, hcall⟩

/-- A shift is written in the same way from any spelling of what is shifted. -/
theorem render_shift_eq {span : Span} {clock : Clock} {tree : DateTree}
    {operand : List Char → List Char}
    {arg raw : List Char} (h : (DateTree.shift span clock tree).text .sqlite = some new)
    (harg : tree.text .sqlite = some arg) (hraw : operand raw = argumentText .sqlite arg) :
    render .sqlite operand (.shift span.unit span.amount raw clock) = some new := by
  obtain ⟨found, hfound, hform⟩ := Option.bind_eq_some_iff.1 h
  obtain rfl := Option.some.inj (harg.symm.trans hfound)
  have hsteady := DateTree.steady_text harg
  rw [form, render, keeps_rewrite.operandText_eq hsteady (Nat.lt_succ_self _), ← hraw] at hform
  exact hform

section Forms

variable {clock : List Step → Clock}

theorem passedOver_now : PassedOver "'now'".toList :=
  @passedOver_quoted "now".toList (by decide)

theorem passedOver_argumentText {arg : List Char} (h : PassedOver arg) :
    PassedOver (argumentText .sqlite arg) := by
  rcases argumentText_cases .sqlite arg with hsame | ⟨-, hnow⟩
  · rwa [hsame]
  · rw [hnow]
    exact passedOver_now

theorem passedOver_text (h : (chainTree base.tree clock steps).text .sqlite = some new) :
    PassedOver new := by
  induction steps generalizing new with
  | nil =>
    cases base with
    | column column =>
      obtain rfl := Option.some.inj h
      exact column.passedOver
    | current clock =>
      obtain rfl := Option.some.inj h
      cases clock <;> exact passedOver_call (by decide) (by simpa using passedOver_now)
  | cons step steps ih =>
    obtain ⟨arg, harg, rfl, content, hcontent, hquote, -⟩ := DateTree.text_shift_sqlite h
    refine passedOver_call (isName_shiftName _ _) ?_
    rw [hcontent]
    simpa using ⟨passedOver_argumentText (ih harg), passedOver_quoted hquote⟩

theorem isOperand_text (h : (chainTree base.tree clock steps).text .sqlite = some new) :
    IsOperand new := by
  cases steps with
  | nil =>
    cases base with
    | column column =>
      obtain rfl := Option.some.inj h
      exact column.isOperand
    | current clock =>
      obtain rfl := Option.some.inj h
      cases clock <;> exact isOperand_call (by decide) (by simpa using passedOver_now)
  | cons step steps =>
    obtain ⟨arg, harg, rfl, content, hcontent, hquote, -⟩ := DateTree.text_shift_sqlite h
    refine isOperand_call (isName_shiftName _ _) ?_
    rw [hcontent]
    simpa using ⟨passedOver_argumentText (passedOver_text harg), passedOver_quoted hquote⟩

/-- The form of a chain has a call for each shift and at most one more. -/
theorem callCount_text (h : (chainTree base.tree clock steps).text .sqlite = some new) :
    callCount new ≤ steps.length + 1 := by
  induction steps generalizing new with
  | nil =>
    cases base with
    | column column =>
      obtain rfl := Option.some.inj h
      simp [callCount, List.count_eq_zero_of_not_mem column.open_not_mem]
    | current clock =>
      obtain rfl := Option.some.inj h
      cases clock <;> decide
  | cons step steps ih =>
    obtain ⟨arg, harg, rfl, content, hcontent, hquote, hmute⟩ := DateTree.text_shift_sqlite h
    have hle := ih harg
    have hname : (shiftName step.span.unit (clock (step :: steps))).toList.count '(' = 0 := by
      unfold shiftName
      split <;> decide
    have hmodifier : (spanModifier step.span).count '(' = 0 := by
      rw [hcontent, List.count_eq_zero]
      simp [quoted, hmute.calls]
    have hcount : (argumentText .sqlite arg).count '(' ≤ callCount arg := by
      rcases argumentText_cases .sqlite arg with hsame | ⟨-, hnow⟩
      · rw [hsame]
        exact Nat.le_refl _
      · rw [hnow]
        exact Nat.zero_le _
    simp only [callCount, call, List.count_append, List.count_cons, List.intercalate]
      at hle hcount ⊢
    simp
    omega

/-- A shift that a call of `DATE` or `DATETIME` spells has the clock of the function. -/
theorem clock_of_dateCall? {clock found : Clock} {args : List (List Char)} {unit : TimeUnit}
    {n : Int}
    {arg : List Char} (h : dateCall? clock args = some (.shift unit n arg found)) :
        found = clock := by
  match args with
  | [] => simp [dateCall?] at h
  | [arg'] =>
    rw [dateCall?] at h
    repeat' split at h
    all_goals simp at h
  | [arg', modifier] =>
    simp only [dateCall?] at h
    repeat' split at h
    all_goals simp at h
    all_goals exact h.2.2.2.symm
  | [arg', weekday, back] =>
    rw [dateCall?] at h
    repeat' split at h
    all_goals simp at h
  | _ :: _ :: _ :: _ :: _ => simp [dateCall?] at h

/-- The name of the last shift of a chain tells its clock. -/
theorem clockOf_text (h : (chainTree base.tree clock steps).text .sqlite = some new)
    (hbase : clock [] = base.clock)
    (hstep : ∀ step rest, step.span.unit.isSubDay = true → clock (step :: rest) = .now)
    (unit : TimeUnit) : clockOf new unit = if unit.isSubDay then .now else clock steps := by
  cases steps with
  | nil =>
    have hplain : PlainText base new := by
      cases base with
      | column column =>
        obtain rfl := Option.some.inj h
        exact .column column
      | current clock =>
        obtain rfl := Option.some.inj h
        exact .current .sqlite clock
    rw [hbase]
    exact hplain.clockWithin_eq (Nat.lt_succ_self _) unit
  | cons step steps =>
    obtain ⟨inner, hcall⟩ := DateTree.isCall_text_sqlite h
    cases hclock : clock (step :: steps) with
    | now =>
      have hname : DateFunction.ofName? (shiftName step.span.unit .now).toList =
          some .datetime := by
        cases step.span.unit <;> decide
      rw [hclock] at hcall
      simp only [clockOf, clockWithin, hcall.trimmed.trim_eq, hcall.callParts_eq, hname, ite_self]
    | date =>
      have hday : step.span.unit.isSubDay = false := by
        cases hsub : step.span.unit.isSubDay with
        | false => rfl
        | true => simp [hstep step steps hsub] at hclock
      have hname : DateFunction.ofName? (shiftName step.span.unit .date).toList = some .date := by
        simp only [shiftName, hday]
        decide
      rw [hclock] at hcall
      have hparen : '(' ∈ new := by
        obtain ⟨gap, -, rfl⟩ := hcall.split
        simp
      have hnow := isNowClock_eq_false hparen hcall.callParts_eq hname (by simp) (by simp)
      rw [clockOf, clockWithin_call hcall.trimmed.trim_eq hcall.callParts_eq hname (by simp) hnow]
      split
      · rfl
      · unfold shiftClock
        split
        · rename_i hidiom
          exact clock_of_dateCall? hidiom
        · rfl

end Forms

end Idiom

end AskSql
