import AskSql.Proofs.Idiom.References
import AskSql.Proofs.Translate.Amounts
import AskSql.Proofs.Translate.Untouched

/-! Sums of a reference and an interval.  The shift is written around the operand that ends the
reference, and whatever else the reference has stays before the call.  So the column that is shifted
is the one meant only if the reference is one operand: one name, or plain names throughout. -/

namespace AskSql

open Text Sql Idiom

namespace Idiom

variable {dialect : Dialect} {base number word tail text : List Char} {unit : TimeUnit} {n : Int}
  {back : Bool} {clock : Clock}

/-! ### Forms over an operand that stays -/

section Forms

variable (unit) (h : fitsInt64 n = true)
include h

theorem inert_modifierText : Inert (modifierText n unit) where
  toClean :=
    (modifier_modifierText unit h).tame.clean (modifier_modifierText unit h).isArg.trimmed
  calls _ := rewrites_modifierText unit h
  idle := (calm_modifierText unit h).idle

theorem inert_amountText : Inert (amountText n) where
  toClean := (tame_of_spacedNumber (number_amountText h).1).clean (number_amountText h).2
  calls _ := quiet_amountText h _ (selective_rewriteCallAt? _)
  idle := (calm_amountText h).idle

theorem inert_intervalForm : Inert (intervalForm n unit) where
  toClean := (intervalText_amount unit h).tame.clean (intervalText_amount unit h).trimmed
  calls _ := rewrites_interval unit h
  idle := (calm_interval unit h).idle

end Forms

theorem inert_unit (unit : TimeUnit) : Inert unit.keyword.toList where
  toClean := (reads_unit unit).tame.clean (reads_unit unit).trimmed
  calls _ := rewrites_fixed (by cases unit <;> decide)
  idle := Calm.idle (by cases unit <;> decide)

/-- SQLite counts every unit but weeks by itself. -/
theorem shiftForm_sqlite (h : unit ≠ .week) (n : Int) (base : List Char) (clock : Clock) :
    shiftForm .sqlite unit n base clock = call (shiftName unit clock)
    [base, modifierText n unit] := by
  cases unit <;> first | rfl | contradiction

/-- A call that is written again as it is, with nothing in its arguments that is rewritten. -/
def StandingCall (dialect : Dialect) (text : List Char) : Prop :=
  ∃ name function arg args idiom, text = call name (arg :: args) ∧
    DateFunction.ofName? name.toList = some function ∧ (∀ a ∈ arg :: args, Inert a) ∧
    recognise function (arg :: args) = some idiom ∧
    ∀ depth, render dialect (operandText dialect (rewriteWithin dialect depth)) idiom = some text

/-- The form of a shift of an operand that stays is written again as it is. -/
theorem standingCall_shiftForm (hbase : Inert base) (hmark : ∃ c ∈ base.head?, c ∈ operandMarks)
    (hfits : shiftFits dialect unit n back = true) (clock : Clock) :
    StandingCall dialect (shiftForm dialect unit (signed back n) base clock) := by
  simp only [shiftFits, Bool.and_eq_true] at hfits
  obtain ⟨⟨-, hsigned⟩, hweeks⟩ := hfits
  have hoperand : ∀ depth, operandText dialect (rewriteWithin dialect depth) base = base :=
    fun depth => hbase.operandText_eq hmark depth
  have hnow := isNowLiteral_of_mark hmark hbase.isArg.trimmed
  generalize signed back n = m at hsigned hweeks
  cases dialect with
  | sqlite =>
    have hmodifier : ∀ (unit : TimeUnit) (m : Int), unit ≠ .week → fitsInt64 m = true →
        StandingCall .sqlite (call (shiftName unit clock) [base, modifierText m unit]) := by
      intro unit m hweek hm
      obtain ⟨function, told, hname, hrecognise, htold⟩ := exists_shiftName unit clock
      refine ⟨_, function, base, [modifierText m unit], .shift unit m base told, rfl, hname, ?_, ?_,
        fun depth => ?_⟩
      · simpa using ⟨hbase, inert_modifierText unit hm⟩
      · rw [hrecognise, dateCall?_modifier (modifier_modifierText unit hm), hnow]
        rfl
      · rw [render, hoperand, ← htold]
        simp only [renderShift, if_neg hweek, Option.map_some]
        rfl
    by_cases hweek : unit = .week
    · subst hweek
      exact hmodifier .day (7 * m) (by simp) (by simpa using hweeks)
    · rw [shiftForm_sqlite hweek]
      exact hmodifier unit m hweek hsigned
  | sqlServer =>
    have hnumber := (number_amountText hsigned).1
    refine ⟨"DATEADD", .dateAdd, unit.keyword.toList, [amountText m, base],
      .shift unit m base (clockOf base unit), rfl, rfl, ?_, ?_, fun depth => ?_⟩
    · simpa using ⟨inert_unit unit, inert_amountText hsigned, hbase⟩
    · simp only [recognise, recogniseWith, hnumber, (reads_unit unit).value, Option.map_some]
    · rw [render, hoperand]
      rfl
  | mySql =>
    have hinterval : IntervalText m unit (intervalForm m unit) := intervalText_amount unit hsigned
    refine ⟨"DATE_ADD", .addInterval, base, [intervalForm m unit],
      .shift unit m base (clockOf base unit), rfl, rfl, ?_, ?_, fun depth => ?_⟩
    · simpa using ⟨hbase, inert_intervalForm unit hsigned⟩
    · simp only [recognise, recogniseWith, hinterval.interval?_eq, Option.map_some]
    · rw [render, hoperand]
      rfl

/-! ### A call behind what stays -/

/-- A call that is written as it is stays behind any text that stays and ends no word in it. -/
theorem StandingCall.rewriteWithin_eq (h : StandingCall dialect text) {front : List Char}
    (hfront : ∀ rewriteAt?, Selective rewriteAt? → StaysBehind rewriteAt? none front)
    (hidle : Idle front) (hlast : ∀ c ∈ front.getLast?, isWordChar c = false) (depth : Nat) :
    rewriteWithin dialect depth (front ++ text) = front ++ text := by
  obtain ⟨name, function, arg, args, idiom, rfl, hname, hargs, hidiom, hwrite⟩ := h
  have hisName := isName_of_ofName? hname
  have hwritten := written_call name arg args
  have hisArg : ∀ a ∈ arg :: args, IsArg a := fun a ha => (hargs a ha).isArg
  have hne : call name (arg :: args) ≠ [] := by
    obtain ⟨c, hc, -⟩ := hwritten.head hisName
    rintro hnil
    simp [hnil] at hc
  obtain ⟨inner, hcall, -⟩ := hwritten.isCall hisName hisArg (by simp)
  have hclocks : ∀ write before,
      StaysBehind (rewriteClockAt? write) before (call name (arg :: args)) := by
    intro write before
    have hfree := clockFree_written hwritten hisName (length_of_ofName? hname) hisArg (by simp)
      fun a ha => (hargs a ha).clockFree
    refine (hfree write).staysBehind_of_none hne (fun rest _ => ?_) before
    obtain ⟨gap, -, hword⟩ := hcall.word_eq rest
    simp [rewriteClockAt?, clockAt?, hword, clockKeyword?_of_length (length_of_ofName? hname)]
  have hcalls : ∀ depth before,
      StaysBehind
      (rewriteCallAt? (render dialect (operandText dialect (rewriteWithin dialect depth))))
        before (call name (arg :: args)) := by
    intro depth before
    have hreads := readsBack_call hname hisArg hidiom (hwrite depth)
    have hself := rewrites_call hisName (fun a ha => (hargs a ha).calls _)
      hreads.rewriteCallAt?_eq_none
    exact hself.staysBehind_of_none hne (fun rest _ => hreads.rewriteCallAt?_eq_none rest) before
  have hmarks : ∀ c ∈ ['(', ',', ')'], Calm [c] := by decide
  have hintervals : Idle (call name (arg :: args)) :=
    hwritten.of_parts Idle.append (fun _ hgap => (mute_of_blank hgap).calm.idle)
      (fun c hc => (hmarks c hc).idle) (calm_name hisName).idle fun a ha => (hargs a ha).idle
  cases depth with
  | zero => rfl
  | succ depth =>
    have hboth := fun rewriteAt? hf hback => ((hfront rewriteAt? hf).append hback fun rest _ =>
      apart_of_getLast? hlast (call name (arg :: args) ++ rest)).rewriteWords_eq
    rw [rewriteWithin, rewriteClocks, hboth _ (selective_rewriteClockAt? _) (hclocks _ _),
      rewriteCalls, hboth _ (selective_rewriteCallAt? _) (hcalls depth _),
      (hidle.append hintervals).rewriteIntervals_eq]

theorem StandingCall.last (h : StandingCall dialect text) : text.getLast? = some ')' := by
  obtain ⟨name, function, arg, args, idiom, rfl, -⟩ := h
  rw [call, List.getLast?_concat]

/-! ### No row limit -/

/-- Where a word ends at a mark no row limit is read, if the text does not end with a number. -/
theorem rewriteLimit_of_mark {front rest : List Char} {d : Char}
    (hfront : ∀ c ∈ front, isWordChar c = true) (hd : d ∈ operandMarks)
    (hlast : ∃ c ∈ (front ++ d :: rest).getLast?,
      isBlank c = false ∧ c ≠ ';' ∧ isDecimalDigit c = false) (dialect : Dialect) :
    RowLimit.rewrite dialect (front ++ d :: rest) = front ++ d :: rest := by
  cases dialect with
  | sqlServer => exact RowLimit.toTop_of_trailingLimit (RowLimit.trailingLimit?_of_last hlast)
  | sqlite | mySql =>
    have hmarks : ∀ c ∈ operandMarks, isBlank c = false ∧ foldsToLetter c = false := by decide
    obtain ⟨hblank, hletter⟩ := hmarks d hd
    exact RowLimit.toLimit_of_select (RowLimit.select?_of_mark hfront hblank hletter)

/-- The first word of a reference ends at a mark. -/
theorem exists_mark {part : NamePart} {more : List Char} (hproper : part.Proper)
    (h : part.isPlain = true → more.head? = some '.') :
    ∃ front d rest, part.text ++ more = front ++ d :: rest ∧
      (∀ c ∈ front, isWordChar c = true) ∧ d ∈ operandMarks := by
  cases part with
  | plain name =>
    obtain ⟨rest, rfl⟩ := List.head?_eq_some_iff.1 (h rfl)
    exact ⟨name, '.', rest, rfl, hproper.2, by decide⟩
  | quoted name =>
    have hmarks : ∀ kind ∈ [('[', ']'), ('"', '"'), ('`', '`')], kind.1 ∈ operandMarks := by decide
    exact ⟨[], name.opening, _, rfl, by simp, hmarks _ hproper.kind⟩

theorem head?_dotted {parts : List NamePart} (h : parts ≠ []) :
    (NamePart.dotted parts).head? = some '.' := by
  obtain ⟨part, parts, rfl⟩ := List.exists_cons_of_ne_nil h
  rfl

namespace Reference

variable {c : Reference} (hquoted : (c.first :: c.more).all NamePart.isPlain = false)
include hquoted

/-- A sum over a reference is no statement with a row limit. -/
theorem rewriteLimit_sum (h : Addend number word back tail) (hnumber : IsNumber number)
    (hword : IsWord word) : RowLimit.rewrite dialect (c.text ++ tail) = c.text ++ tail := by
  have hmore : c.first.isPlain = true → c.more ≠ [] := by
    rintro hplain hnil
    simp [hplain, hnil] at hquoted
  obtain ⟨front, d, rest, htext, hfront, hd⟩ :=
    exists_mark (c.proper c.first (by simp)) fun hplain => head?_dotted (hmore hplain)
  obtain ⟨-, -, e, he, hlast⟩ := h.tame hnumber hword
  have hdigit : isDecimalDigit e = false := by
    rcases hlast with halpha | rfl
    · exact isDecimalDigit_of_isAlpha halpha
    · decide
  have hsemicolon : e ≠ ';' := by
    rintro rfl
    exact absurd hlast (by decide)
  rw [text, htext, List.append_assoc, List.cons_append]
  refine rewriteLimit_of_mark hfront hd ⟨e, ?_, isBlank_of_letter hlast, hsemicolon, hdigit⟩ dialect
  rw [← List.cons_append, ← List.append_assoc, List.getLast?_append, Option.mem_def.1 he]
  rfl

/-- What a reference leaves before its operand, and a call behind it, is no statement with a row
limit. -/
theorem rewriteLimit_call {new : List Char} (hcall : StandingCall dialect new) :
    RowLimit.rewrite dialect (c.outside ++ new) = c.outside ++ new := by
  have hlimit : ∀ more : List Char, c.outside = c.first.text ++ more →
      (c.first.isPlain = true → more.head? = some '.') →
      RowLimit.rewrite dialect (c.outside ++ new) = c.outside ++ new := by
    intro more hout hmore
    obtain ⟨front, d, rest, htext, hfront, hd⟩ := exists_mark (c.proper c.first (by simp)) hmore
    rw [hout, htext, List.append_assoc, List.cons_append]
    refine rewriteLimit_of_mark hfront hd ⟨')', ?_, by decide, by decide, by decide⟩ dialect
    rw [← List.cons_append, ← List.append_assoc, List.getLast?_append, hcall.last]
    rfl
  rcases NamePart.cut_cases hquoted with ⟨-, -, -, hout | ⟨front, -, hout⟩⟩ |
    ⟨-, -, -, -, -, -, -, -, front, -, hout, hne⟩
  · obtain ⟨name, function, arg, args, idiom, rfl, hname, hargs, -⟩ := hcall
    have hisArg : ∀ a ∈ arg :: args, IsArg a := fun a ha => (hargs a ha).isArg
    obtain ⟨inner, hisCall, -⟩ :=
      (written_call name arg args).isCall (isName_of_ofName? hname) hisArg (by simp)
    rw [outside, hout]
    exact rewriteLimit_isCall hisCall hname dialect
  · refine hlimit (NamePart.dotted front ++ ['.'])
      (by rw [outside, hout, List.append_assoc]) fun _ => ?_
    cases front <;> rfl
  · exact hlimit (NamePart.dotted front) hout fun hplain => head?_dotted (hne hplain)

/-- One pass writes the shift around the operand of a reference if the shift fits, and leaves it
otherwise. -/
theorem rewriteWithin_sum (h : Addend number word back tail) (hn : Numeral n number)
    (hword : IsWord word) (hunit : TimeUnit.ofText? word = some unit) (depth : Nat) :
    rewriteWithin dialect (depth + 1) (c.text ++ tail) =
      if shiftFits dialect unit n back then
        c.outside ++ shiftForm dialect unit (signed back n) c.operand
          (if unit.isSubDay then .now else .date)
      else c.text ++ tail := by
  obtain ⟨hinert, hmark⟩ : Inert c.operand ∧ ∃ d ∈ c.operand.head?, d ∈ operandMarks :=
    NamePart.inert_operand c.proper hquoted
  obtain ⟨-, hidle, -⟩ := NamePart.outside_stays c.proper c.notClock hquoted
  have hsplit : c.outside ++ c.operand = c.text := NamePart.outside_append_operand c.first c.more
  have hstays : ∀ rewriteAt?, Selective rewriteAt? →
      rewriteWords rewriteAt? (c.text ++ tail) = c.text ++ tail := by
    intro rewriteAt? hf
    have hjoins := h.joins c.text
    have htail := (h.quiet hn.isNumber hword) rewriteAt? hf
    have hfree : Free (c.text.getLast?.or none) tail := by simpa using hjoins.free
    refine StaysBehind.rewriteWords_eq (StaysBehind.append
      (NamePart.staysBehind_append_dotted hf c.proper fun hplain => Or.inr (c.notClock hplain))
      (htail.staysBehind hfree) fun rest hrest => hjoins.apart rest fun d hd => ?_)
    exact hrest d (by simp [List.getLast?_append, Option.mem_def.1 hd])
  have hsum := @Addend.rewriteIntervalsFrom_behind
    (render dialect (operandText dialect (rewriteWithin dialect depth))) c.operand _ _
    [] _ _ c.outside
    unit n h hn hword hunit (NamePart.operandBehind c.proper hquoted) (hidle.append hinert.idle)
    (by simp)
  rw [List.append_nil, ← List.append_assoc, hsplit, shiftIdiom?_bind, hinert.operandText_eq hmark,
    clockOf_of_mark hmark hinert.isArg.trimmed, rewriteIntervalsFrom, List.reverse_reverse] at hsum
  rw [rewriteWithin, rewriteClocks, hstays _ (selective_rewriteClockAt? _), rewriteCalls,
    hstays _ (selective_rewriteCallAt? _), rewriteIntervals, hsum]
  cases shiftFits dialect unit n back with
  | false =>
    rw [if_neg (by simp), if_neg (by simp), Option.getD_none, ← List.append_assoc, hsplit]
  | true => rfl

/-- A sum over a reference with a quoted name is written in one pass. -/
theorem settle_sum (h : Addend number word back tail) (hn : Numeral n number) (hword : IsWord word)
    (hunit : TimeUnit.ofText? word = some unit) :
    settle (translatePass dialect) maxPasses (c.text ++ tail) =
      if shiftFits dialect unit n back then
        c.outside ++ shiftForm dialect unit (signed back n) c.operand
          (if unit.isSubDay then .now else .date)
      else c.text ++ tail := by
  have hpass : translatePass dialect (c.text ++ tail) = RowLimit.rewrite dialect
      (rewriteWithin dialect (8 * (c.text ++ tail).length + 63 + 1) (c.text ++ tail)) := rfl
  rw [c.rewriteWithin_sum hquoted h hn hword hunit] at hpass
  cases hfits : shiftFits dialect unit n back with
  | false =>
    have hstay : translatePass dialect (c.text ++ tail) = c.text ++ tail := by
      rw [hpass, hfits]
      exact c.rewriteLimit_sum hquoted h hn.isNumber hword
    exact settle_of_step hstay hstay 7
  | true =>
    obtain ⟨hinert, hmark⟩ : Inert c.operand ∧ ∃ d ∈ c.operand.head?, d ∈ operandMarks :=
      NamePart.inert_operand c.proper hquoted
    obtain ⟨hstays, hidle, hlast⟩ := NamePart.outside_stays c.proper c.notClock hquoted
    have hwordEnd : ∀ d ∈ ['.', ']', '"', '`'], isWordChar d = false := by decide
    have hcall := standingCall_shiftForm hinert hmark hfits (if unit.isSubDay then .now else .date)
    rw [hfits, if_pos rfl, c.rewriteLimit_call hquoted hcall] at hpass
    refine settle_of_step hpass ?_ 7
    rw [translatePass, Idiom.rewrite]
    exact (congrArg _ (hcall.rewriteWithin_eq hstays hidle
      (fun d hd => hwordEnd d (hlast d hd)) _)).trans (c.rewriteLimit_call hquoted hcall)

end Reference

/-! ### References that are one operand -/

namespace Reference

theorem outside_append_operand (c : Reference) : c.outside ++ c.operand = c.text :=
  NamePart.outside_append_operand c.first c.more

theorem outside_eq_nil_iff (c : Reference) : c.outside = [] ↔ c.isWhole = true := by
  rw [outside, NamePart.outside_eq_nil_iff, isWhole, Bool.or_eq_true, List.isEmpty_iff]

/-- Plain names joined by dots are the name of a column. -/
theorem exists_column (c : Reference) (h : (c.first :: c.more).all NamePart.isPlain = true) :
    ∃ column : Column, column.text = c.text := by
  rw [List.all_cons, Bool.and_eq_true] at h
  obtain ⟨hfirst, hmore⟩ := h
  have hproper := c.proper c.first (by simp)
  have hclock := c.notClock hfirst
  have hdots := NamePart.chars_dotted (fun p hp => c.proper p (List.mem_cons_of_mem _ hp)) hmore
  have hstop : ∀ d ∈ (NamePart.dotted c.more).head?, isWordChar d = false := by
    cases c.more with
    | nil => simp
    | cons next more => simpa using (by decide : isWordChar '.' = false)
  rw [text]
  cases hc : c.first with
  | quoted name => simp [hc, NamePart.isPlain] at hfirst
  | plain name =>
    rw [hc] at hproper hclock
    obtain ⟨hne, hword⟩ := hproper
    refine ⟨⟨name ++ NamePart.dotted c.more, ?_, ?_, ?_⟩, rfl⟩
    · intro d hd
      rcases List.mem_append.1 hd with hd | hd
      · exact Or.inl (hword d hd)
      · exact hdots d hd
    · obtain ⟨d, ds, rfl⟩ := List.exists_cons_of_ne_nil hne
      exact ⟨d, rfl, hword d (by simp)⟩
    · rw [word_append hword hstop]
      exact hclock

end Reference

/-- What a form has before its operand does not end as a reference does. -/
theorem exists_before_operand (dialect : Dialect) (unit : TimeUnit) (n : Int) (clock : Clock) :
    ∃ front x rest, x ∉ ['.', ']', '"', '`'] ∧
      ∀ base, shiftForm dialect unit n base clock = front ++ [x] ++ (base ++ rest) := by
  have hfirst : ∀ (name : String) (args : List (List Char)), args ≠ [] → ∀ base,
      call name (base :: args) = name.toList ++ ['('] ++ (base ++ (", ".toList ++
        (", ".toList.intercalate args ++ [')']))) := by
    intro name args hne base
    simp [call, List.intercalate_cons_of_ne_nil hne]
  cases dialect with
  | sqlite =>
    by_cases hweek : unit = .week
    · subst hweek
      exact ⟨_, '(', _,
        by decide, hfirst (shiftName .day clock) [modifierText (7 * n) .day] (by simp)⟩
    · exact ⟨_, '(', _, by decide, fun base => (shiftForm_sqlite hweek n base clock).trans
        (hfirst (shiftName unit clock) [modifierText n unit] (by simp) base)⟩
  | sqlServer =>
    refine ⟨"DATEADD(".toList ++ unit.keyword.toList ++ ", ".toList ++ amountText n ++ [','],
      ' ', [')'],
      by decide, fun base => ?_⟩
    simp [shiftForm, call]
  | mySql => exact ⟨_, '(', _, by decide, hfirst "DATE_ADD" [intervalForm n unit] (by simp)⟩

end Idiom

/-- The sum of a reference and an interval translates to the shift of the operand that ends the
reference, behind the rest of the reference, if the shift can be written in the dialect.  It is the
shift of the whole reference exactly if that is one name or has plain names only. -/
theorem translate_reference_iff (dialect : Dialect) (c : Reference) {number word tail : List Char}
    {n : Int} {unit : TimeUnit} {back : Bool} (hn : Numeral n number) (hword : IsWord word)
    (hunit : TimeUnit.ofText? word = some unit) (h : Addend number word back tail) :
    (translate dialect (String.ofList (c.text ++ tail))).toList =
        (if shiftFits dialect unit n back then
          c.outside ++ shiftForm dialect unit (signed back n) c.operand
            (if unit.isSubDay then .now else .date)
        else c.text ++ tail) ∧
      (shiftFits dialect unit n back = true →
        ((translate dialect (String.ofList (c.text ++ tail))).toList =
            shiftForm dialect unit (signed back n) c.text (if unit.isSubDay then .now else .date) ↔
          c.isWhole = true)) := by
  have hcut := c.outside_append_operand
  have hnil := c.outside_eq_nil_iff
  have htranslate : (translate dialect (String.ofList (c.text ++ tail))).toList =
      if shiftFits dialect unit n back then
        c.outside ++ shiftForm dialect unit (signed back n) c.operand
          (if unit.isSubDay then .now else .date)
      else c.text ++ tail := by
    cases hplain : (c.first :: c.more).all NamePart.isPlain with
    | true =>
      obtain ⟨column, hcolumn⟩ := c.exists_column hplain
      have hout : c.outside = [] := hnil.2 (by rw [Reference.isWhole, hplain, Bool.or_true])
      have hoperand : c.operand = c.text := by rw [← hcut, hout, List.nil_append]
      have htext : ShiftText column.text number word back none
          (String.ofList (column.text ++ tail)).toList := by
        rw [String.toList_ofList]
        exact .sum h
      rw [hout, hoperand, ← hcolumn, translate_shift dialect hn hword hunit htext]
      split
      · rw [String.toList_ofList]
        rfl
      · rw [String.toList_ofList]
    | false =>
      rw [translate, String.toList_ofList, String.toList_ofList]
      exact c.settle_sum hplain h hn hword hunit
  refine ⟨htranslate, fun hfits => ?_⟩
  rw [htranslate, if_pos hfits, ← hnil, ← hcut]
  constructor
  · intro hsame
    by_contra hne
    obtain ⟨front, x, rest, hx, haround⟩ := exists_before_operand dialect unit (signed back n)
      (if unit.isSubDay then .now else .date)
    -- Both have the operand and what follows it, so what stands before it is the same.
    have hbefore : c.outside ++ (front ++ [x]) = front ++ [x] ++ c.outside := by
      rw [haround, haround] at hsame
      have hcancel : c.outside ++ (front ++ [x]) ++ (c.operand ++ rest) =
          front ++ [x] ++ c.outside ++ (c.operand ++ rest) := by simpa using hsame
      exact List.append_cancel_right hcancel
    have hquoted : (c.first :: c.more).all NamePart.isPlain = false := by
      rw [← Bool.not_eq_true]
      exact fun hplain => hne (hnil.2 (by rw [Reference.isWhole, hplain, Bool.or_true]))
    obtain ⟨-, -, hlast⟩ := NamePart.outside_stays c.proper c.notClock hquoted
    have hends := congrArg List.getLast? hbefore
    rw [← List.append_assoc, List.getLast?_concat, List.getLast?_append,
      List.getLast?_eq_some_getLast hne, Option.some_or] at hends
    exact hx (hlast x ((List.getLast?_eq_some_getLast hne).trans hends.symm))
  · intro hout
    rw [hout, List.nil_append, List.nil_append]

/-- The due date of an order line, in a table whose name is quoted. -/
def lineDue : Reference where
  first := .quoted ⟨'[', "Order Lines".toList, ']'⟩
  more := [.plain "due".toList]
  proper := by decide +kernel
  notClock := by decide

/-- The shift is written of what follows the quotes. -/
theorem translate_reference_lineDue :
    String.ofList (lineDue.text ++ " + INTERVAL 3 days".toList) =
      "[Order Lines].due + INTERVAL 3 days" ∧
      shiftFits .sqlite .day 3 false = true ∧
      (translate .sqlite (String.ofList (lineDue.text ++ " + INTERVAL 3 days".toList))).toList =
        "[Order Lines]date(.due, '+3 days')".toList ∧
      (translate .sqlite (String.ofList (lineDue.text ++ " + INTERVAL 3 days".toList))).toList ≠
        "date([Order Lines].due, '+3 days')".toList := by
  have hthree : natural? "3".toList = some 3 := by decide +kernel
  have hdays : IsWord "days".toList := ⟨by decide, by decide⟩
  have hday : TimeUnit.ofText? "days".toList = some .day := by decide
  have hkeyword : Keyword "interval" "INTERVAL".toList := rfl
  have hsum : Addend "3".toList "days".toList false " + INTERVAL 3 days".toList :=
    .intro (.inl rfl) [' '] [' '] (by decide) rfl (.intro hkeyword [' '] rfl (by simp)
      (.bare [' '] rfl (by simp)))
  have hfits : shiftFits .sqlite .day 3 false = true := by decide
  obtain ⟨hnew, hwhole⟩ :=
    translate_reference_iff .sqlite lineDue (.unsigned hthree) hdays hday hsum
  have hshift : shiftForm .sqlite .day 3 lineDue.text .date =
      "date([Order Lines].due, '+3 days')".toList := by decide +kernel
  refine ⟨by decide +kernel, hfits, hnew.trans (by decide +kernel), fun hsame => ?_⟩
  exact absurd ((hwhole hfits).1 (hsame.trans hshift.symm)) (by decide)

end AskSql
