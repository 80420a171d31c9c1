import AskSql.Proofs.Idiom.Recognition

/-! The form that a dialect gives an expression.  It spells the expression itself, and every other
spelling is rewritten to it. -/

namespace AskSql.Idiom

open Text Sql

/-- The form of an operation on `arg`, whose result has `clock`. -/
def Operation.write (dialect : Dialect) (clock : Clock) (arg : List Char) : Operation → List Char
  | .extract part => renderExtract dialect part arg
  | .truncate part => renderTruncate dialect part arg
  | .shift s => (renderShift dialect s.unit s.amount arg clock).getD []

/-- The form of an expression. -/
def Expr.canonical (dialect : Dialect) : Expr → List Char
  | .column name => name.text
  | .apply operation expr =>
    operation.write dialect (operation.clock expr.clock) (expr.canonical dialect)

theorem render_idiom (dialect : Dialect) (operand : List Char → List Char) (operation : Operation)
    (clock : Clock) (arg : List Char) :
    render dialect operand (operation.idiom clock arg) =
      some (operation.write dialect clock (operand arg)) := by
  cases operation with
  | extract part => rfl
  | truncate part => rfl
  | shift s =>
    cases dialect with
    | sqlite => simp [render, Operation.idiom, Operation.write, renderShift, s.notWeek]
    | sqlServer => rfl
    | mySql => rfl

/-! ### Numbers -/

theorem natural?_toDigits (n : Nat) : natural? (Nat.toDigits 10 n) = some n := by
  have hdigits : (Nat.toDigits 10 n).all Char.isDigit = true :=
    List.all_eq_true.2 fun c hc => Nat.isDigit_of_mem_toDigits (by decide) (by decide) hc
  have hvalue := Nat.ofDigitChars_ten_toDigits (n := n)
  rw [Nat.ofDigitChars_eq_foldl] at hvalue
  rw [natural?, hdigits, hvalue]
  simp [Nat.toDigits_ne_nil]

/-- A run of digits begins with no sign. -/
theorem int64?_toDigits {n : Nat} (h : fitsInt64 n = true) :
    int64? (Nat.toDigits 10 n) = some (n : Int) := by
  have hn := natural?_toDigits n
  cases hd : Nat.toDigits 10 n with
  | nil => exact absurd hd Nat.toDigits_ne_nil
  | cons c digits =>
    have hc : c.isDigit = true :=
      Nat.isDigit_of_mem_toDigits (b := 10) (by decide) (by decide) (n := n) (by rw [hd]; simp)
    have hplus : c ≠ '+' := by rintro rfl; exact absurd hc (by decide)
    have hminus : c ≠ '-' := by rintro rfl; exact absurd hc (by decide)
    rw [hd] at hn
    simp [int64?, hplus, hminus, hn, h]

theorem amountText_natCast (n : Nat) : amountText n = Nat.toDigits 10 n := by
  simp [amountText, toString, Int.repr]

theorem amountText_negSucc (n : Nat) : amountText (Int.negSucc n) =
    '-' :: Nat.toDigits 10 (n + 1) := by
  simp [amountText, toString, Int.repr]

theorem int64?_amountText {n : Int} (h : fitsInt64 n = true) : int64? (amountText n) = some n := by
  cases n with
  | ofNat n => exact amountText_natCast n ▸ int64?_toDigits h
  | negSucc n =>
    have hn := natural?_toDigits (n + 1)
    have hvalue : int64? ('-' :: Nat.toDigits 10 (n + 1)) =
        (some (Int.negSucc n)).filter fitsInt64 := by
      rw [int64?]
      simp only [hn]
      rfl
    rw [amountText_negSucc, hvalue, Option.filter_some_pos h]

theorem int64?_signedText {n : Int} (h : fitsInt64 n = true) : int64? (signedText n) = some n := by
  rw [signedText]
  split
  · rename_i hpos
    obtain ⟨m, rfl⟩ := Int.eq_ofNat_of_zero_le hpos
    have hn := natural?_toDigits m
    rw [amountText_natCast]
    simp [int64?, hn, h]
  · exact int64?_amountText h

/-! ### The form is a spelling -/

theorem reads_part (part : DatePart) : Reads DatePart.ofText? part part.keyword.toList := by
  cases part <;> exact ⟨by decide, by decide, by decide⟩

theorem reads_unit (unit : TimeUnit) : Reads TimeUnit.ofText? unit unit.keyword.toList := by
  cases unit <;> exact ⟨by decide, by decide, by decide⟩

theorem offset_call (arg : List Char) :
    Offset arg ("-((".toList ++ call "DATEPART" ["weekday".toList, arg] ++
      " + @@DATEFIRST - 2) % 7)".toList) := by
  have hgap : blank [' '] = true := rfl
  have hbody : Spaced [['('], ['('], "DATEPART".toList, ['('], "weekday".toList, [','], arg, [')'],
      ['+'], "@@DATEFIRST".toList, ['-'], ['2'], [')'], ['%'], ['7']] _ :=
    .cons [] _ rfl <| .cons [] _ rfl <| .cons [] _ rfl <| .cons [] _ rfl <| .cons [] _ rfl <|
    .cons [] _ rfl <| .cons [' '] _ hgap <| .cons [] _ rfl <| .cons [' '] _ hgap <|
    .cons [' '] _ hgap <| .cons [' '] _ hgap <| .cons [' '] _ hgap <| .cons [] _ rfl <|
    .cons [' '] _ hgap <| .cons [' '] _ hgap <| .nil [] rfl
  have h := Offset.intro (by rw [Keyword]; rfl) (by rw [Keyword]; rfl) (by rw [Keyword]; rfl) hbody
  simpa [call] using h

theorem castBody_call (arg : List Char) : CastBody arg (arg ++ " AS DATE".toList) := by
  have h := @CastBody.intro arg "AS".toList "DATE".toList (by rw [Keyword]; rfl)
    (by rw [Keyword]; rfl) [' '] [' '] rfl (by simp) rfl (by simp)
  simpa using h

theorem weekdayInterval_call (arg : List Char) :
    WeekdayInterval arg ("INTERVAL ".toList ++ call "WEEKDAY" [arg] ++ " DAY".toList) := by
  have h := @WeekdayInterval.intro _ "INTERVAL".toList _ _ "DAY".toList
    (by rw [Keyword]; rfl) (by decide) (written_call "WEEKDAY" arg []) (by rw [Keyword]; rfl)
    [' '] [' ']
    rfl (by simp) rfl (by simp)
  simpa using h

section Amounts

variable (unit : TimeUnit) {n : Int} (h : fitsInt64 n = true)
include h

theorem intervalText_amount :
    IntervalText n unit ("INTERVAL ".toList ++ amountText n ++ ' ' :: unit.capitals) := by
  have hword : IsWord unit.capitals := by
    constructor <;> cases unit <;> decide
  have hunit : TimeUnit.ofText? unit.capitals = some unit := by
    cases unit <;> decide
  have hbody := IntervalBody.bare ⟨int64?_amountText h, hword, hunit⟩ [' '] rfl (by simp)
  have h := @IntervalText.intro _ _ "INTERVAL".toList _ (by rw [Keyword]; rfl) [' '] rfl (by simp)
    hbody
  simpa using h

theorem modifier_amount :
    Modifier n unit ('\'' :: signedText n ++ ' ' :: unit.keyword.toList ++ "s'".toList) := by
  have hword : IsWord (unit.keyword.toList ++ ['s']) := by
    constructor <;> cases unit <;> decide
  have hunit : TimeUnit.ofText? (unit.keyword.toList ++ ['s']) = some unit := by
    cases unit <;> decide
  have h := Modifier.intro ⟨int64?_signedText h, hword, hunit⟩ [] [' '] [] rfl rfl (by simp) rfl
  simpa [quoted] using h

omit unit in
theorem number_amountText :
    int64? ((amountText n).filter (· ≠ ' ')) = some n ∧ Trimmed (amountText n) := by
  have hvalue := int64?_amountText h
  have hnumber := isNumber_of_int64? hvalue
  have hfilter : (amountText n).filter (· ≠ ' ') = amountText n := by
    rw [List.filter_eq_self]
    intro c hc
    rcases hnumber.chars c hc with rfl | rfl | hdigit
    · decide
    · decide
    · have hne : c ≠ ' ' := by rintro rfl; exact absurd hdigit (by decide)
      simpa using hne
  exact ⟨by rw [hfilter, hvalue], hnumber.trimmed⟩

end Amounts

theorem Shift.write_sqlite (s : Shift) (clock : Clock) (arg : List Char) :
    (Operation.shift s).write .sqlite clock arg =
      call (if clock = .now || s.unit.isSubDay then "datetime" else "date") [arg,
        '\'' :: signedText s.amount ++ ' ' :: s.unit.keyword.toList ++ "s'".toList] := by
  simp [Operation.write, renderShift, s.notWeek]

/-- The form of an operation is a call in one of the forms that are recognised as it. -/
theorem Operation.form_write (operation : Operation) (dialect : Dialect) (argument : Clock)
    (arg : List Char) :
    ∃ name function args, Form (operation.clock argument) arg operation function args ∧
      DateFunction.ofName? name.toList = some function ∧
      (dialect ≠ .sqlite → function ≠ .datetime) ∧
      operation.write dialect (operation.clock argument) arg = call name args := by
  cases operation with
  | extract part =>
    cases dialect with
    | sqlite =>
      cases part with
      | year => exact ⟨"strftime", _, _, .strftime rfl, rfl, by simp, rfl⟩
      | month => exact ⟨"strftime", _, _, .strftime rfl, rfl, by simp, rfl⟩
      | day => exact ⟨"strftime", _, _, .strftime rfl, rfl, by simp, rfl⟩
      | week => exact ⟨"strftime", _, _, .strftime rfl, rfl, by simp, rfl⟩
    | sqlServer =>
      cases part with
      | year => exact ⟨"YEAR", _, _, .part .year, rfl, by simp, rfl⟩
      | month => exact ⟨"MONTH", _, _, .part .month, rfl, by simp, rfl⟩
      | day => exact ⟨"DAY", _, _, .part .day, rfl, by simp, rfl⟩
      | week => exact ⟨"DATEPART", _, _, .datePart (reads_part .week), rfl, by simp, rfl⟩
    | mySql =>
      cases part with
      | year => exact ⟨"YEAR", _, _, .part .year, rfl, by simp, rfl⟩
      | month => exact ⟨"MONTH", _, _, .part .month, rfl, by simp, rfl⟩
      | day => exact ⟨"DAY", _, _, .part .day, rfl, by simp, rfl⟩
      | week => exact ⟨"WEEK", _, _, .part .week, rfl, by simp, rfl⟩
  | truncate part =>
    cases dialect with
    | sqlite =>
      cases part with
      | year =>
        exact ⟨"date", _, _, @Form.startOf _ _ _ "start of year".toList (by simp) rfl,
          rfl, by simp, rfl⟩
      | month =>
        exact ⟨"date", _, _, @Form.startOf _ _ _ "start of month".toList (by simp) rfl,
          rfl, by simp, rfl⟩
      | day => exact ⟨"date", _, _, .date, rfl, by simp, rfl⟩
      | week =>
        exact ⟨"date", _, _, @Form.monday _ _ "weekday 0".toList "-6 days".toList rfl rfl,
          rfl, by simp, rfl⟩
    | sqlServer =>
      have hfloored : ∀ part : DatePart, Form .date arg (.truncate part) .dateAdd
          [part.keyword.toList, call "DATEDIFF" [part.keyword.toList, "0".toList, arg],
            "0".toList] :=
        fun part => .floored (reads_part part) (reads_part part) (by decide)
          (written_call "DATEDIFF" part.keyword.toList ["0".toList, arg])
      cases part with
      | year => exact ⟨"DATEADD", _, _, hfloored .year, rfl, by simp, rfl⟩
      | month => exact ⟨"DATEADD", _, _, hfloored .month, rfl, by simp, rfl⟩
      | day => exact ⟨"DATEADD", _, _, hfloored .day, rfl, by simp, rfl⟩
      | week =>
        have hbase := written_call "CAST" (arg ++ " AS DATE".toList) []
        exact ⟨"DATEADD", _, _, .aligned (reads_unit .day) (offset_call arg) rfl
          (castBody_call arg) hbase, rfl, by simp, rfl⟩
    | mySql =>
      cases part with
      | year => exact ⟨"DATE_FORMAT", _, _, .dateFormat rfl, rfl, by simp, rfl⟩
      | month => exact ⟨"DATE_FORMAT", _, _, .dateFormat rfl, rfl, by simp, rfl⟩
      | day => exact ⟨"DATE", _, _, .date, rfl, by simp, rfl⟩
      | week =>
        have hbase := written_call "DATE" arg []
        exact ⟨"DATE_SUB", _, _, .weekday rfl hbase (weekdayInterval_call arg),
          rfl, by simp, rfl⟩
  | shift s =>
    cases dialect with
    | sqlite =>
      obtain ⟨clock, hclock⟩ : ∃ clock, clock = (Operation.shift s).clock argument := ⟨_, rfl⟩
      rw [← hclock, s.write_sqlite]
      cases clock with
      | now =>
        exact ⟨"datetime", .datetime, _, .modifier (modifier_amount s.unit s.fits) rfl, rfl,
          by simp, rfl⟩
      | date =>
        have hday : s.unit.isSubDay = false := by
          cases hsub : s.unit.isSubDay with
          | false => rfl
          | true => simp [Operation.clock, hsub] at hclock
        rw [hday]
        exact ⟨"date", .date, _, .modifier (modifier_amount s.unit s.fits) rfl, rfl, by simp, rfl⟩
    | sqlServer =>
      obtain ⟨hnumber, htrim⟩ := number_amountText s.fits
      exact ⟨"DATEADD", _, _, .dateAdd (reads_unit s.unit) hnumber htrim, rfl, by simp, rfl⟩
    | mySql =>
      exact ⟨"DATE_ADD", _, _, .addInterval (intervalText_amount s.unit s.fits), rfl, by simp, rfl⟩

theorem Expr.spells_canonical (expr : Expr) (dialect : Dialect) :
    Spells expr (expr.canonical dialect) := by
  induction expr with
  | column name => exact .column name
  | apply operation expr ih =>
    obtain ⟨name, function, args, hform, hname, -, hwrite⟩ :=
      operation.form_write dialect expr.clock (expr.canonical dialect)
    obtain ⟨arg, args, rfl⟩ := List.exists_cons_of_ne_nil hform.ne_nil
    have hwritten := written_call name arg args
    rw [← hwrite] at hwritten
    exact .apply ih hform hname hwritten

end AskSql.Idiom
