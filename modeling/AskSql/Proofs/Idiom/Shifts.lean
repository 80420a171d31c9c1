import AskSql.Proofs.Idiom.Operands
import AskSql.Proofs.Idiom.Steady

/-! Shifts as they are written: as a sum of an operand and an interval, and as calls of the
functions that the dialects have for it.  The number is any run of digits with or without a sign.
What a shift means is decided when its number is read: out of range it means nothing and stays as it
is written. -/

namespace AskSql.Idiom

open Text Sql

variable {write : Idiom → Option (List Char)} {base number word text rest : List Char}

/-! ### Calls as they are written -/

/-- A call adds no interval if its arguments add none. -/
theorem calm_written {name : List Char} {args : List (List Char)} (h : Written name args text)
    (hname : IsName name) (hargs : ∀ a ∈ args, Calm a) : Calm text :=
  h.of_parts Calm.append (fun _ hgap => (mute_of_blank hgap).calm) (by decide)
    (calm_name hname) hargs

/-- A call whose arguments stay is written as its idiom is, or stays. -/
theorem rewriteCalls_written {name : List Char} {args : List (List Char)} {function : DateFunction}
    (h : Written name args text) (hname : DateFunction.ofName? name = some function)
    (hargs : ∀ a ∈ args, IsArg a) (hne : args ≠ [])
    (hstay : ∀ a ∈ args, Rewrites (rewriteCallAt? write) a a) :
    rewriteCalls write text = ((recognise function args).bind write).getD text := by
  obtain ⟨inner, hcall, hsplit, -⟩ := h.isCall (isName_of_ofName? hname) hargs hne
  have hself : (∀ idiom, recognise function args = some idiom → ∀ new, write idiom = some new →
      text = new) → Rewrites (rewriteCallAt? write) text text := by
    intro hwrite
    refine rewrites_written h (isName_of_ofName? hname) hstay fun rest => ?_
    have hat := hcall.callAt?_eq hname rest
    rw [← hsplit] at hwrite
    cases hidiom : recognise function (splitArgs inner) with
    | none => simp [rewriteCallAt?, hat, hidiom]
    | some idiom =>
      cases hnew : write idiom with
      | none => simp [rewriteCallAt?, hat, hidiom, hnew]
      | some new => simp [rewriteCallAt?, hat, hidiom, hnew, ← hwrite idiom hidiom new hnew]
  cases hidiom : recognise function args with
  | none => exact (hself (by simp [hidiom])).rewriteWords_eq
  | some idiom =>
    cases hnew : write idiom with
    | none =>
      rw [Option.bind_some, hnew]
      exact (hself (by simp [hidiom, hnew])).rewriteWords_eq
    | some new =>
      rw [Option.bind_some, hnew, Option.getD_some]
      exact rewriteCalls_call hcall hname (by rw [hsplit, hidiom]) hnew fun heq =>
        hself (by simp [hidiom, hnew, heq])

/-! ### Numbers -/

/-- `text` reads `n`, with or without a sign. -/
inductive Numeral : Int → List Char → Prop
  | unsigned {digits : List Char} {n : Nat} (h : natural? digits = some n) : Numeral n digits
  | plus {digits : List Char} {n : Nat} (h : natural? digits = some n) : Numeral n ('+' :: digits)
  | minus {digits : List Char} {n : Nat} (h : natural? digits = some n) :
      Numeral (-n) ('-' :: digits)

theorem Numeral.isNumber {n : Int} (h : Numeral n text) : IsNumber text := by
  cases h with
  | unsigned h =>
    obtain ⟨hne, hdigits⟩ := digits_of_natural? h
    exact ⟨[], text, rfl, by simp, hne, hdigits⟩
  | @plus digits _ h =>
    obtain ⟨hne, hdigits⟩ := digits_of_natural? h
    exact ⟨['+'], digits, rfl, by simp, hne, hdigits⟩
  | @minus digits _ h =>
    obtain ⟨hne, hdigits⟩ := digits_of_natural? h
    exact ⟨['-'], digits, rfl, by simp, hne, hdigits⟩

/-- A numeral is read as its value, or not at all. -/
theorem Numeral.int64?_eq {n : Int} (h : Numeral n text) :
    int64? text = if fitsInt64 n then some n else none := by
  have hfilter : ∀ n : Int, (some n).filter fitsInt64 = if fitsInt64 n then some n else none :=
    fun n => Option.filter_some
  cases h with
  | unsigned h =>
    obtain ⟨hne, hdigits⟩ := digits_of_natural? h
    obtain ⟨c, digits, rfl⟩ := List.exists_cons_of_ne_nil hne
    have hc := hdigits c (by simp)
    have hplus : c ≠ '+' := by rintro rfl; exact absurd hc (by decide)
    have hminus : c ≠ '-' := by rintro rfl; exact absurd hc (by decide)
    rw [← hfilter]
    simp [int64?, hplus, hminus, h]
  | plus h | minus h =>
    rw [← hfilter]
    simp [int64?, h]

/-- A number has no space to lose. -/
theorem IsNumber.filter_eq (h : IsNumber number) : number.filter (· ≠ ' ') = number := by
  rw [List.filter_eq_self]
  intro c hc
  have hne : c ≠ ' ' := by
    rintro rfl
    rcases h.chars _ hc with hc | hc | hc <;> exact absurd hc (by decide)
  simpa using hne

/-- No number begins an offset to a Monday. -/
theorem IsNumber.weekdayOffset?_eq (h : IsNumber number) : weekdayOffset? number = none := by
  obtain ⟨sign, digits, rfl, hsign, hne, hdigits⟩ := h.split
  obtain ⟨c, digits, rfl⟩ := List.exists_cons_of_ne_nil hne
  have hc := hdigits c (by simp)
  have hstart : trimStart (c :: digits) = c :: digits :=
    trimStart_of_head ⟨c, rfl, isBlank_of_isWordChar (isWordChar_of_isDigit hc)⟩
  have hchar : ∀ x : Char, x.isDigit = false → char? x (c :: digits) = none := by
    intro x hx
    refine char?_eq_none fun hhead => ?_
    obtain rfl : c = x := by simpa using hhead
    simp [hc] at hx
  rcases hsign with rfl | rfl | rfl
  · rw [List.nil_append, weekdayOffset?, hchar '-' (by decide)]
    rfl
  · rfl
  · have hstep : char? '-' (['-'] ++ c :: digits) = some (c :: digits) := rfl
    rw [weekdayOffset?, hstep, Option.bind_eq_bind, Option.bind_some, hstart, hchar '(' (by decide)]
    rfl

/-! ### Spellings -/

/-- A call of `function` with the arguments given last shifts `base` by the units that `number` and
`word` read, or shifts it back.  The functions of SQLite tell the clock of the result. -/
inductive ShiftCall (base number word : List Char) :
    (back : Bool) → (told : Option Clock) → DateFunction → List (List Char) → Prop
  | addInterval {interval : List Char} (h : IntervalOf number word interval) :
      ShiftCall base number word false none .addInterval [base, interval]
  | subInterval {interval : List Char} (h : IntervalOf number word interval) :
      ShiftCall base number word true none .subInterval [base, interval]
  | dateAdd {name : List Char} (h : name = word ∨ name = quoted word) :
      ShiftCall base number word false none .dateAdd [name, number, base]
  | date {modifier : List Char} (h : QuotedBoth number word modifier) :
      ShiftCall base number word false (some .date) .date [base, modifier]
  | datetime {modifier : List Char} (h : QuotedBoth number word modifier) :
      ShiftCall base number word false (some .now) .datetime [base, modifier]

/-- `text` adds an interval to what stands before it or subtracts one. -/
inductive Addend (number word : List Char) : (back : Bool) → List Char → Prop
  | intro {sign : Char} {interval : List Char} (hsign : sign = '+' ∨ sign = '-')
    (gap gap' : List Char)
      (hgap : ∀ c ∈ gap, isAsciiBlank c = true) (hgap' : blank gap' = true)
      (h : IntervalOf number word interval) :
      Addend number word (sign == '-') (gap ++ sign :: (gap' ++ interval))

/-- `text` is `base` shifted by the units that `number` and `word` read, in any spelling. -/
inductive ShiftText (base number word : List Char) :
    (back : Bool) → (told : Option Clock) → List Char → Prop
  | sum {back : Bool} {text : List Char} (h : Addend number word back text) :
      ShiftText base number word back none (base ++ text)
  | call {back : Bool} {told : Option Clock} {function : DateFunction} {args : List (List Char)}
      {name text : List Char} (h : ShiftCall base number word back told function args)
      (hname : DateFunction.ofName? name = some function) (htext : Written name args text) :
      ShiftText base number word back told text

/-- `n` units, or as many back. -/
def signed (back : Bool) (n : Int) : Int :=
  if back then -n else n

/-- The idiom that a shift is written for, if its number is in range on either side. -/
def shiftIdiom? (unit : TimeUnit) (n : Int) (back : Bool) (base : List Char) (clock : Clock) :
    Option Idiom :=
  if fitsInt64 n && fitsInt64 (signed back n) then some (.shift unit (signed back n) base clock)
  else none

theorem shiftIdiom?_false (unit : TimeUnit) (n : Int) (base : List Char) (clock : Clock) :
    shiftIdiom? unit n false base clock =
      if fitsInt64 n then some (.shift unit n base clock) else none := by
  simp [shiftIdiom?, signed]

/-! ### Calls -/

section Calls

variable {unit : TimeUnit} {n : Int} {clock : List Char → TimeUnit → Clock} (hn : Numeral n number)
  (hword : IsWord word) (hunit : TimeUnit.ofText? word = some unit)
include hn hunit

theorem value?_eq (rest : List Char) : ScannedInterval.value? ⟨number, word, rest⟩ =
    if fitsInt64 n then some (n, unit) else none := by
  simp only [ScannedInterval.value?, hn.int64?_eq, hunit, Option.bind_eq_bind]
  cases fitsInt64 n <;> rfl

include hword

theorem recogniseWith_addInterval {interval : List Char} (h : IntervalOf number word interval) :
    recogniseWith clock .addInterval [base, interval] =
      shiftIdiom? unit n false base (clock base unit) := by
  simp only [recogniseWith, h.interval?_eq hn.isNumber hword, value?_eq hn hunit,
    shiftIdiom?_false]
  cases fitsInt64 n <;> rfl

theorem recogniseWith_subInterval {interval : List Char} (h : IntervalOf number word interval) :
    recogniseWith clock .subInterval [base, interval] =
      shiftIdiom? unit n true base (clock base unit) := by
  simp only [recogniseWith, h.weekdayInterval?_eq_none hn.isNumber hword,
    h.interval?_eq hn.isNumber hword, value?_eq hn hunit, shiftIdiom?, signed, negate?]
  cases fitsInt64 n with
  | false => rfl
  | true => cases hneg : fitsInt64 (-n) <;> simp [Option.filter, hneg]

theorem dateCall?_eq {modifier : List Char} (h : QuotedBoth number word modifier)
    (hbase : isNowLiteral base = false) (clock : Clock) :
    dateCall? clock [base, modifier] = shiftIdiom? unit n false base clock := by
  rw [dateCall?_quotedBoth h hn.isNumber hword, value?_eq hn hunit, hbase, shiftIdiom?_false]
  cases fitsInt64 n <;> rfl

theorem recogniseWith_dateAdd {name : List Char} (h : name = word ∨ name = quoted word) :
    recogniseWith clock .dateAdd [name, number, base] =
      shiftIdiom? unit n false base (clock base unit) := by
  have hname : TimeUnit.ofText? name = some unit := by
    rw [← hunit, TimeUnit.ofText?, TimeUnit.ofText?, unitKey_word hword h,
      unitKey_word hword (.inl rfl)]
  have hnumber := hn.isNumber
  have hparts : callParts number = none := callParts_eq_none fun c hc => by
    rcases hnumber.chars c (List.mem_of_head? hc) with rfl | rfl | hdigit
    · decide
    · decide
    · exact ⟨isBlank_of_isWordChar (isWordChar_of_isDigit hdigit), isNameStart_of_isDigit hdigit⟩
  have hfloored : flooredDate? name number base = none := by
    unfold flooredDate?
    rw [hparts]
    cases DatePart.ofText? name with
    | none => rfl
    | some part => simp only [Option.bind_eq_bind, Option.bind_some, Option.bind_none, ite_self]
  have haligned : alignedWeek? name number base = none := by
    unfold alignedWeek?
    rw [hname, hnumber.trimmed.trim_eq, hnumber.weekdayOffset?_eq]
    simp only [Option.bind_eq_bind, Option.bind_some, Option.bind_none, ite_self]
  simp only [recogniseWith, hnumber.filter_eq, hn.int64?_eq, hname, haligned, hfloored,
    shiftIdiom?_false]
  cases fitsInt64 n <;> rfl

namespace ShiftCall

variable {back : Bool} {told : Option Clock} {function : DateFunction} {args : List (List Char)}

/-- A call for a shift is recognised as the shift, if its number is in range. -/
theorem recogniseWith_eq (h : ShiftCall base number word back told function args)
    (hbase : isNowLiteral base = false) : recogniseWith clock function args =
      shiftIdiom? unit n back base (told.getD (clock base unit)) := by
  cases h with
  | addInterval h => exact recogniseWith_addInterval hn hword hunit h
  | subInterval h => exact recogniseWith_subInterval hn hword hunit h
  | dateAdd h => exact recogniseWith_dateAdd hn hword hunit h
  | date h => exact dateCall?_eq hn hword hunit h hbase .date
  | datetime h => exact dateCall?_eq hn hword hunit h hbase .now

omit hunit in
/-- Besides the base a call for a shift has nothing in it that is rewritten. -/
theorem args_eq (h : ShiftCall base number word back told function args) :
    ∀ a ∈ args, a = base ∨ Mute a ∧ Trimmed a := by
  have hnumber := hn.isNumber
  cases h with
  | addInterval h | subInterval h =>
    simpa using Or.inr ⟨h.mute hnumber hword, h.trimmed hword⟩
  | dateAdd h =>
    refine List.forall_mem_cons.2 ⟨Or.inr ?_, by simpa using Or.inr ⟨hnumber.mute, hnumber.trimmed⟩⟩
    rcases h with rfl | rfl
    · exact ⟨hword.mute, hword.trimmed⟩
    · exact ⟨hword.mute.quoted (hword.not_mem (by decide)), trimmed_quoted word⟩
  | date h | datetime h => simpa using Or.inr ⟨h.mute hnumber hword, h.trimmed⟩

omit hunit in
theorem clean (h : ShiftCall base number word back told function args) (hbase : Clean base) :
    ∀ a ∈ args, Clean a := by
  intro a ha
  rcases h.args_eq hn hword a ha with rfl | ⟨hmute, htrim⟩
  · exact hbase
  · exact hmute.toTame.clean htrim

omit hunit in
/-- The same call of another base. -/
theorem change {R : List Char → List Char → Prop} {base' : List Char}
    (h : ShiftCall base number word back told function args) (hbase : R base base')
    (hmute : ∀ a, Mute a → Trimmed a → R a a) :
    ∃ args', ShiftCall base' number word back told function args' ∧ List.Forall₂ R args args' := by
  have hnumber := hn.isNumber
  cases h with
  | addInterval h =>
    exact ⟨_, .addInterval h,
      .cons hbase (.cons (hmute _ (h.mute hnumber hword) (h.trimmed hword)) .nil)⟩
  | subInterval h =>
    exact ⟨_, .subInterval h,
      .cons hbase (.cons (hmute _ (h.mute hnumber hword) (h.trimmed hword)) .nil)⟩
  | @dateAdd name h =>
    have hname : R name name := by
      rcases h with rfl | rfl
      · exact hmute _ hword.mute hword.trimmed
      · exact hmute _ (hword.mute.quoted (hword.not_mem (by decide))) (trimmed_quoted word)
    exact ⟨_, .dateAdd h, .cons hname
      (.cons (hmute _ hnumber.mute hnumber.trimmed) (.cons hbase .nil))⟩
  | date h =>
    exact ⟨_, .date h, .cons hbase (.cons (hmute _ (h.mute hnumber hword) h.trimmed) .nil)⟩
  | datetime h =>
    exact ⟨_, .datetime h, .cons hbase (.cons (hmute _ (h.mute hnumber hword) h.trimmed) .nil)⟩

omit hn hword hunit in
theorem mem (h : ShiftCall base number word back told function args) : base ∈ args := by
  cases h <;> simp

omit hn hword hunit in
theorem ne_nil (h : ShiftCall base number word back told function args) : args ≠ [] := by
  cases h <;> simp

end ShiftCall

end Calls

/-! ### Sums -/

namespace Addend

variable {back : Bool} {tail : List Char}

theorem tame (h : Addend number word back tail) (hnumber : IsNumber number) (hword : IsWord word) :
    Tame tail ∧ '(' ∉ tail ∧ ∃ c ∈ tail.getLast?, c.isAlpha = true ∨ c = '\'' := by
  obtain ⟨hsign, gap, gap', hgap, hgap', hinterval⟩ := h
  rename_i sign interval
  have hmute := hinterval.mute hnumber hword
  have hfront := mute_of_blank (blank_of_isAsciiBlank hgap)
  have hgap' := mute_of_blank hgap'
  obtain ⟨c, hc, hlast⟩ := hinterval.last hword
  have hsignTame : Tame [sign] := by rcases hsign with rfl | rfl <;> decide
  have hparen : '(' ≠ sign := by rcases hsign with rfl | rfl <;> decide
  refine ⟨hfront.toTame.append (hsignTame.append (hgap'.toTame.append hmute.toTame)), ?_, c,
    ?_, hlast⟩
  · simp [hfront.calls, hparen, hgap'.calls, hmute.calls]
  · rw [List.getLast?_append, List.getLast?_cons, List.getLast?_append, Option.mem_def.1 hc]
    rfl

/-- White space aside, an addend begins with its sign. -/
theorem start (h : Addend number word back tail) :
    (∀ c ∈ tail.head?, foldsToLetter c = false) ∧
      ∃ sign more, (sign = '+' ∨ sign = '-') ∧ trimStart tail = sign :: more := by
  obtain ⟨hsign, gap, gap', hgap, -, -⟩ := h
  rename_i sign interval
  have hblank := blank_of_isAsciiBlank hgap
  have hletter : foldsToLetter sign = false := by rcases hsign with rfl | rfl <;> decide
  refine ⟨head_append_of_blank (fun c => foldsToLetter_of_isBlank) hblank (by simpa using hletter),
    sign, gap' ++ interval, hsign, ?_⟩
  rw [trimStart_append hblank]
  exact trimStart_of_head ⟨sign, rfl, by rcases hsign with rfl | rfl <;> decide⟩

theorem joins (h : Addend number word back tail) (front : List Char) : Joins front tail := by
  obtain ⟨hsign, gap, gap', hgap, -, -⟩ := h
  refine joins_to_blank (blank_of_isAsciiBlank hgap) ?_ (Or.inr ?_)
  all_goals rcases hsign with rfl | rfl <;> decide

theorem quiet (h : Addend number word back tail) (hnumber : IsNumber number) (hword : IsWord word) :
    Quiet tail := by
  obtain ⟨htame, hcalls, c, hc, hlast⟩ := h.tame hnumber hword
  exact htame.quiet hcalls ⟨c, hc, isBlank_of_letter hlast⟩

/-- A sum can be an argument if its operand can. -/
theorem isArg (h : Addend number word back tail) (hnumber : IsNumber number) (hword : IsWord word)
    (hbase : IsArg base) : IsArg (base ++ tail) := by
  obtain ⟨htame, -, c, hc, hlast⟩ := h.tame hnumber hword
  obtain ⟨d, hd, hblank⟩ := hbase.trimmed.head
  refine ⟨hbase.closed.append htame.closed, ⟨d, ?_, hblank⟩, ⟨c, ?_, isBlank_of_letter hlast⟩⟩
  · simp [List.head?_append, Option.mem_def.1 hd]
  · simp [List.getLast?_append, Option.mem_def.1 hc]

theorem clean (h : Addend number word back tail) (hnumber : IsNumber number) (hword : IsWord word)
    (hbase : Clean base) : Clean (base ++ tail) :=
  ⟨h.isArg hnumber hword hbase.isArg,
    hbase.clockFree.append (h.tame hnumber hword).1.clockFree (h.joins base)⟩

/-- A sum is no call. -/
theorem callParts_eq (h : Addend number word back tail) (hnumber : IsNumber number)
    (hword : IsWord word) (base : List Char) : callParts (base ++ tail) = none := by
  obtain ⟨-, -, c, hc, hlast⟩ := h.tame hnumber hword
  refine callParts_eq_none_of_last ⟨c, ?_, isBlank_of_letter hlast, ?_⟩
  · simp [List.getLast?_append, Option.mem_def.1 hc]
  · rintro rfl
    exact absurd hlast (by decide)

theorem isNowClock_eq (h : Addend number word back tail) (hnumber : IsNumber number)
    (hword : IsWord word) (base : List Char) : isNowClock (base ++ tail) = false := by
  have hparts := h.callParts_eq hnumber hword base
  obtain ⟨hsign, gap, gap', -, -, -⟩ := h
  rename_i sign interval
  have hmem : sign ∈ base ++ (gap ++ sign :: (gap' ++ interval)) := by simp
  have hsame : sameAscii (base ++ (gap ++ sign :: (gap' ++ interval))) "CURRENT_TIMESTAMP".toList =
      false := by
    rw [sameAscii, beq_eq_false_iff_ne]
    intro heq
    have hlower : sign.toLower ∈ "CURRENT_TIMESTAMP".toList.map Char.toLower :=
      heq ▸ List.mem_map_of_mem hmem
    rcases hsign with rfl | rfl <;> exact absurd hlower (by decide)
  simp only [isNowClock, hsame, hparts]
  rfl

/-- A sum is written as the shift that it stands for, if that is written at all.  What `front` ends
with is no part of the operand, and what follows the interval must not go on with its unit. -/
theorem rewriteIntervalsFrom_behind {front : List Char} {unit : TimeUnit} {n : Int}
    (h : Addend number word back tail) (hn : Numeral n number) (hword : IsWord word)
    (hunit : TimeUnit.ofText? word = some unit) (hbase : OperandBehind front base)
    (hidle : Idle (front ++ base)) (hrest : ∀ c ∈ rest.head?, foldsToLetter c = false) :
    rewriteIntervalsFrom write [] 0 (front ++ (base ++ tail) ++ rest) =
      rewriteIntervalsFrom write
        (front ++ ((shiftIdiom? unit n back base (clockOf base unit)).bind write).getD
          (base ++ tail)).reverse
        0 rest := by
  obtain ⟨hsign, gap, gap', hgap, hgap', hinterval⟩ := h
  rename_i sign interval
  have hnumber := hn.isNumber
  have hgapMute := mute_of_blank (blank_of_isAsciiBlank hgap)
  have hfront : Idle (front ++ base ++ gap) := hidle.append hgapMute.calm.idle
  have hliteral : insideLiteral (front ++ base ++ gap).reverse = false := by
    rw [insideLiteral_reverse, hfront.quotes]
  have hstart : trimStart (gap' ++ (interval ++ rest)) = interval ++ rest := by
    obtain ⟨c, hc, hblank⟩ := (hinterval.trimmed hword).head
    rw [trimStart_append hgap']
    exact trimStart_of_head ⟨c, by simp [List.head?_append, Option.mem_def.1 hc], hblank⟩
  have hshift : shiftAt? write (front ++ base ++ gap).reverse sign (gap' ++ (interval ++ rest)) =
      ((shiftIdiom? unit n (sign == '-') base (clockOf base unit)).bind write).map
        fun new => (new, front.reverse, rest) := by
    simp only [shiftAt?, hliteral, hstart, hinterval.scanInterval?_eq hnumber hword hrest,
      hbase.operandBefore_eq hgap, trimEnd_of_last hbase.last, value?_eq hn hunit,
      Bool.false_eq_true, if_false, Option.bind_eq_bind, Option.bind_some]
    cases hfits : fitsInt64 n with
    | false => simp [shiftIdiom?, hfits]
    | true =>
      rcases hsign with rfl | rfl
      · have hplus : ('+' == '-') = false := rfl
        rw [hplus, shiftIdiom?_false, hfits]
        cases hwrite : write (.shift unit n base (clockOf base unit)) <;> simp [hwrite]
      · have hminus : ('-' == '-') = true := rfl
        rw [hminus]
        cases hneg : fitsInt64 (-n) with
        | false => simp [shiftIdiom?, signed, negate?, hfits, hneg, Option.filter]
        | true =>
          cases hwrite : write (.shift unit (-n) base (clockOf base unit)) <;>
            simp [shiftIdiom?, signed, negate?, hfits, hneg, hwrite, Option.filter]
  have hsplit : front ++ (base ++ (gap ++ sign :: (gap' ++ interval))) ++ rest =
      front ++ base ++ gap ++ sign :: (gap' ++ (interval ++ rest)) := by simp
  have hbody : Calm (gap' ++ interval) :=
    (mute_of_blank hgap').calm.append (hinterval.mute hnumber hword).calm
  have hsignQuote : sign ≠ '\'' := by rcases hsign with rfl | rfl <;> decide
  rw [hsplit, hfront.rewriteIntervalsFrom_eq, rewriteIntervalsFrom, if_pos hsign, hshift]
  cases (shiftIdiom? unit n (sign == '-') base (clockOf base unit)).bind write with
  | none =>
    have hcode : insideLiteral (sign :: (front ++ base ++ gap).reverse) = false := by
      rw [insideLiteral_cons, hliteral, beq_eq_false_iff_ne.2 hsignQuote]
      rfl
    have hpass := @rewriteIntervalsFrom_append (gap' ++ interval) write
      (sign :: (front ++ base ++ gap).reverse) (hcode ▸ hbody.signs) rest
    simpa using hpass
  | some new =>
    have hlength : (gap' ++ (interval ++ rest)).length - rest.length =
        (gap' ++ interval).length := by
      simp only [List.length_append]
      omega
    have hskip :=
      rewriteIntervalsFrom_skip write (new.reverse ++ front.reverse) (gap' ++ interval) rest
    rw [List.append_assoc] at hskip
    simpa only [Option.map_some, hlength, Option.getD_some, List.reverse_append] using hskip

/-- A sum of an operand and an interval is written as the shift that it stands for, if that is
written at all. -/
theorem rewriteIntervalsFrom_eq {unit : TimeUnit} {n : Int} (h : Addend number word back tail)
    (hn : Numeral n number) (hword : IsWord word) (hunit : TimeUnit.ofText? word = some unit)
    (hbase : IsOperand base) (hcalm : Calm base)
    (hrest : ∀ c ∈ rest.head?, foldsToLetter c = false) :
    rewriteIntervalsFrom write [] 0 (base ++ tail ++ rest) =
      rewriteIntervalsFrom write
        (((shiftIdiom? unit n back base (clockOf base unit)).bind write).getD
        (base ++ tail)).reverse
        0 rest :=
  h.rewriteIntervalsFrom_behind hn hword hunit hbase.behind_nil hcalm.idle hrest

end Addend

end AskSql.Idiom
