import AskSql.Proofs.Idiom.Intervals
import AskSql.Proofs.Idiom.Weeks

/-! Date expressions and their spellings.  An expression is a column under any number of operations.
Each operation has a spelling in every dialect, most have several, and one expression may mix them
freely. -/

namespace AskSql.Idiom

open Text Sql

/-! ### Expressions -/

/-- The name of a column, possibly dotted, that does not begin with a clock keyword. -/
structure Column where
  text : List Char
  chars : ∀ c ∈ text, isWordChar c = true ∨ c = '.'
  start : ∃ c ∈ text.head?, isWordChar c = true
  plain : clockKeyword? (word text).1 = none

/-- A shift by a number of units.  Weeks are left out, which SQLite counts in days. -/
structure Shift where
  unit : TimeUnit
  amount : Int
  notWeek : unit ≠ .week
  fits : fitsInt64 amount = true

/-- What an expression does with a date. -/
inductive Operation
  | extract (part : DatePart)
  | truncate (part : DatePart)
  | shift (shift : Shift)

/-- A date expression over a column. -/
inductive Expr
  | column (column : Column)
  | apply (operation : Operation) (expr : Expr)

/-- Whether the result of an operation carries a time of day, given whether its argument does. -/
def Operation.clock (argument : Clock) : Operation → Clock
  | .shift s => if s.unit.isSubDay then .now else argument
  | _ => .date

namespace Expr

/-- Whether an expression carries a time of day. -/
def clock : Expr → Clock
  | column _ => .date
  | apply operation expr => operation.clock expr.clock

/-- The number of operations in an expression. -/
def height : Expr → Nat
  | column _ => 0
  | apply _ expr => expr.height + 1

end Expr

/-! ### Spellings -/

/-- `operation` on `arg`, whose result has `clock`, can be spelled as a call of `function` with the
arguments that are given last. -/
inductive Form (clock : Clock) (arg : List Char) :
    Operation → DateFunction → List (List Char) → Prop
  | part (part : DatePart) : Form clock arg (.extract part) (.part part) [arg]
  | strftime {part : DatePart} {format : List Char} (h : strftimePart? format = some part) :
      Form clock arg (.extract part) .strftime [format, arg]
  | extract {part : DatePart} {word fromWord : List Char}
    (hpart : lowerAscii word = part.keyword.toList)
      (hfrom : Keyword "from" fromWord) (gap gap' : List Char) (hgap : blank gap = true)
      (hne : gap ≠ []) (hgap' : blank gap' = true) (hne' : gap' ≠ []) :
      Form clock arg (.extract part) .extract [word ++ gap ++ fromWord ++ gap' ++ arg]
  | datePart {part : DatePart} {name : List Char} (h : Reads DatePart.ofText? part name) :
      Form clock arg (.extract part) .datePart [name, arg]
  | dateTrunc {part : DatePart} {name : List Char} (h : Reads DatePart.ofText? part name) :
      Form clock arg (.truncate part) .truncate [name, arg]
  | dateFormat {part : DatePart} {format : List Char} (h : dateFormatPart? format = some part) :
      Form clock arg (.truncate part) .dateFormat [arg, format]
  | date : Form clock arg (.truncate .day) .date [arg]
  | startOf {part : DatePart} {start : List Char} (hweek : part ≠ .week)
      (h : lowerAscii start = "start of ".toList ++ part.keyword.toList) :
      Form clock arg (.truncate part) .date [arg, quoted start]
  | monday {sunday back : List Char} (hsunday : lowerAscii sunday = "weekday 0".toList)
      (hback : lowerAscii back = "-6 days".toList) :
      Form clock arg (.truncate .week) .date [arg, quoted sunday, quoted back]
  | floored {part : DatePart} {name inner diff difference : List Char}
      (h : Reads DatePart.ofText? part name) (hinner : Reads DatePart.ofText? part inner)
      (hdiff : sameAscii diff "DATEDIFF".toList = true)
      (hcall : Written diff [inner, ['0'], arg] difference) :
      Form clock arg (.truncate part) .dateAdd [name, difference, ['0']]
  | aligned {day offset cast body base : List Char} (hday : Reads TimeUnit.ofText? .day day)
      (hoffset : Offset arg offset) (hcast : DateFunction.ofName? cast = some .cast)
      (hbody : CastBody arg body) (hbase : Written cast [body] base) :
      Form clock arg (.truncate .week) .dateAdd [day, offset, base]
  | weekday {date base interval : List Char} (hdate : DateFunction.ofName? date = some .date)
      (hbase : Written date [arg] base) (hinterval : WeekdayInterval arg interval) :
      Form clock arg (.truncate .week) .subInterval [base, interval]
  | dateAdd {shift : Shift} {name number : List Char} (h : Reads TimeUnit.ofText? shift.unit name)
      (hnumber : int64? (number.filter (· ≠ ' ')) = some shift.amount) (htrim : Trimmed number) :
      Form clock arg (.shift shift) .dateAdd [name, number, arg]
  | addInterval {shift : Shift} {interval : List Char}
      (h : IntervalText shift.amount shift.unit interval) :
      Form clock arg (.shift shift) .addInterval [arg, interval]
  | subInterval {shift : Shift} {amount : Int} {interval : List Char}
      (h : IntervalText amount shift.unit interval) (hneg : negate? amount = some shift.amount) :
      Form clock arg (.shift shift) .subInterval [arg, interval]
  | modifier {shift : Shift} {function : DateFunction} {modifier : List Char}
      (h : Modifier shift.amount shift.unit modifier)
      (hfunction : function = if clock = .now then .datetime else .date) :
      Form clock arg (.shift shift) function [arg, modifier]

/-- `text` spells an expression, each operation in any of its forms. -/
inductive Spells : Expr → List Char → Prop
  | column (column : Column) : Spells (.column column) column.text
  | apply {operation : Operation} {expr : Expr} {arg name text : List Char}
    {function : DateFunction}
      {args : List (List Char)} (harg : Spells expr arg)
      (hform : Form (operation.clock expr.clock) arg operation function args)
      (hname : DateFunction.ofName? name = some function) (htext : Written name args text) :
      Spells (.apply operation expr) text

/-! ### Columns -/

namespace Column

variable (column : Column)

theorem ne_nil : column.text ≠ [] := by
  intro hnil
  obtain ⟨c, hc, -⟩ := column.start
  simp [hnil] at hc

theorem forall_mem {p : Char → Prop} (hword : ∀ c, isWordChar c = true → p c) (hdot : p '.') :
    ∀ c ∈ column.text, p c := by
  intro c hc
  rcases column.chars c hc with h | rfl
  · exact hword c h
  · exact hdot

theorem isArg : IsArg column.text where
  closed := closed_of_not_isMark (column.forall_mem (fun _ => isMark_of_isWordChar) (by decide))
  trimmed := trimmed_of_forall column.ne_nil
    (column.forall_mem (fun _ => isBlank_of_isWordChar) (by decide))

/-- A column stays if nothing but clock keywords and calls is rewritten. -/
theorem quiet : Quiet column.text := by
  intro rewriteAt? hf
  refine rewrites_dotted column.start column.chars fun rest hapart => ?_
  have hsplit := List.takeWhile_append_dropWhile (p := isWordChar) (l := column.text)
  have hword : ∀ c ∈ column.text.takeWhile isWordChar, isWordChar c = true :=
    fun c hc => List.mem_takeWhile_imp hc
  have hplain : clockKeyword? (column.text.takeWhile isWordChar) = none := column.plain
  cases hafter : column.text.dropWhile isWordChar with
  | nil =>
    rw [hafter, List.append_nil] at hsplit
    rw [hsplit] at hword hplain
    have hlast := List.getLast?_eq_some_getLast column.ne_nil
    obtain ⟨hstop, hopen⟩ := hapart _ hlast (hword _ (List.getLast_mem column.ne_nil))
    exact hf _ _ hword hstop hplain (Or.inr hopen)
  | cons d after =>
    have hd : isWordChar d = false := head_dropWhile d (by rw [hafter]; simp)
    have hdot : d = '.' := by
      have hmem : d ∈ column.text := by
        rw [← hsplit, hafter]
        simp
      rcases column.chars d hmem with h | h
      · simp [hd] at h
      · exact h
    rw [← hsplit, hafter, List.append_assoc]
    refine hf _ _ hword (by simp [hd]) hplain (Or.inr ?_)
    rw [List.cons_append, hdot, trimStart_of_head ⟨'.', by simp, by decide⟩]
    simp

theorem clockFree : ClockFree column.text :=
  fun write => column.quiet _ (selective_rewriteClockAt? write)

end Column

/-! ### Arguments -/

theorem length_of_ofName? {name : List Char} {function : DateFunction}
    (h : DateFunction.ofName? name = some function) : name.length < 12 := by
  have hall : ∀ entry ∈ DateFunction.names, entry.1.toList.length < 12 := by decide
  obtain ⟨front, back, hsplit, -⟩ := List.lookup_eq_some_iff.1 h
  have hlen := hall (String.ofList (upperAscii name), function) (by rw [hsplit]; simp)
  rwa [String.toList_ofList, upperAscii, List.length_map] at hlen

theorem tame_of_lookup {α : Type} {text : List Char} {value : α} {table : List (String × α)}
    (h : table.lookup (String.ofList text) = some value)
    (hall : ∀ key ∈ table.map Prod.fst, Tame key.toList ∧ Trimmed key.toList) :
    Tame text ∧ Trimmed text := by
  obtain ⟨front, back, hsplit, -⟩ := List.lookup_eq_some_iff.1 h
  have htext := hall (String.ofList text) (by rw [hsplit]; simp)
  rwa [String.toList_ofList] at htext

theorem not_mem_of_lowerAscii {text key : List Char} (h : lowerAscii text = key) {d : Char}
    (hd : d.toLower = d) (hkey : d ∉ key) : d ∉ text := by
  intro hmem
  have hlower : d.toLower ∈ lowerAscii text := List.mem_map_of_mem hmem
  rw [hd, h] at hlower
  exact hkey hlower

theorem tame_quoted_of_lowerAscii {text key : List Char} (h : lowerAscii text = key)
    (hquote : '\'' ∉ key) (hplain : '_' ∉ key) : Tame (quoted text) :=
  tame_quoted (not_mem_of_lowerAscii h (by decide) hquote)
    (not_mem_of_lowerAscii h (by decide) hplain)

theorem letters_of_keyword {word : List Char} {part : DatePart}
    (h : lowerAscii word = part.keyword.toList) : IsWord word := by
  have hkey : part.keyword.toList ≠ [] ∧ ∀ c ∈ part.keyword.toList, c.isAlpha = true := by
    cases part <;> decide
  refine ⟨?_, fun c hc => ?_⟩
  · rintro rfl
    exact hkey.1 h.symm
  · rw [← isAlpha_toLower]
    exact hkey.2 _ (h ▸ List.mem_map_of_mem hc)

theorem tame_of_spacedNumber {number : List Char} {n : Int}
    (h : int64? (number.filter (· ≠ ' ')) = some n) : Tame number := by
  refine tame_of_forall fun c hc => ?_
  by_cases hblank : c = ' '
  · subst hblank
    decide
  · have hmem : c ∈ number.filter (· ≠ ' ') := List.mem_filter.2 ⟨hc, by simpa using hblank⟩
    rcases (isNumber_of_int64? h).chars c hmem with rfl | rfl | hdigit
    · decide
    · decide
    · refine ⟨isMark_of_isWordChar (isWordChar_of_isDigit hdigit), ?_⟩
      rintro rfl
      exact absurd hdigit (by decide)

/-- A text that can be an argument and has no clock keyword. -/
structure Clean (arg : List Char) : Prop where
  isArg : IsArg arg
  clockFree : ClockFree arg

theorem Tame.clean {text : List Char} (h : Tame text) (htrim : Trimmed text) : Clean text :=
  ⟨⟨h.closed, htrim⟩, h.clockFree⟩

theorem clean_quoted {text : List Char} (h : Tame (quoted text)) : Clean (quoted text) :=
  h.clean (trimmed_quoted text)

theorem clean_written {name text : List Char} {args : List (List Char)} (h : Written name args text)
    (hname : IsName name) (hlength : name.length < 12) (hargs : ∀ arg ∈ args, Clean arg)
    (hne : args ≠ []) : Clean text where
  isArg := h.isArg hname (fun arg harg => (hargs arg harg).isArg) hne
  clockFree := clockFree_written h hname hlength (fun arg harg => (hargs arg harg).isArg) hne
    fun arg harg => (hargs arg harg).clockFree

/-- The arguments of every form can be read back. -/
theorem Form.clean {clock : Clock} {arg : List Char} {operation : Operation}
    {function : DateFunction}
    {args : List (List Char)} (h : Form clock arg operation function args) (harg : Clean arg) :
    ∀ a ∈ args, Clean a := by
  cases h with
  | part => simpa using harg
  | strftime h =>
    obtain ⟨htame, htrim⟩ := tame_of_lookup h (by decide)
    simpa using ⟨htame.clean htrim, harg⟩
  | @extract part word fromWord hpart hfrom gap gap' hgap hne hgap' hne' =>
    have hword := letters_of_keyword hpart
    have hfront := ((hword.tame.append (tame_of_blank hgap)).append (hfrom.tame (by decide))).append
      (tame_of_blank hgap')
    have htrim :=
      Trimmed.append hword.trimmed.head harg.isArg.trimmed.last (gap ++ fromWord ++ gap')
    have hclosed := hfront.closed.append harg.isArg.closed
    have hfree := hfront.clockFree.append harg.clockFree (joins_of_blank hgap' hne')
    have hclean : Clean (word ++ gap ++ fromWord ++ gap' ++ arg) :=
      ⟨⟨hclosed, by simpa using htrim⟩, hfree⟩
    simpa using hclean
  | datePart h | dateTrunc h => simpa using ⟨h.tame.clean h.trimmed, harg⟩
  | dateFormat h =>
    obtain ⟨htame, htrim⟩ := tame_of_lookup h (by decide)
    simpa using ⟨harg, htame.clean htrim⟩
  | date => simpa using harg
  | @startOf part start hweek h =>
    have htame := tame_quoted_of_lowerAscii h (by cases part <;> decide) (by cases part <;> decide)
    simpa using ⟨harg, clean_quoted htame⟩
  | monday hsunday hback =>
    have hs := tame_quoted_of_lowerAscii hsunday (by decide) (by decide)
    have hb := tame_quoted_of_lowerAscii hback (by decide) (by decide)
    simpa using ⟨harg, clean_quoted hs, clean_quoted hb⟩
  | floored h hinner hdiff hcall =>
    have hzero : Clean ['0'] := Tame.clean (by decide) (by decide)
    have hargs := clean_written hcall (isName_of_sameAscii hdiff (by decide))
      (by rw [length_of_sameAscii hdiff]; decide)
      (by simpa using ⟨hinner.tame.clean hinner.trimmed, hzero, harg⟩) (by simp)
    simpa using ⟨h.tame.clean h.trimmed, hargs, hzero⟩
  | aligned hday hoffset hcast hbody hbase =>
    have hbody : Clean _ := ⟨hbody.isArg harg.isArg, hbody.clockFree harg.clockFree⟩
    have hbase := clean_written hbase (isName_of_ofName? hcast) (length_of_ofName? hcast)
      (by simpa using hbody) (by simp)
    have hoffset : Clean _ := ⟨hoffset.isArg harg.isArg, hoffset.clockFree harg.clockFree⟩
    simpa using ⟨hday.tame.clean hday.trimmed, hoffset, hbase⟩
  | weekday hdate hbase hinterval =>
    have hbase := clean_written hbase (isName_of_ofName? hdate) (length_of_ofName? hdate)
      (by simpa using harg) (by simp)
    have hinterval : Clean _ :=
      ⟨hinterval.isArg harg.isArg, hinterval.clockFree harg.isArg harg.clockFree⟩
    simpa using ⟨hbase, hinterval⟩
  | dateAdd h hnumber htrim =>
    simpa using ⟨h.tame.clean h.trimmed, (tame_of_spacedNumber hnumber).clean htrim, harg⟩
  | addInterval h | subInterval h => simpa using ⟨harg, h.tame.clean h.trimmed⟩
  | modifier h => simpa using ⟨harg, h.tame.clean h.isArg.trimmed⟩

theorem Form.ne_nil {clock : Clock} {arg : List Char} {operation : Operation}
    {function : DateFunction}
    {args : List (List Char)} (h : Form clock arg operation function args) : args ≠ [] := by
  cases h <;> simp

namespace Spells

theorem clean {expr : Expr} {text : List Char} (h : Spells expr text) : Clean text := by
  induction h with
  | column column => exact ⟨column.isArg, column.clockFree⟩
  | apply _ hform hname htext ih =>
    exact clean_written htext (isName_of_ofName? hname) (length_of_ofName? hname) (hform.clean ih)
      hform.ne_nil

end Spells

end AskSql.Idiom
