import AskSql.Proofs.Idiom.Steady
import AskSql.Proofs.RowLimit.Absent
import AskSql.Proofs.Translate.Spelling

/-! The forms of a dialect are left alone by translation into that dialect, however deep they nest.
A form may have other forms in it that are recognised by themselves, such as the cast in the shift
back to a Monday, and SQLite writes the current date and moment inside a form in another way than
alone. -/

namespace AskSql

open Text Sql Idiom

namespace Idiom

/-! ### Trees -/

/-- A shift by a number of units, weeks included. -/
structure Span where
  unit : TimeUnit
  amount : Int
  fits : fitsInt64 amount = true

/-- A date expression over columns, the current date and the current moment.  A shift is taken for
one of a date or for one of a moment, whatever is shifted. -/
inductive DateTree
  | column (column : Column)
  | clock (clock : Clock)
  | extract (part : DatePart) (tree : DateTree)
  | truncate (part : DatePart) (tree : DateTree)
  | shift (span : Span) (clock : Clock) (tree : DateTree)

/-- The form of an idiom in `dialect`, the expression in it rewritten. -/
def form (dialect : Dialect) : Idiom → Option (List Char) :=
  render dialect (operandText dialect (rewrite dialect))

/-- The idiom that a text is a call of. -/
def ofCall? (text : List Char) : Option Idiom := do
  let (name, inner) ← callParts text
  recognise (← DateFunction.ofName? name) (splitArgs inner)

/-- A call of a date function is no statement with a row limit: no function is as long as
`SELECT`. -/
theorem rewriteLimit_isCall {name inner text : List Char} {function : DateFunction}
    (h : IsCall name inner text) (hname : DateFunction.ofName? name = some function)
    (dialect : Dialect) : RowLimit.rewrite dialect text = text := by
  have hlength : name.length ≠ 6 := by
    have hall : ∀ entry ∈ DateFunction.names, entry.1.toList.length ≠ 6 := by decide
    obtain ⟨front, back, hsplit, -⟩ := List.lookup_eq_some_iff.1 hname
    have hlen := hall (String.ofList (upperAscii name), function) (by rw [hsplit]; simp)
    rwa [String.toList_ofList, upperAscii, List.length_map] at hlen
  obtain ⟨gap, hgap, rfl⟩ := h.split
  have hlimit : RowLimit.trailingLimit? (name ++ gap ++ '(' :: inner ++ [')']) = none :=
    RowLimit.trailingLimit?_of_last
      ⟨')', by rw [List.getLast?_concat]; rfl, by decide, by decide, by decide⟩
  have hselect : RowLimit.select? (name ++ gap ++ '(' :: inner ++ [')']) = none := by
    have hword : ∀ c ∈ name, isBlank c = false := fun c hc =>
      isBlank_of_isWordChar (isWordChar_of_isNameChar (h.named.chars c hc))
    have htail : ∀ c ∈ (gap ++ '(' :: (inner ++ [')'])).head?, foldsToLetter c = false :=
      head_append_of_blank (fun c => foldsToLetter_of_isBlank) hgap
        (by simpa using (by decide : foldsToLetter '(' = false))
    have hsplit : name ++ gap ++ '(' :: inner ++ [')'] =
        name ++ (gap ++ '(' :: (inner ++ [')'])) := by
      simp
    rw [hsplit]
    exact (RowLimit.select?_word hword h.named.ne_nil htail).resolve_right fun hsix =>
      hlength hsix.1
  cases dialect with
  | sqlServer => exact RowLimit.toTop_of_trailingLimit hlimit
  | sqlite | mySql => exact RowLimit.toLimit_of_select hselect

namespace DateTree

/-- The form of a tree in `dialect`. -/
def text (dialect : Dialect) : DateTree → Option (List Char)
  | column name => some name.text
  | clock value => form dialect (.clock value)
  | extract part tree => do form dialect (.extract part (← tree.text dialect))
  | truncate part tree => do form dialect (.truncate part (← tree.text dialect))
  | shift span value tree => do
    form dialect (.shift span.unit span.amount (← tree.text dialect) value)

/-- Whether the days in all shifts by weeks fit in 64 bits. -/
def weeksFit : DateTree → Bool
  | column _ | clock _ => true
  | extract _ tree | truncate _ tree => tree.weeksFit
  | shift span _ tree =>
    (span.unit ≠ .week || fitsInt64 (span.amount * 7)) && tree.weeksFit

/-- Every tree has a form, except that SQLite has none for weeks of too many days. -/
theorem isSome_text (dialect : Dialect) (tree : DateTree) :
    (tree.text dialect).isSome = (dialect ≠ .sqlite || tree.weeksFit) := by
  induction tree with
  | column | clock => simp [text, form, render, weeksFit]
  | extract part tree ih | truncate part tree ih =>
    rw [weeksFit, ← ih, text]
    cases tree.text dialect <;> rfl
  | shift span value tree ih =>
    have hshift : ∀ base, (renderShift dialect span.unit span.amount base value).isSome =
        (dialect ≠ .sqlite || (span.unit ≠ .week || fitsInt64 (span.amount * 7))) := by
      intro base
      cases dialect with
      | sqlite =>
        by_cases hweek : span.unit = .week
        · cases hfits : fitsInt64 (span.amount * 7) <;>
            simp [renderShift, hweek, hfits, Option.filter]
        · simp [renderShift, hweek]
      | sqlServer | mySql => simp [renderShift]
    rw [weeksFit, Bool.or_and_distrib_left, ← ih, text]
    cases tree.text dialect with
    | none => simp
    | some base =>
      rw [Option.isSome_some, Bool.and_true]
      exact hshift (operandText dialect (rewrite dialect) base)

/-- The form of a tree is the name of a column or a call that reads back as itself. -/
theorem column_or_steadyCall {dialect : Dialect} {tree : DateTree} {text : List Char}
    (h : tree.text dialect = some text) : (∃ name, tree = column name) ∨
    SteadyCall dialect text := by
  have hsteady : ∀ {tree : DateTree} {arg : List Char}, tree.text dialect = some arg →
      ((∃ name, tree = column name) ∨ SteadyCall dialect arg) →
      Steady dialect arg ∧ operandText dialect (rewrite dialect) arg =
        argumentText dialect arg := by
    intro tree arg harg hcases
    have hsteady : Steady dialect arg := by
      rcases hcases with ⟨name, rfl⟩ | hcall
      · obtain rfl := Option.some.inj harg
        exact name.steady dialect
      · exact hcall.toSteady
    exact ⟨hsteady, keeps_rewrite.operandText_eq hsteady (Nat.lt_succ_self _)⟩
  induction tree generalizing text with
  | column name => exact Or.inl ⟨name, rfl⟩
  | clock value =>
    obtain rfl := Option.some.inj h
    exact Or.inr (steadyCall_renderClock dialect value)
  | extract part tree ih =>
    obtain ⟨arg, harg, hform⟩ := Option.bind_eq_some_iff.1 h
    obtain ⟨harg, hoperand⟩ := hsteady harg (ih harg)
    obtain rfl := Option.some.inj hform
    rw [hoperand]
    exact Or.inr (harg.extract part)
  | truncate part tree ih =>
    obtain ⟨arg, harg, hform⟩ := Option.bind_eq_some_iff.1 h
    obtain ⟨harg, hoperand⟩ := hsteady harg (ih harg)
    obtain rfl := Option.some.inj hform
    rw [hoperand]
    exact Or.inr (harg.truncate part)
  | shift span value tree ih =>
    obtain ⟨arg, harg, hform⟩ := Option.bind_eq_some_iff.1 h
    obtain ⟨harg, hoperand⟩ := hsteady harg (ih harg)
    rw [form, render, hoperand] at hform
    exact Or.inr (harg.shift span.fits hform)

theorem steady_text {dialect : Dialect} {tree : DateTree} {text : List Char}
    (h : tree.text dialect = some text) : Steady dialect text := by
  rcases column_or_steadyCall h with ⟨name, rfl⟩ | hcall
  · obtain rfl := Option.some.inj h
    exact name.steady dialect
  · exact hcall.toSteady

/-- The form of a tree is no statement with a row limit. -/
theorem rewriteLimit_text {dialect : Dialect} {tree : DateTree} {text : List Char}
    (h : tree.text dialect = some text) : RowLimit.rewrite dialect text = text := by
  rcases column_or_steadyCall h with ⟨name, rfl⟩ | hcall
  · obtain rfl := Option.some.inj h
    exact (Expr.column name).rewriteLimit_canonical dialect
  · obtain ⟨name, inner, function, idiom, hcall, hname, -⟩ := hcall.readsBack _ keeps_rewrite
    exact rewriteLimit_isCall hcall hname dialect

/-- One pass leaves the form of a tree as it is. -/
theorem translatePass_text {dialect : Dialect} {tree : DateTree} {text : List Char}
    (h : tree.text dialect = some text) : translatePass dialect text = text := by
  rw [translatePass, (steady_text h).rewrite_eq, rewriteLimit_text h]

end DateTree

end Idiom

/-- The form of a tree in a dialect is left alone by translation into the dialect.  Unless it is the
name of a column, it is a call that is recognised as an idiom with that form. -/
theorem translate_text (dialect : Dialect) (tree : DateTree) {text : List Char}
    (h : tree.text dialect = some text) :
    translate dialect (String.ofList text) = String.ofList text ∧
      ((∃ name, tree = .column name) ∨ ofCall? text >>= form dialect = some text) := by
  refine ⟨?_, (DateTree.column_or_steadyCall h).imp_right fun hcall => ?_⟩
  · have hpass := DateTree.translatePass_text h
    rw [translate, String.toList_ofList, maxPasses, settle_of_step hpass hpass]
  · obtain ⟨name, inner, function, idiom, hparts, hname, hidiom, hform⟩ :=
      hcall.readsBack _ keeps_rewrite
    rw [ofCall?, hparts.callParts_eq]
    simp only [Option.bind_eq_bind, Option.bind_some, hname, hidiom]
    exact hform

/-- The Monday before the moment two weeks on, in SQLite, and the year of the Monday of this week,
in SQL Server. -/
theorem translate_text_monday :
    ∃ (fortnight monday : DateTree) (year : String),
      fortnight.text .sqlite =
        some "date(datetime('now', '+14 days'), 'weekday 0', '-6 days')".toList ∧
      translate .sqlite "date(datetime('now', '+14 days'), 'weekday 0', '-6 days')" =
        "date(datetime('now', '+14 days'), 'weekday 0', '-6 days')" ∧
      year =
        "YEAR(DATEADD(day, -((DATEPART(weekday, CAST(GETDATE() AS DATE)) + @@DATEFIRST - 2) " ++
        "% 7), CAST(CAST(GETDATE() AS DATE) AS DATE)))" ∧
      monday.text .sqlServer = some year.toList ∧ translate .sqlServer year = year := by
  have hfortnight : (DateTree.truncate .week
      (.shift ⟨.week, 2, by decide⟩ .now (.clock .now))).text .sqlite =
        some "date(datetime('now', '+14 days'), 'weekday 0', '-6 days')".toList := by
    decide +kernel
  have hmonday : (DateTree.extract .year (.truncate .week (.clock .date))).text .sqlServer =
      some ("YEAR(DATEADD(day, -((DATEPART(weekday, CAST(GETDATE() AS DATE)) + " ++
        "@@DATEFIRST - 2) % 7), CAST(CAST(GETDATE() AS DATE) AS DATE)))").toList := by
    decide +kernel
  refine ⟨_, _, _, hfortnight, ?_, ?_, hmonday, ?_⟩
  · simpa only [String.ofList_toList] using (translate_text .sqlite _ hfortnight).1
  · decide +kernel
  · simpa only [String.ofList_toList] using (translate_text .sqlServer _ hmonday).1

end AskSql
