import AskSql.Proofs.Idiom.Canonical

/-! Rewriting takes every spelling of an expression to the form of the expression in the dialect,
and leaves that form alone. -/

namespace AskSql.Idiom

open Text Sql

variable {write : Idiom → Option (List Char)} {text : List Char}

/-! ### One call -/

theorem rewriteCallAt?_eq_none_of_name {name inner : List Char} (h : IsCall name inner text)
    (hname : DateFunction.ofName? name = none) (rest : List Char) :
    rewriteCallAt? write (text ++ rest) = none := by
  obtain ⟨gap, -, hword⟩ := h.word_eq rest
  simp [rewriteCallAt?, callAt?, hword, hname]

/-- A call whose idiom is written as the call itself, or is none, is left alone. -/
theorem rewriteCallAt?_eq_none_of_isCall {name inner : List Char} {function : DateFunction}
    (h : IsCall name inner text) (hname : DateFunction.ofName? name = some function)
    (hwrite : ∀ idiom, recognise function (splitArgs inner) = some idiom → write idiom = some text)
    (rest : List Char) : rewriteCallAt? write (text ++ rest) = none := by
  have hat := h.callAt?_eq hname rest
  cases hidiom : recognise function (splitArgs inner) with
  | none => simp [rewriteCallAt?, hat, hidiom]
  | some idiom => simp [rewriteCallAt?, hat, hidiom, hwrite idiom hidiom]

/-- `text` is a call that spells an idiom which `write` writes as `text`. -/
def ReadsBack (write : Idiom → Option (List Char)) (text : List Char) : Prop :=
  ∃ name inner function idiom, IsCall name inner text ∧
    DateFunction.ofName? name = some function ∧
    recognise function (splitArgs inner) = some idiom ∧ write idiom = some text

theorem ReadsBack.rewriteCallAt?_eq_none (h : ReadsBack write text) (rest : List Char) :
    rewriteCallAt? write (text ++ rest) = none := by
  obtain ⟨name, inner, function, idiom, hcall, hname, hidiom, hwrite⟩ := h
  refine rewriteCallAt?_eq_none_of_isCall hcall hname (fun found hfound => ?_) rest
  rw [hidiom] at hfound
  rw [← Option.some.inj hfound, hwrite]

theorem readsBack_call {name : String} {arg : List Char} {args : List (List Char)}
    {function : DateFunction} {idiom : Idiom}
    (hname : DateFunction.ofName? name.toList = some function)
    (hargs : ∀ a ∈ arg :: args, IsArg a) (hidiom : recognise function (arg :: args) = some idiom)
    (hwrite : write idiom = some (call name (arg :: args))) :
    ReadsBack write (call name (arg :: args)) := by
  obtain ⟨inner, hcall, hsplit, -⟩ :=
    (written_call name arg args).isCall (isName_of_ofName? hname) hargs (by simp)
  exact ⟨name.toList, inner, function, idiom, hcall, hname, by rw [hsplit, hidiom], hwrite⟩

theorem rewriteCallAt?_eq_none {name : String} {arg : List Char} {args : List (List Char)}
    {function : DateFunction} (hname : DateFunction.ofName? name.toList = some function)
    (hargs : ∀ a ∈ arg :: args, IsArg a)
    (hwrite : ∀ idiom, recognise function (arg :: args) = some idiom →
      write idiom = some (call name (arg :: args))) (rest : List Char) :
    rewriteCallAt? write (call name (arg :: args) ++ rest) = none := by
  obtain ⟨inner, hcall, hsplit, -⟩ :=
    (written_call name arg args).isCall (isName_of_ofName? hname) hargs (by simp)
  exact rewriteCallAt?_eq_none_of_isCall hcall hname (by rwa [hsplit]) rest

theorem rewrites_call {rewriteAt? : List Char → Option (List Char × Nat)} {name : String}
    {arg : List Char} {args : List (List Char)} (hname : IsName name.toList)
    (hargs : ∀ a ∈ arg :: args, Rewrites rewriteAt? a a)
    (hnone : ∀ rest, rewriteAt? (call name (arg :: args) ++ rest) = none) :
    Rewrites rewriteAt? (call name (arg :: args)) (call name (arg :: args)) :=
  rewrites_written (written_call name arg args) hname hargs hnone

theorem rewrites_fixed (h : isQuiet text = true) : Rewrites (rewriteCallAt? write) text text :=
  quiet_of_isQuiet h _ (selective_rewriteCallAt? write)

theorem quiet_amountText {n : Int} (h : fitsInt64 n = true) : Quiet (amountText n) :=
  quiet_of_numeric fun c hc => by
    rcases (isNumber_of_int64? (int64?_amountText h)).chars c hc with rfl | rfl | hdigit
    · decide
    · decide
    · exact Or.inl hdigit

/-! ### The arguments that the forms have beside the expression -/

section Forms

variable {dialect : Dialect} {operand : List Char → List Char} {argument : Clock} {arg : List Char}

/-- What the argument of a form has to satisfy for the form to stay. -/
structure Stays (dialect : Dialect) (operand : List Char → List Char) (argument : Clock)
    (arg : List Char) : Prop where
  clean : Clean arg
  head : ∃ c ∈ arg.head?, isWordChar c = true
  moment : dialect = .sqlServer → isNowClock arg = true → arg = call "GETDATE" []
  clock : ∀ unit : TimeUnit, clockOf arg unit = if unit.isSubDay then .now else argument
  operand_eq : operand arg = arg
  rewrites : Rewrites (rewriteCallAt? (render dialect operand)) arg arg

theorem Stays.rewrites_castToDate (h : Stays .sqlServer operand argument arg) :
    Rewrites (rewriteCallAt? (render .sqlServer operand)) (castToDate arg) (castToDate arg) := by
  have hbody : CastBody arg (arg ++ " AS DATE".toList) := castBody_call arg
  refine rewrites_call (by decide) ?_ fun rest => ?_
  · have hjoin : Joins arg " AS DATE".toList :=
      joins_of_head ⟨' ', by decide, by decide⟩ ⟨'A', by decide, by decide⟩
    simpa using h.rewrites.append (rewrites_fixed (by decide)) hjoin
  · refine rewriteCallAt?_eq_none rfl (by simpa using hbody.isArg h.clean.isArg)
      (fun idiom hidiom => ?_) rest
    have hrecognise : recognise .cast [arg ++ " AS DATE".toList] =
        if isNowClock arg then some (.clock .date) else none := by
      have hcast := hbody.castToDate?_eq h.clean.isArg.trimmed
      have htrim := h.clean.isArg.trimmed.trim_eq
      simp only [recognise, recogniseWith, hcast, htrim]
    rw [hrecognise] at hidiom
    split at hidiom
    · rename_i hnow
      obtain rfl := Option.some.inj hidiom
      rw [h.moment rfl hnow]
      rfl
    · contradiction

theorem Stays.rewrites_offset (h : Stays .sqlServer operand argument arg) :
    Rewrites (rewriteCallAt? (render .sqlServer operand))
      ("-((".toList ++ call "DATEPART" ["weekday".toList, arg] ++ " + @@DATEFIRST - 2) % 7)".toList)
      ("-((".toList ++ call "DATEPART" ["weekday".toList, arg] ++
          " + @@DATEFIRST - 2) % 7)".toList) := by
  have hweekday : IsArg "weekday".toList := ⟨by decide, by decide⟩
  have hcall : Rewrites (rewriteCallAt? (render .sqlServer operand))
      (call "DATEPART" ["weekday".toList, arg]) (call "DATEPART" ["weekday".toList, arg]) := by
    refine rewrites_call (by decide) ?_ fun rest => ?_
    · simpa using ⟨rewrites_fixed (by decide), h.rewrites⟩
    · refine rewriteCallAt?_eq_none rfl
        (by simpa using ⟨hweekday, h.clean.isArg⟩) (fun idiom hidiom => ?_) rest
      have hnone : recognise .datePart ["weekday".toList, arg] = none := rfl
      rw [hnone] at hidiom
      contradiction
  have hfront : Joins "-((".toList (call "DATEPART" ["weekday".toList, arg]) :=
    joins_of_last ⟨'(', by decide, by decide⟩
  have hback : Joins ("-((".toList ++ call "DATEPART" ["weekday".toList, arg])
      " + @@DATEFIRST - 2) % 7)".toList :=
    joins_of_head ⟨' ', by decide, by decide⟩ ⟨'+', by decide, by decide⟩
  exact ((rewrites_fixed (by decide)).append hcall hfront).append (rewrites_fixed (by decide)) hback

theorem Stays.rewrites_weekday (h : Stays .mySql operand argument arg) :
    Rewrites (rewriteCallAt? (render .mySql operand))
      ("INTERVAL ".toList ++ call "WEEKDAY" [arg] ++ " DAY".toList)
      ("INTERVAL ".toList ++ call "WEEKDAY" [arg] ++ " DAY".toList) := by
  have hcall : Rewrites (rewriteCallAt? (render .mySql operand)) (call "WEEKDAY" [arg])
      (call "WEEKDAY" [arg]) := by
    refine rewrites_call (by decide) (by simpa using h.rewrites) fun rest => ?_
    obtain ⟨inner, hcall, -⟩ := (written_call "WEEKDAY" arg []).isCall (by decide)
      (by simpa using h.clean.isArg) (by simp)
    exact rewriteCallAt?_eq_none_of_name hcall rfl rest
  have hfront : Joins "INTERVAL ".toList (call "WEEKDAY" [arg]) :=
    joins_of_last ⟨' ', by decide, by decide⟩
  have hback : Joins ("INTERVAL ".toList ++ call "WEEKDAY" [arg]) " DAY".toList :=
    joins_of_head ⟨' ', by decide, by decide⟩ ⟨'D', by decide, by decide⟩
  exact ((rewrites_fixed (by decide)).append hcall hfront).append (rewrites_fixed (by decide)) hback

theorem rewrites_interval (unit : TimeUnit) {n : Int} (h : fitsInt64 n = true) :
    Rewrites (rewriteCallAt? write) ("INTERVAL ".toList ++ amountText n ++ ' ' :: unit.capitals)
      ("INTERVAL ".toList ++ amountText n ++ ' ' :: unit.capitals) := by
  have hamount := quiet_amountText h _ (selective_rewriteCallAt? write)
  have hunit : Rewrites (rewriteCallAt? write) (' ' :: unit.capitals) (' ' :: unit.capitals) :=
    rewrites_fixed (by cases unit <;> decide)
  have hback : Joins ("INTERVAL ".toList ++ amountText n) (' ' :: unit.capitals) := by
    refine joins_of_head ⟨' ', by simp, by decide⟩ ?_
    cases unit <;> exact ⟨_, rfl, by decide⟩
  exact ((rewrites_fixed (by decide)).append hamount
    (joins_of_last ⟨' ', by decide, by decide⟩)).append
    hunit hback

theorem rewrites_quoted {content : List Char} (hquote : '\'' ∉ content) :
    Rewrites (rewriteCallAt? write) (quoted content) (quoted content) := by
  have h := @rewrites_literal (rewriteCallAt? write) content
  rwa [doubled_of_not_mem hquote] at h

/-- The form of an operation is recognised as what it is the form of. -/
theorem readsBack_write (hclean : Clean arg) (hhead : ∃ c ∈ arg.head?, isWordChar c = true)
    (hclock : ∀ unit : TimeUnit, clockOf arg unit = if unit.isSubDay then .now else argument)
    (hoperand : operand arg = arg) (operation : Operation) :
    ReadsBack (render dialect operand)
    (operation.write dialect (operation.clock argument) arg) := by
  obtain ⟨name, function, args, hform, hname, -, hwrite⟩ :=
    operation.form_write dialect argument arg
  obtain ⟨first, args, rfl⟩ := List.exists_cons_of_ne_nil hform.ne_nil
  have hidiom : recognise function (first :: args) =
      some (operation.idiom (operation.clock argument) arg) :=
    hform.recognise_eq hclean hhead fun s hs => by rw [hclock, hs]; rfl
  have hrender := render_idiom dialect operand operation (operation.clock argument) arg
  rw [hoperand] at hrender
  rw [hwrite] at hrender ⊢
  exact readsBack_call hname (fun a ha => (hform.clean hclean a ha).isArg) hidiom hrender

theorem Stays.readsBack (h : Stays dialect operand argument arg) (operation : Operation) :
    ReadsBack (render dialect operand) (operation.write dialect (operation.clock argument) arg) :=
  readsBack_write h.clean h.head h.clock h.operand_eq operation

/-- The form of an operation stays if its argument does. -/
theorem Stays.rewrites_write (h : Stays dialect operand argument arg) (operation : Operation) :
    Rewrites (rewriteCallAt? (render dialect operand))
      (operation.write dialect (operation.clock argument) arg)
      (operation.write dialect (operation.clock argument) arg) := by
  have hhead := (h.readsBack operation).rewriteCallAt?_eq_none
  cases operation with
  | extract part =>
    cases dialect with
    | sqlite =>
      cases part <;> exact rewrites_call (by decide)
        (by simpa using ⟨rewrites_fixed (by decide), h.rewrites⟩) hhead
    | sqlServer =>
      cases part with
      | week =>
        exact rewrites_call (by decide)
          (by simpa using ⟨rewrites_fixed (by decide), h.rewrites⟩) hhead
      | _ => exact rewrites_call (by decide) (by simpa using h.rewrites) hhead
    | mySql => cases part <;> exact rewrites_call (by decide) (by simpa using h.rewrites) hhead
  | truncate part =>
    cases dialect with
    | sqlite =>
      cases part with
      | day => exact rewrites_call (by decide) (by simpa using h.rewrites) hhead
      | week =>
        exact rewrites_call (by decide)
          (by simpa using ⟨h.rewrites, rewrites_fixed (by decide), rewrites_fixed (by decide)⟩)
          hhead
      | _ =>
        exact rewrites_call (by decide)
          (by simpa using ⟨h.rewrites, rewrites_fixed (by decide)⟩) hhead
    | sqlServer =>
      have hunit : ∀ part : DatePart, Rewrites (rewriteCallAt? (render .sqlServer operand))
          part.keyword.toList part.keyword.toList := fun part =>
        rewrites_fixed (by cases part <;> decide)
      have hdiff : ∀ part : DatePart, Rewrites (rewriteCallAt? (render .sqlServer operand))
          (call "DATEDIFF" [part.keyword.toList, "0".toList, arg])
          (call "DATEDIFF" [part.keyword.toList, "0".toList, arg]) := fun part => by
        have hargs : ∀ a ∈ [part.keyword.toList, "0".toList, arg], IsArg a := by
          simpa using ⟨(reads_part part).isArg, ⟨by decide, by decide⟩, h.clean.isArg⟩
        obtain ⟨inner, hcall, -⟩ := (written_call "DATEDIFF" _ _).isCall (by decide) hargs (by simp)
        exact rewrites_call (by decide)
          (by simpa using ⟨hunit part, rewrites_fixed (by decide), h.rewrites⟩)
          (rewriteCallAt?_eq_none_of_name hcall rfl)
      have hday : Rewrites (rewriteCallAt? (render .sqlServer operand)) "day".toList "day".toList :=
        rewrites_fixed (by decide)
      cases part with
      | week =>
        exact rewrites_call (by decide)
          (by simpa using ⟨hday, h.rewrites_offset, h.rewrites_castToDate⟩) hhead
      | year =>
        exact rewrites_call (by decide)
          (by simpa using ⟨hunit .year, hdiff .year, rewrites_fixed (by decide)⟩) hhead
      | month =>
        exact rewrites_call (by decide)
          (by simpa using ⟨hunit .month, hdiff .month, rewrites_fixed (by decide)⟩) hhead
      | day =>
        exact rewrites_call (by decide)
          (by simpa using ⟨hunit .day, hdiff .day, rewrites_fixed (by decide)⟩) hhead
    | mySql =>
      have hdate : Rewrites (rewriteCallAt? (render .mySql operand)) (call "DATE" [arg])
          (call "DATE" [arg]) :=
        rewrites_call (by decide) (by simpa using h.rewrites)
          (h.readsBack (.truncate .day)).rewriteCallAt?_eq_none
      cases part with
      | day => exact hdate
      | week => exact rewrites_call (by decide) (by simpa using ⟨hdate, h.rewrites_weekday⟩) hhead
      | _ =>
        exact rewrites_call (by decide)
          (by simpa using ⟨h.rewrites, rewrites_fixed (by decide)⟩) hhead
  | shift s =>
    cases dialect with
    | sqlite =>
      obtain ⟨content, hcontent, hquote, -⟩ := (modifier_amount s.unit s.fits).exists_quoted
      have hmodifier := @rewrites_quoted (render .sqlite operand) _ hquote
      rw [← hcontent] at hmodifier
      rw [s.write_sqlite] at hhead ⊢
      have hname : IsName (if (Operation.shift s).clock argument = .now || s.unit.isSubDay then
          "datetime" else "date").toList := by
        split <;> decide
      refine rewrites_call hname (fun a ha => ?_) hhead
      rcases List.mem_pair.1 ha with rfl | rfl
      · exact h.rewrites
      · exact hmodifier
    | sqlServer =>
      exact rewrites_call (by decide)
        (by simpa using ⟨rewrites_fixed (by cases s.unit <;> decide),
          quiet_amountText s.fits _ (selective_rewriteCallAt? _), h.rewrites⟩) hhead
    | mySql =>
      exact rewrites_call (by decide)
        (by simpa using ⟨h.rewrites, rewrites_interval s.unit s.fits⟩) hhead

end Forms

/-! ### Signs -/

theorem calm_call {name : String} {args : List (List Char)} (hname : Calm name.toList)
    (hargs : ∀ arg ∈ args, Calm arg) : Calm (call name args) := by
  have hinner : Calm (", ".toList.intercalate args) := by
    induction args with
    | nil => exact ⟨rfl, rfl⟩
    | cons arg args ih =>
      have hrest := ih fun a ha => hargs a (List.mem_cons_of_mem _ ha)
      cases args with
      | nil => simpa using hargs arg (by simp)
      | cons next args =>
        have hcomma : Calm ", ".toList := by decide
        simpa [List.intercalate_cons_cons] using ((hargs arg (by simp)).append hcomma).append hrest
  have hopen : Calm ['('] := by decide
  have hclose : Calm [')'] := by decide
  simpa [call] using ((hname.append hopen).append hinner).append hclose

theorem calm_amountText {n : Int} (h : fitsInt64 n = true) : Calm (amountText n) :=
  (isNumber_of_int64? (int64?_amountText h)).calm

theorem calm_interval (unit : TimeUnit) {n : Int} (h : fitsInt64 n = true) :
    Calm ("INTERVAL ".toList ++ amountText n ++ ' ' :: unit.capitals) := by
  have hopen : Calm "INTERVAL ".toList := by decide
  have hunit : Calm (' ' :: unit.capitals) := by cases unit <;> decide
  exact (hopen.append (calm_amountText h)).append hunit

/-- The form of an operation adds and subtracts no interval. -/
theorem Operation.calm_write (operation : Operation) (dialect : Dialect) (clock : Clock)
    {arg : List Char} (h : Calm arg) : Calm (operation.write dialect clock arg) := by
  cases operation with
  | extract part =>
    cases dialect with
    | sqlite => cases part <;> exact calm_call (by decide) (by simpa using ⟨by decide, h⟩)
    | sqlServer =>
      cases part with
      | week => exact calm_call (by decide) (by simpa using ⟨by decide, h⟩)
      | _ => exact calm_call (by decide) (by simpa using h)
    | mySql => cases part <;> exact calm_call (by decide) (by simpa using h)
  | truncate part =>
    cases dialect with
    | sqlite =>
      cases part with
      | day => exact calm_call (by decide) (by simpa using h)
      | week => exact calm_call (by decide) (by simpa using ⟨h, by decide, by decide⟩)
      | _ => exact calm_call (by decide) (by simpa using ⟨h, by decide⟩)
    | sqlServer =>
      have hdiff :
          ∀ part : DatePart, Calm (call "DATEDIFF" [part.keyword.toList, "0".toList, arg]) :=
        fun part => calm_call (by decide) (by simpa using ⟨by cases part <;> decide, by decide, h⟩)
      have hday : Calm "day".toList := by decide
      have hoffset : Calm ("-((".toList ++ call "DATEPART" ["weekday".toList, arg] ++
          " + @@DATEFIRST - 2) % 7)".toList) := by
        have hopen : Calm "-((".toList := by decide
        have hclose : Calm " + @@DATEFIRST - 2) % 7)".toList := by decide
        have hcall : Calm (call "DATEPART" ["weekday".toList, arg]) :=
          calm_call (by decide) (by simpa using ⟨by decide, h⟩)
        exact (hopen.append hcall).append hclose
      have hcast : Calm (castToDate arg) := by
        have hdate : Calm " AS DATE".toList := by decide
        exact calm_call (by decide) (by simpa using h.append hdate)
      cases part with
      | week => exact calm_call (by decide) (by simpa using ⟨hday, hoffset, hcast⟩)
      | year => exact calm_call (by decide) (by simpa using ⟨by decide, hdiff .year, by decide⟩)
      | month => exact calm_call (by decide) (by simpa using ⟨by decide, hdiff .month, by decide⟩)
      | day => exact calm_call (by decide) (by simpa using ⟨by decide, hdiff .day, by decide⟩)
    | mySql =>
      have hdate : Calm (call "DATE" [arg]) := calm_call (by decide) (by simpa using h)
      have hinterval : Calm ("INTERVAL ".toList ++ call "WEEKDAY" [arg] ++ " DAY".toList) := by
        have hopen : Calm "INTERVAL ".toList := by decide
        have hclose : Calm " DAY".toList := by decide
        have hcall : Calm (call "WEEKDAY" [arg]) := calm_call (by decide) (by simpa using h)
        exact (hopen.append hcall).append hclose
      cases part with
      | day => exact hdate
      | week => exact calm_call (by decide) (by simpa using ⟨hdate, hinterval⟩)
      | _ => exact calm_call (by decide) (by simpa using ⟨h, by decide⟩)
  | shift s =>
    cases dialect with
    | sqlite =>
      obtain ⟨content, hcontent, hquote, -⟩ := (modifier_amount s.unit s.fits).exists_quoted
      have hmodifier := calm_quoted hquote
      rw [← hcontent] at hmodifier
      rw [s.write_sqlite]
      refine calm_call (by split <;> decide) fun a ha => ?_
      rcases List.mem_pair.1 ha with rfl | rfl
      · exact h
      · exact hmodifier
    | sqlServer =>
      refine calm_call (by decide) ?_
      simpa using ⟨by cases s.unit <;> decide, calm_amountText s.fits, h⟩
    | mySql =>
      exact calm_call (by decide) (by simpa using ⟨h, calm_interval s.unit s.fits⟩)

theorem Column.calm (column : Column) : Calm column.text :=
  calm_of_forall (column.forall_mem
    (fun c hc =>
    ⟨by rintro rfl; exact absurd hc (by decide), by rintro rfl; exact absurd hc (by decide),
      by rintro rfl; exact absurd hc (by decide)⟩) (by decide))

theorem Expr.calm_canonical (expr : Expr) (dialect : Dialect) : Calm (expr.canonical dialect) := by
  induction expr with
  | column name => exact name.calm
  | apply operation expr ih => exact operation.calm_write dialect _ ih

/-! ### Expressions -/

theorem Expr.isNowClock_canonical (expr : Expr) {dialect : Dialect} (h : dialect ≠ .sqlite) :
    isNowClock (expr.canonical dialect) = false := by
  cases expr with
  | column name => exact name.isNowClock_eq
  | apply operation expr =>
    obtain ⟨name, function, args, hform, hname, hdatetime, hwrite⟩ :=
      operation.form_write dialect expr.clock (expr.canonical dialect)
    obtain ⟨first, args, rfl⟩ := List.exists_cons_of_ne_nil hform.ne_nil
    have hclean := hform.clean (expr.spells_canonical dialect).clean
    have hwritten := written_call name first args
    obtain ⟨inner, hcall, -⟩ := hwritten.isCall (isName_of_ofName? hname)
      (fun a ha => (hclean a ha).isArg) (by simp)
    rw [Expr.canonical, hwrite]
    exact isNowClock_eq_false hwritten.paren_mem hcall.callParts_eq hname hform.ne_moment
      (hdatetime h)

theorem toLower_ne_quote {c : Char} (h : isWordChar c = true) : c.toLower ≠ '\'' := by
  intro hquote
  rcases toLower_eq_or_isAlpha c with heq | halpha
  · rw [heq] at hquote
    subst hquote
    exact absurd h (by decide)
  · rw [← isAlpha_toLower, hquote] at halpha
    exact absurd halpha (by decide)

theorem sameAscii_eq_false_of_not_mem {key : List Char} (htext : '(' ∉ text) (hkey : '(' ∈ key) :
    sameAscii text key = false := by
  cases hs : sameAscii text key with
  | false => rfl
  | true =>
    have hmem : '('.toLower ∈ key.map Char.toLower := List.mem_map_of_mem hkey
    rw [← beq_iff_eq.1 hs, List.mem_map] at hmem
    obtain ⟨c, hc, hlower⟩ := hmem
    rcases toLower_eq_or_isAlpha c with heq | halpha
    · rw [heq] at hlower
      rw [hlower] at hc
      exact absurd hc htext
    · rw [← isAlpha_toLower, hlower] at halpha
      exact absurd halpha (by decide)

theorem call_eq_append (name : String) (arg : List Char) (args : List (List Char)) :
    ∃ rest, call name (arg :: args) = name.toList ++ '(' :: (arg ++ rest) := by
  cases args with
  | nil => exact ⟨[')'], by simp [call]⟩
  | cons next args =>
    exact ⟨", ".toList ++ ", ".toList.intercalate (next :: args) ++ [')'], by
      simp [call, List.intercalate_cons_cons]⟩

/-- No expression is written like the current date or moment. -/
theorem Expr.canonical_ne_now (expr : Expr) {now : String}
    (hnow : now = "date('now')" ∨ now = "datetime('now')") :
    sameAscii (expr.canonical .sqlite) now.toList = false := by
  cases expr with
  | column name =>
    refine sameAscii_eq_false_of_not_mem (fun hmem => ?_) (by rcases hnow with rfl | rfl <;> decide)
    rcases name.chars _ hmem with h | h <;> exact absurd h (by decide)
  | apply operation expr =>
    obtain ⟨c, hc, hword⟩ := (expr.spells_canonical .sqlite).head
    obtain ⟨cs, hcs⟩ : ∃ cs, expr.canonical .sqlite = c :: cs := by
      cases hcan : expr.canonical .sqlite with
      | nil => simp [hcan] at hc
      | cons d cs =>
        obtain rfl : d = c := by simpa [hcan] using hc
        exact ⟨cs, rfl⟩
    have hquote := toLower_ne_quote hword
    have hcall : ∀ name : String, name = "date" ∨ name = "datetime" → ∀ args,
        sameAscii (call name ((c :: cs) :: args)) now.toList = false := by
      intro name hname args
      obtain ⟨rest, hrest⟩ := call_eq_append name (c :: cs) args
      rw [hrest]
      rcases hname with rfl | rfl <;> rcases hnow with rfl | rfl <;> simp [sameAscii, hquote]
    rw [Expr.canonical, hcs]
    cases operation with
    | extract part =>
      have hfun : ∀ format, sameAscii (call "strftime" [format, c :: cs]) now.toList = false := by
        intro format
        rcases hnow with rfl | rfl <;> simp [call, sameAscii]
      cases part <;> exact hfun _
    | truncate part => cases part <;> exact hcall "date" (Or.inl rfl) _
    | shift s =>
      rw [s.write_sqlite]
      split
      · exact hcall "datetime" (Or.inr rfl) _
      · exact hcall "date" (Or.inl rfl) _

/-- An argument that spells an expression is written in its form, once it is rewritten to it. -/
theorem operandText_eq {dialect : Dialect} {rewrite : List Char → List Char} {expr : Expr}
    (h : Spells expr text) (hrewrite : rewrite text = expr.canonical dialect) :
    operandText dialect rewrite text = expr.canonical dialect := by
  have htrim := h.clean.isArg.trimmed.trim_eq
  have hnow := isNowLiteral_of_head h.head
  simp only [operandText, htrim, hnow, hrewrite]
  cases dialect with
  | sqlite =>
    have hdate := expr.canonical_ne_now (Or.inl rfl)
    have hdatetime := expr.canonical_ne_now (Or.inr rfl)
    rw [if_neg (by simp), if_neg (by rw [hdate, hdatetime]; simp)]
  | sqlServer => rw [if_neg (by simp), if_neg (by simp)]
  | mySql => rw [if_neg (by simp), if_neg (by simp)]

/-- Rewriting the call that a text is rewrites the whole text. -/
theorem rewriteCalls_call {name inner new : List Char} {function : DateFunction} {idiom : Idiom}
    (hcall : IsCall name inner text) (hname : DateFunction.ofName? name = some function)
    (hidiom : recognise function (splitArgs inner) = some idiom) (hwrite : write idiom = some new)
    (hsame : text = new → Rewrites (rewriteCallAt? write) text text) :
    rewriteCalls write text = new := by
  by_cases heq : text = new
  · rw [← heq]
    exact (hsame heq).rewriteWords_eq
  · have hat := hcall.callAt?_eq hname []
    rw [List.append_nil] at hat
    have hnew : rewriteCallAt? write text = some (new, text.length) := by
      simp [rewriteCallAt?, hat, hidiom, hwrite, Ne.symm heq]
    obtain ⟨c, hc, hword⟩ : ∃ c ∈ text.head?, isWordChar c = true := by
      obtain ⟨gap, -, rfl⟩ := hcall.split
      obtain ⟨c, hc, hs⟩ := hcall.named.start
      refine ⟨c, ?_, isWordChar_of_isNameChar (isNameChar_of_isNameStart hs)⟩
      simp [List.head?_append, Option.mem_def.1 hc]
    cases text with
    | nil => simp at hc
    | cons d cs =>
      obtain rfl : d = c := by simpa using hc
      have hskip := @rewriteWordsFrom_skip (rewriteCallAt? write) (some d) cs []
        (d == '\'')
      rw [List.append_nil] at hskip
      have hbegins : beginsWord none d = true := by simp [beginsWord, hword]
      rw [rewriteCalls, rewriteWords, rewriteWordsFrom]
      simp [hbegins, isAnchored, hnew, hskip, rewriteWordsFrom]

theorem Spells.clockOf_eq {expr : Expr} (h : Spells expr text) (unit : TimeUnit) :
    clockOf text unit = if unit.isSubDay then .now else expr.clock :=
  h.clockWithin_eq (Nat.lt_succ_self _) unit

/-- Rewriting that reaches all operations of an expression takes every spelling of it to its form,
and leaves the form as it is. -/
theorem rewriteWithin_spells (dialect : Dialect) (expr : Expr) :
    (∀ depth text, expr.height ≤ depth → Spells expr text →
      rewriteWithin dialect depth text = expr.canonical dialect) ∧
    ∀ depth, expr.height ≤ depth + 1 →
      Rewrites (rewriteCallAt? (render dialect (operandText dialect (rewriteWithin dialect depth))))
        (expr.canonical dialect) (expr.canonical dialect) := by
  induction expr with
  | column name =>
    refine ⟨fun depth text _ h => ?_, fun depth _ => name.quiet _ (selective_rewriteCallAt? _)⟩
    cases h
    exact rewriteWithin_of_quiet name.quiet name.calm.idle dialect depth
  | apply operation expr ih =>
    obtain ⟨ihSpells, ihForm⟩ := ih
    -- At this depth the argument of the form is settled, and with it the form.
    have hstays : ∀ depth, expr.height ≤ depth → Stays dialect
        (operandText dialect (rewriteWithin dialect depth)) expr.clock
        (expr.canonical dialect) := by
      intro depth hdepth
      have hcanonical := expr.spells_canonical dialect
      exact ⟨hcanonical.clean, hcanonical.head,
        fun hserver hnow =>
          by simp [expr.isNowClock_canonical, hserver] at hnow, hcanonical.clockOf_eq,
        operandText_eq hcanonical (ihSpells depth _ hdepth hcanonical), ihForm depth (by omega)⟩
    have hform : ∀ depth, expr.height + 1 ≤ depth + 1 →
        Rewrites
          (rewriteCallAt? (render dialect (operandText dialect (rewriteWithin dialect depth))))
          ((Expr.apply operation expr).canonical dialect)
          ((Expr.apply operation expr).canonical dialect) :=
      fun depth hdepth => (hstays depth (by omega)).rewrites_write operation
    refine ⟨fun depth text hdepth h => ?_, hform⟩
    obtain ⟨depth, rfl⟩ : ∃ d, depth = d + 1 :=
      ⟨depth - 1, by simp only [Expr.height] at hdepth; omega⟩
    have hclocks := (h.clean.clockFree (renderClock dialect)).rewriteWords_eq
    have hcalm := (Expr.apply operation expr).calm_canonical dialect
    rw [rewriteWithin, rewriteClocks, hclocks]
    cases h with
    | @apply _ _ arg name _ function args harg hparts hname htext =>
      simp only [Expr.height] at hdepth
      have hargs := hparts.clean harg.clean
      obtain ⟨inner, hcall, hsplit, -⟩ := htext.isCall (isName_of_ofName? hname)
        (fun a ha => (hargs a ha).isArg) hparts.ne_nil
      have hidiom : recognise function (splitArgs inner) =
          some (operation.idiom (operation.clock expr.clock) arg) := by
        rw [hsplit]
        exact hparts.recognise_eq harg.clean harg.head fun s hs => by rw [harg.clockOf_eq, hs]; rfl
      have hoperand := operandText_eq harg
        (ihSpells depth arg (by omega) harg)
      have hwrite :=
        render_idiom dialect (operandText dialect (rewriteWithin dialect depth)) operation
        (operation.clock expr.clock) arg
      rw [hoperand] at hwrite
      have hcalls := rewriteCalls_call hcall hname hidiom hwrite fun heq => by
        rw [heq]
        exact hform depth hdepth
      rw [hcalls]
      exact hcalm.rewriteIntervals_eq _

end AskSql.Idiom
