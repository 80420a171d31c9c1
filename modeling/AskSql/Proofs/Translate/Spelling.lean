import AskSql.Translate
import AskSql.Proofs.Idiom.Normal
import AskSql.Proofs.RowLimit

/-! Translation of a date expression depends on the expression and the dialect alone, not on how it
was spelled. -/

namespace AskSql

open Text Sql Idiom

variable {dialect : Dialect} {expr : Expr} {text : List Char}

/-- A text that one pass takes to a text that stays is settled by the passes. -/
theorem settle_of_step {step : List Char → List Char} {new : List Char} (h : step text = new)
    (hnew : step new = new) (passes : Nat) : settle step (passes + 1) text = new := by
  have hstay : ∀ passes, settle step passes new = new := by
    intro passes
    cases passes with
    | zero => rfl
    | succ passes => simp [settle, hnew]
  rw [settle]
  simp only [h]
  split
  · rename_i heq
    exact heq.symm
  · exact hstay passes

namespace Idiom

/-- Each operation of an expression takes at least one character to spell. -/
theorem Spells.height_le (h : Spells expr text) : expr.height ≤ text.length := by
  induction h with
  | column => exact Nat.zero_le _
  | @apply operation expr arg name text function args harg hform hname htext ih =>
    obtain ⟨a, ha, hsublist⟩ := hform.sublist
    have hle := hsublist.length_le
    have hlt := htext.length_lt ha
    simp only [Expr.height]
    omega

theorem Spells.rewrite_eq (h : Spells expr text) :
    rewrite dialect text = expr.canonical dialect := by
  have hheight := h.height_le
  exact (rewriteWithin_spells dialect expr).1 _ _ (by rw [depthFor]; omega) h

/-- The form of an expression is no statement with a row limit. -/
theorem Expr.rewriteLimit_canonical (expr : Expr) (dialect : Dialect) :
    RowLimit.rewrite dialect (expr.canonical dialect) = expr.canonical dialect := by
  have hselect : RowLimit.select? (expr.canonical dialect) = none := by
    cases expr with
    | column name =>
      exact RowLimit.select?_of_forall
        (name.forall_mem (fun c hc => isBlank_of_isWordChar hc) (by decide))
    | apply operation expr =>
      rw [Expr.canonical]
      cases operation with
      | extract part => cases dialect <;> cases part <;> rfl
      | truncate part => cases dialect <;> cases part <;> rfl
      | shift s =>
        cases dialect with
        | sqlite =>
          rw [s.write_sqlite]
          split <;> rfl
        | sqlServer | mySql => rfl
  have hlimit : RowLimit.trailingLimit? (expr.canonical dialect) = none := by
    cases expr with
    | column name =>
      exact RowLimit.trailingLimit?_of_forall (name.forall_mem
        (fun c hc => ⟨isBlank_of_isWordChar hc, by rintro rfl; exact absurd hc (by decide)⟩)
        (by decide))
    | apply operation expr =>
      obtain ⟨name, function, args, -, -, -, hwrite⟩ :=
        operation.form_write dialect expr.clock (expr.canonical dialect)
      refine RowLimit.trailingLimit?_of_last ⟨')', ?_, by decide, by decide, by decide⟩
      rw [Expr.canonical, hwrite, call, List.getLast?_concat]
      rfl
  cases dialect with
  | sqlServer => exact RowLimit.toTop_of_trailingLimit hlimit
  | sqlite | mySql => exact RowLimit.toLimit_of_select hselect

/-- One pass takes every spelling of an expression to the form of the expression. -/
theorem Spells.translatePass_eq (h : Spells expr text) :
    translatePass dialect text = expr.canonical dialect := by
  rw [translatePass, h.rewrite_eq, expr.rewriteLimit_canonical]

end Idiom

/-- All spellings of an expression translate to the form of the expression in the dialect. -/
theorem translate_spells (dialect : Dialect) {expr : Expr} {text : String}
    (h : Spells expr text.toList) :
    translate dialect text = String.ofList (expr.canonical dialect) := by
  have hsettle :=
    settle_of_step h.translatePass_eq (expr.spells_canonical dialect).translatePass_eq 7
  exact congrArg String.ofList hsettle

/-- The Monday of the week three days after a date, the days as in one dialect and the week as in
another. -/
theorem translate_spells_monday :
    ∃ expr, Spells expr
        "DATE_SUB(DATE(DateAdd(d, 3, o.x)), INTERVAL WEEKDAY(DateAdd(d, 3, o.x)) DAY)".toList ∧
      translate .sqlite
        "DATE_SUB(DATE(DateAdd(d, 3, o.x)), INTERVAL WEEKDAY(DateAdd(d, 3, o.x)) DAY)" =
        "date(date(o.x, '+3 days'), 'weekday 0', '-6 days')" := by
  let column : Column := ⟨"o.x".toList, by decide, by decide, by decide⟩
  let shift : Shift := ⟨.day, 3, by decide, by decide⟩
  let arg := call "DateAdd" ["d".toList, "3".toList, column.text]
  have harg : Spells (.apply (.shift shift) (.column column)) arg :=
    .apply (.column column) (.dateAdd ⟨by decide, by decide, by decide⟩ (by decide) (by decide))
      (by decide) (written_call "DateAdd" _ _)
  have hspells := Spells.apply harg
    (.weekday (by decide) (written_call "DATE" _ []) (weekdayInterval_call arg))
    (by decide) (written_call "DATE_SUB" _ _)
  have htext : call "DATE_SUB" [call "DATE" [arg],
      "INTERVAL ".toList ++ call "WEEKDAY" [arg] ++ " DAY".toList] =
      "DATE_SUB(DATE(DateAdd(d, 3, o.x)), INTERVAL WEEKDAY(DateAdd(d, 3, o.x)) DAY)".toList := by
    decide +kernel
  rw [htext] at hspells
  exact ⟨_, hspells, (translate_spells .sqlite hspells).trans (by decide +kernel)⟩

end AskSql
