import AskSql.Proofs.Idiom.Levels
import AskSql.Proofs.Sql.Backwards

/-! The call that an added interval shifts.  The parenthesis that closes a call is found forwards,
past quotes of every kind and past brackets; where the call begins is found backwards, past string
literals alone.  So the two agree on a call unless a quoted name among its arguments makes them
count its parentheses differently. -/

namespace AskSql.Idiom

open Text Sql

variable {text inner rest : List Char}

/-! ### The operand that is shifted -/

/-- A shift behind a call that is read backwards as a whole is a shift of that call, and what comes
before the call stays. -/
theorem shiftAt?_call {write : Idiom → Option (List Char)} {before gap cs start left : List Char}
    {sign : Char} (hgap : ∀ c ∈ gap, isAsciiBlank c = true) (hinner : ClosedBackwards inner)
    (h : shiftAt? write (gap ++ ')' :: (inner.reverse ++ '(' :: before)) sign cs =
      some (text, start, left)) :
    start = before.dropWhile isOperandChar ∧ ∃ unit amount,
      write (.shift unit amount (wholeCall before inner) (clockOf (wholeCall before inner) unit)) =
        some text := by
  rw [shiftAt?_eq, Option.bind_eq_some_iff] at h
  obtain ⟨⟨idiom, front, behind⟩, hasked, hwrite⟩ := h
  obtain ⟨new, hnew, heq⟩ := Option.map_eq_some_iff.1 hwrite
  obtain ⟨rfl, rfl, rfl⟩ : new = text ∧ front = start ∧ behind = left := by simpa using heq
  obtain ⟨interval, operand, unit, amount, -, -, hoperand, -, rfl⟩ := exists_of_askedShift? hasked
  rw [(operandBefore_call_iff hgap before).2 hinner, Option.some.injEq, Prod.mk.injEq] at hoperand
  obtain ⟨rfl, rfl⟩ := hoperand
  have hend : trimEnd (wholeCall before inner) = wholeCall before inner :=
    trimEnd_of_last ⟨')', by rw [wholeCall, List.getLast?_concat]; rfl, by decide⟩
  rw [hend] at hnew
  exact ⟨rfl, unit, amount, hnew⟩

/-- Where the parenthesis behind `inner` closes a call, the operand of a sign behind the call is the
whole of it exactly if `inner` is closed for a reader of string literals alone.  It is if it has no
other quotes and no brackets outside of literals; and then an interval that is added or subtracted
shifts the whole call. -/
theorem call_scans_agree {after : List Char} (hclose : closeCall after = some (inner, rest)) :
    (∀ before gap, (∀ c ∈ gap, isAsciiBlank c = true) →
      (operandBefore (gap ++ ')' :: (inner.reverse ++ '(' :: before)) =
          some (wholeCall before inner, before.dropWhile isOperandChar) ↔
        ClosedBackwards inner)) ∧
    (OnlyLiterals inner → ClosedBackwards inner) ∧
    ∀ write before gap sign cs text start left, (∀ c ∈ gap, isAsciiBlank c = true) →
      ClosedBackwards inner →
      shiftAt? write (gap ++ ')' :: (inner.reverse ++ '(' :: before)) sign cs =
        some (text, start, left) →
      start = before.dropWhile isOperandChar ∧ ∃ unit amount,
        write (.shift unit amount (wholeCall before inner)
          (clockOf (wholeCall before inner) unit)) = some text := by
  refine ⟨fun before gap hgap => operandBefore_call_iff hgap before, fun honly => ?_,
    fun write before gap sign cs text start left hgap hinner h => shiftAt?_call hgap hinner h⟩
  have hnested := (closeCall_eq_some_iff.1 hclose).2
  exact closedBackwards_iff_passedOver.2 (passedOver_of_nested hnested honly)

/-- A call whose argument calls in turn and holds parentheses in a literal. -/
theorem call_scans_agree_coalesce :
    closeCall "COALESCE(a, ')''('), b) + INTERVAL 1 DAY".toList =
        some ("COALESCE(a, ')''('), b".toList, " + INTERVAL 1 DAY".toList) ∧
      operandBefore "SELECT MAX(COALESCE(a, ')''('), b) ".toList.reverse =
        some ("MAX(COALESCE(a, ')''('), b)".toList, "SELECT ".toList.reverse) := by
  have hclose : closeCall "COALESCE(a, ')''('), b) + INTERVAL 1 DAY".toList =
      some ("COALESCE(a, ')''('), b".toList, " + INTERVAL 1 DAY".toList) := by decide
  refine ⟨hclose, ?_⟩
  exact ((call_scans_agree hclose).1 "SELECT MAX".toList.reverse [' '] (by decide)).2 (by decide)

/-- Of a parenthesis in a quoted name, the two scans make different things. -/
example :
    closeCall "\"(\") + INTERVAL 1 DAY".toList = some ("\"(\"".toList, " + INTERVAL 1 DAY".toList) ∧
      operandBefore "f(\"(\")".toList.reverse = some ("(\")".toList, "f(\"".toList.reverse) := by
  decide

end AskSql.Idiom
