import AskSql.Proofs.Numeric.Text
import AskSql.Proofs.Sql.Piece
import AskSql.Query

/-! Values and conditions as pieces of a statement.  A value is never rewritten, whatever its
strings hold, and each of its strings is the content of one literal. -/

namespace AskSql

open Text Idiom RowLimit Sql Numeric

variable {dialect : Dialect} {text : List Char}

/-! ### Numbers -/

namespace Numeric

theorem isNumeric_iff {c : Char} :
    isNumeric c = true ↔ c.isDigit = true ∨ c ∈ ['e', '.', '+', '-'] := by
  simp [isNumeric, or_assoc]

theorem fold_of_isNumeric {c : Char} (h : isNumeric c = true) :
    isBlank c = false ∧ c ≠ ';' ∧ c ≠ '\'' ∧ fold c ≠ 'i' := by
  rcases isNumeric_iff.1 h with hdigit | hmem
  · refine ⟨isBlank_of_isWordChar (isWordChar_of_isDigit hdigit), ?_, ?_, ?_⟩
    · rintro rfl
      exact absurd hdigit (by decide)
    · rintro rfl
      exact absurd hdigit (by decide)
    · rw [fold_of_isDigit hdigit]
      rintro rfl
      exact absurd hdigit (by decide)
  · have hall : ∀ d ∈ ['e', '.', '+', '-'],
        isBlank d = false ∧ d ≠ ';' ∧ d ≠ '\'' ∧ fold d ≠ 'i' := by decide
    exact hall c hmem

/-- The signs of a number come before its digits and no interval. -/
theorem NumberText.calm (h : NumberText text) : Calm text := by
  obtain ⟨hnumeric, d, hlast, hdigit⟩ := h
  induction text with
  | nil => contradiction
  | cons c cs ih =>
    have hc := fold_of_isNumeric (hnumeric c (by simp))
    cases cs with
    | nil =>
      obtain rfl : c = d := Option.some.inj hlast
      refine calm_of_forall fun x hx => ?_
      obtain rfl := List.mem_singleton.1 hx
      refine ⟨?_, ?_, hc.2.2.1⟩ <;> (rintro rfl; exact absurd hdigit (by decide))
    | cons e cs =>
      have he := fold_of_isNumeric (hnumeric e (by simp))
      have hrest := ih (fun x hx => hnumeric x (List.mem_cons_of_mem c hx)) (by simpa using hlast)
      exact hrest.sign hc.2.2.1 he.1 he.2.2.2

theorem NumberText.item (h : NumberText text) : Item dialect [] [] text := by
  have hchars := fun c hc => fold_of_isNumeric (h.numeric c hc)
  have hquiet : Quiet text := quiet_of_numeric fun c hc => isNumeric_iff.1 (h.numeric c hc)
  refine ⟨piece_of_quiet hquiet h.calm (reads_of_not_mem fun hmem => (hchars _ hmem).2.2.1 rfl),
    fun _ => ?_⟩
  rw [writtenOut_of_quiet hquiet]
  exact unlimited_of_forall h.ne_nil fun c hc => ⟨(hchars c hc).1, (hchars c hc).2.1⟩

end Numeric

namespace Sql

/-! ### Literals -/

mutual

/-- The strings that a value is rendered with. -/
def literalStrings : Json → List String
  | .null | .bool _ | .num _ => []
  | .str s => [s]
  | .arr items => literalsStrings items
  | .obj fields => [(Json.obj fields).compact]

/-- The strings that the values of a list are rendered with. -/
def literalsStrings : List Json → List String
  | [] => []
  | item :: items => literalStrings item ++ literalsStrings items

end

theorem literalsStrings_eq (items : List Json) :
    literalsStrings items = items.flatMap literalStrings := by
  induction items with
  | nil => rfl
  | cons item items ih => rw [literalsStrings, ih, List.flatMap_cons]

/-- A fixed word is an item. -/
theorem item_word (text : List Char) (hfixed : isFixed text = true) (hne : text ≠ [])
    (h : ∀ c ∈ text, isBlank c = false ∧ c ≠ ';') : Item dialect [] [] text where
  toPiece := (fixed_of_isFixed hfixed).piece
  unlimited _ := by
    rw [writtenOut_of_quiet (fixed_of_isFixed hfixed).quiet]
    exact unlimited_of_forall hne h

theorem item_quoteLiteral (s : String) : Item dialect [] [s] (quoteLiteral s).toList := by
  have hreads := reads_quoteLiteral s
  rw [quoteLiteral, String.toList_ofList] at hreads ⊢
  refine ⟨piece_of_quiet (quiet_literal _) (calm_literal _) hreads, fun _ => ?_⟩
  rw [writtenOut_of_quiet (quiet_literal _)]
  exact unlimited_of_last ⟨'\'', List.getLast?_concat .., by decide⟩

theorem item_boolLiteral (b : Bool) : Item dialect [] [] (boolLiteral dialect b).toList := by
  cases dialect <;> cases b <;>
    exact item_word _ (by decide) (by decide) (by decide)

/-- What stands between a front and a back with a visible end is an item. -/
theorem Item.enclosed {names strings : List String} {front back : List Char}
    (h : Piece dialect names strings text) (hfront : isFront front = true)
    (hback : isBack back = true)
    (hlast : ∃ c ∈ back.getLast?, isBlank c = false ∧ c ≠ ';' ∧ isDecimalDigit c = false) :
    Item dialect names strings (front ++ (text ++ back)) := by
  have hitem := (h.after (front_of_isFront hfront)).item_before (back_of_isBack hback) hlast
  rwa [List.append_assoc] at hitem

/-- Items in parentheses, of which there may be none. -/
theorem item_parenthesized {values : List Json} {texts : List String}
    (h : List.Forall₂ (fun value text => Item dialect [] (literalStrings value) text.toList)
      values texts) :
    Item dialect [] (values.flatMap literalStrings)
      ("(" ++ ", ".intercalate texts ++ ")").toList := by
  rw [String.toList_append, String.toList_append, List.append_assoc]
  cases values with
  | nil =>
    cases h
    exact item_word _ (by decide) (by decide) (by decide)
  | cons value values =>
    have hlist := @Item.list dialect Json _ _ (fun _ => []) literalStrings ", " h (by simp)
      (by decide) (guards_of_isGuard (by decide))
    have hnames : (value :: values).flatMap (fun _ => ([] : List String)) = [] := by simp
    rw [hnames] at hlist
    exact .enclosed hlist.toPiece (by decide) (by decide) (by decide)

mutual

/-- A value stays as it is rendered, and its strings are the contents of its string literals. -/
theorem item_literal (dialect : Dialect) :
    ∀ value : Json, Item dialect [] (literalStrings value) (literal dialect value).toList
  | .null => item_word "NULL".toList (by decide) (by decide) (by decide)
  | .bool b => item_boolLiteral b
  | .num n => n.numberText.item
  | .str s => item_quoteLiteral s
  | .arr items => by
    rw [literalStrings, literalsStrings_eq]
    exact item_parenthesized (forall₂_literals dialect items)
  | .obj fields => item_quoteLiteral _

theorem forall₂_literals (dialect : Dialect) : ∀ values : List Json,
    List.Forall₂ (fun value text => Item dialect [] (literalStrings value) text.toList)
      values (literals dialect values)
  | [] => .nil
  | value :: values => .cons (item_literal dialect value) (forall₂_literals dialect values)

end

/-! ### Conditions -/

/-- The strings that a filter is rendered with. -/
def filterStrings (filter : Filter) : List String :=
  if filter.operator.isUnary then [] else literalStrings filter.value

/-- A comparison puts a fixed ending behind the column, or its operator and an operand. -/
theorem comparison_eq (dialect : Dialect) (operator : FilterOperator) (value : Json)
    (column : String) :
    let strings := if operator.isUnary then [] else literalStrings value
    (strings = [] ∧ ∃ back ∈ [" IS NULL".toList, " IS NOT NULL".toList],
        (comparison dialect operator value column).toList = column.toList ++ back) ∨
      ∃ operand, Item dialect [] strings operand ∧
        (comparison dialect operator value column).toList =
          column.toList ++ ((" " ++ operator.keyword ++ " ").toList ++ operand) := by
  have hvalue := item_literal dialect value
  have hsingle := item_parenthesized (.cons hvalue .nil)
  rw [List.flatMap_singleton] at hsingle
  cases operator with
  | isNull =>
    exact Or.inl ⟨rfl, " IS NULL".toList, by simp, by simp [comparison, FilterOperator.keyword]⟩
  | isNotNull =>
    exact Or.inl ⟨rfl, " IS NOT NULL".toList, by simp, by simp [comparison, FilterOperator.keyword]⟩
  | eq =>
    cases value with
    | null => exact Or.inl ⟨rfl, " IS NULL".toList, by simp, by simp [comparison]⟩
    | _ => exact Or.inr ⟨_, hvalue, by simp [comparison, FilterOperator.keyword]⟩
  | ne =>
    cases value with
    | null => exact Or.inl ⟨rfl, " IS NOT NULL".toList, by simp, by simp [comparison]⟩
    | _ => exact Or.inr ⟨_, hvalue, by simp [comparison, FilterOperator.keyword]⟩
  | gt | lt | ge | le | like =>
    exact Or.inr ⟨_, hvalue, by cases value <;> simp [comparison, FilterOperator.keyword]⟩
  | isIn | notIn =>
    cases value with
    | arr items =>
      have hlist := item_parenthesized (forall₂_literals dialect items)
      rw [← literalsStrings_eq] at hlist
      exact Or.inr ⟨_, hlist, by simp [comparison, FilterOperator.keyword]⟩
    | _ => exact Or.inr ⟨_, hsingle, by simp [comparison, FilterOperator.keyword]⟩

theorem item_comparison {names : List String} {column : String}
    (hcolumn : Piece dialect names [] column.toList) (operator : FilterOperator) (value : Json) :
    Item dialect names (if operator.isUnary then [] else literalStrings value)
      (comparison dialect operator value column).toList := by
  have hoperator : isSeparator (" " ++ operator.keyword ++ " ").toList = true ∧
      isGuard (" " ++ operator.keyword ++ " ").toList = true := by
    cases operator <;> decide
  rcases comparison_eq dialect operator value column with ⟨hnone, back, hback, heq⟩ |
    ⟨operand, hoperand, heq⟩
  · have hends : ∀ back ∈ [" IS NULL".toList, " IS NOT NULL".toList], isBack back = true ∧
        ∃ c ∈ back.getLast?, isBlank c = false ∧ c ≠ ';' ∧ isDecimalDigit c = false := by decide
    obtain ⟨hback, hlast⟩ := hends back hback
    rw [hnone, heq]
    exact hcolumn.item_before (back_of_isBack hback) hlast
  · have hitem := Item.between hcolumn hoperand hoperator.1 fun _ => guards_of_isGuard hoperator.2
    rwa [List.append_nil, List.nil_append, ← heq] at hitem

/-- A filter is rendered with its strings as literals and no other string. -/
theorem item_condition {names : List String} {column : String}
    (hcolumn : Piece dialect names [] column.toList) (filter : Filter) :
    Item dialect names (filterStrings filter) (condition dialect filter column).toList := by
  have hitem := item_comparison hcolumn filter.operator filter.value
  rw [condition]
  split
  · rw [String.toList_append, String.toList_append, List.append_assoc]
    exact .enclosed hitem.toPiece (by decide) (by decide) (by decide)
  · exact hitem

end Sql

end AskSql
