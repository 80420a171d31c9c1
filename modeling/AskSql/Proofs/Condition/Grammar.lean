import AskSql.Proofs.Idiom.Quiet
import AskSql.Proofs.Numeric.Text
import AskSql.Proofs.Sql.QuotedName
import AskSql.Sql.Statement

/-! The grammar of the conditions that filters become.  A condition says something of a column, or
it is the negation of a condition in parentheses.  A filter is written as a condition unless its
value is an array where no list of literals belongs: a list must not be empty, and no array is a
literal. -/

namespace AskSql.Sql

open Text Numeric Idiom

variable {dialect : Dialect} {text front back rest : List Char}

/-! ### The grammar -/

/-- The operators that compare a column with a literal. -/
def comparators : List String := ["=", "!=", ">", "<", ">=", "<=", "LIKE"]

/-- A number, a string in quotes with the quotes inside it doubled, a truth value or `NULL`. -/
inductive IsLiteral : List Char → Prop
  | number {text : List Char} (h : SignedNumeral text) : IsLiteral text
  | string (content : List Char) : IsLiteral ('\'' :: doubled '\'' content ++ ['\''])
  | word {word : String} (h : word ∈ ["TRUE", "FALSE", "NULL"]) : IsLiteral word.toList

/-- Literals in parentheses, one or more. -/
inductive IsLiteralList : List Char → Prop
  | mk {texts : List (List Char)} (hne : texts ≠ []) (h : ∀ text ∈ texts, IsLiteral text) :
    IsLiteralList ('(' :: ([',', ' '].intercalate texts ++ [')']))

/-- What a condition says of its column. -/
inductive IsTest : List Char → Prop
  | compare {comparator : String} {text : List Char} (hcomparator : comparator ∈ comparators)
    (h : IsLiteral text) : IsTest (comparator.toList ++ ' ' :: text)
  | isIn {text : List Char} (h : IsLiteralList text) : IsTest ("IN ".toList ++ text)
  | notIn {text : List Char} (h : IsLiteralList text) : IsTest ("NOT IN ".toList ++ text)
  | isNull : IsTest "IS NULL".toList
  | isNotNull : IsTest "IS NOT NULL".toList

/-- A condition on a column. -/
inductive IsCondition (column : List Char) : List Char → Prop
  | test {text : List Char} (h : IsTest text) : IsCondition column (column ++ ' ' :: text)
  | not {text : List Char} (h : IsCondition column text) :
    IsCondition column ("NOT (".toList ++ (text ++ [')']))

/-! ### What can be written -/

/-- Whether a value is an array. -/
def isArray : Json → Bool
  | .arr _ => true
  | _ => false

/-- The items that a value stands for in a list: those of an array, or the value itself. -/
def listItems : Json → List Json
  | .arr items => items
  | value => [value]

/-- Whether an operator can take a value: a list needs items that are no arrays, and an array is no
operand of any other operator. -/
def fits : FilterOperator → Json → Bool
  | .isNull, _ | .isNotNull, _ => true
  | .isIn, value | .notIn, value =>
    !(listItems value).isEmpty && (listItems value).all (!isArray ·)
  | _, value => !isArray value

/-- Values in parentheses. -/
def listText (dialect : Dialect) (items : List Json) : List Char :=
  '(' :: ([',', ' '].intercalate ((literals dialect items).map String.toList) ++ [')'])

/-- `test` is what a filter with an operator and a value says of its column. -/
inductive Says (dialect : Dialect) : FilterOperator → Json → List Char → Prop
  | isNull {operator : FilterOperator} {value : Json}
    (h : operator = .isNull ∨ operator = .eq ∧ value = .null) :
    Says dialect operator value "IS NULL".toList
  | isNotNull {operator : FilterOperator} {value : Json}
    (h : operator = .isNotNull ∨ operator = .ne ∧ value = .null) :
    Says dialect operator value "IS NOT NULL".toList
  | list {operator : FilterOperator} (h : operator ∈ [.isIn, .notIn]) (value : Json) :
    Says dialect operator value
      (operator.keyword.toList ++ ' ' :: listText dialect (listItems value))
  | compare {operator : FilterOperator} (h : operator ∈ [.eq, .ne, .gt, .lt, .ge, .le, .like])
    (value : Json) :
    Says dialect operator value (operator.keyword.toList ++ ' ' :: (literal dialect value).toList)

theorem toList_parenthesized (texts : List String) :
    ("(" ++ ", ".intercalate texts ++ ")").toList =
      '(' :: ([',', ' '].intercalate (texts.map String.toList) ++ [')']) := by
  rw [String.toList_append, String.toList_append, String.toList_intercalate]
  rfl

theorem listText_singleton (dialect : Dialect) (value : Json) :
    listText dialect [value] = ("(" ++ literal dialect value ++ ")").toList := by
  rw [listText, literals, literals, ← toList_parenthesized, String.intercalate_singleton]

/-- Behind the column stands what the filter says of it. -/
theorem exists_says (dialect : Dialect) (operator : FilterOperator) (value : Json)
    (column : String) :
    ∃ test, Says dialect operator value test ∧
      (comparison dialect operator value column).toList = column.toList ++ ' ' :: test := by
  have hunary : ∀ text : String, (column ++ " " ++ text).toList =
      column.toList ++ ' ' :: text.toList := by
    intro text
    rw [String.toList_append, String.toList_append, List.append_assoc]
    rfl
  have hbinary : ∀ keyword text : String, (column ++ " " ++ keyword ++ " " ++ text).toList =
      column.toList ++ ' ' :: (keyword.toList ++ ' ' :: text.toList) := by
    intro keyword text
    rw [String.append_assoc, String.append_assoc, hunary, String.toList_append,
      String.toList_append]
    rfl
  have hlist : ∀ keyword text : String, (column ++ " " ++ keyword ++ " (" ++ text ++ ")").toList =
      column.toList ++ ' ' :: (keyword.toList ++ ' ' :: ("(" ++ text ++ ")").toList) := by
    intro keyword text
    have hparen : " (" = " " ++ "(" := by decide
    rw [← hbinary, hparen]
    simp only [String.append_assoc]
  have hnull : " IS NULL" = " " ++ "IS NULL" ∧ " IS NOT NULL" = " " ++ "IS NOT NULL" := by decide
  cases operator with
  | isNull => exact ⟨_, .isNull (Or.inl rfl), hunary "IS NULL"⟩
  | isNotNull => exact ⟨_, .isNotNull (Or.inl rfl), hunary "IS NOT NULL"⟩
  | eq =>
    cases value with
    | null =>
      refine ⟨_, .isNull (Or.inr ⟨rfl, rfl⟩), ?_⟩
      rw [← hunary, comparison, hnull.1, String.append_assoc]
    | _ => exact ⟨_, .compare (by decide) _, hbinary _ _⟩
  | ne =>
    cases value with
    | null =>
      refine ⟨_, .isNotNull (Or.inr ⟨rfl, rfl⟩), ?_⟩
      rw [← hunary, comparison, hnull.2, String.append_assoc]
    | _ => exact ⟨_, .compare (by decide) _, hbinary _ _⟩
  | gt | lt | ge | le | like => exact ⟨_, .compare (by decide) _, hbinary _ _⟩
  | isIn | notIn =>
    cases value with
    | arr items =>
      refine ⟨_, .list (by decide) (.arr items), ?_⟩
      rw [listText, ← toList_parenthesized]
      exact hlist _ _
    | _ =>
      refine ⟨_, .list (by decide) _, ?_⟩
      simp only [listItems, listText_singleton]
      exact hlist _ _

/-! ### Literals and arrays -/

/-- What a text has outside string literals, of which it begins in one if `inside`. -/
def unquoted (inside : Bool) : List Char → List Char
  | [] => []
  | c :: cs =>
    if c = '\'' then unquoted (!inside) cs
    else if inside then unquoted inside cs
    else c :: unquoted inside cs

theorem unquoted_append (inside : Bool) (front back : List Char) :
    unquoted inside (front ++ back) =
      unquoted inside front ++ unquoted (inside != insideLiteral front) back := by
  induction front generalizing inside with
  | nil => simp [unquoted, insideLiteral]
  | cons c front ih =>
    have hparity : (inside != insideLiteral (c :: front)) =
        ((inside != (c == '\'')) != insideLiteral front) := by
      rw [insideLiteral_cons]
      cases inside <;> cases c == '\'' <;> cases insideLiteral front <;> rfl
    rw [List.cons_append, unquoted, unquoted, hparity]
    by_cases hc : c = '\''
    · rw [if_pos hc, if_pos hc, ih, hc]
      cases inside <;> rfl
    · rw [if_neg hc, if_neg hc, beq_eq_false_iff_ne.2 hc, Bool.bne_false]
      cases inside with
      | true => exact ih true
      | false => exact congrArg (c :: ·) (ih false)

theorem unquoted_doubled (content : List Char) : unquoted true (doubled '\'' content) = [] := by
  induction content with
  | nil => rfl
  | cons c content ih =>
    have hstep : unquoted true (if c = '\'' then ['\'', '\''] else [c]) = [] := by
      split
      · rfl
      · rename_i hc
        rw [unquoted, if_neg hc]
        rfl
    have hparity : insideLiteral (if c = '\'' then ['\'', '\''] else [c]) = false := by
      split
      · decide
      · rename_i hc
        exact insideLiteral_of_not_mem fun d hd => by
          rw [List.mem_singleton.1 hd]
          exact beq_eq_false_iff_ne.2 hc
    rw [doubled] at ih
    rw [doubled, List.flatMap_cons, unquoted_append, hstep, hparity, List.nil_append]
    exact ih

/-- A text that ends outside string literals and has no parenthesis outside them. -/
structure Flat (text : List Char) : Prop where
  ends : insideLiteral text = false
  flat : '(' ∉ unquoted false text

theorem Flat.append (hf : Flat front) (hb : Flat back) : Flat (front ++ back) where
  ends := by rw [insideLiteral_append, hf.ends, hb.ends]; rfl
  flat := by
    rw [unquoted_append, hf.ends, List.mem_append, not_or]
    exact ⟨hf.flat, hb.flat⟩

theorem Flat.of_append (hf : Flat front) (h : Flat (front ++ back)) : Flat back where
  ends := by
    have hends := h.ends
    rw [insideLiteral_append, hf.ends] at hends
    simpa using hends
  flat := by
    have hflat := h.flat
    rw [unquoted_append, hf.ends, List.mem_append, not_or] at hflat
    exact hflat.2

theorem flat_of_forall (h : ∀ c ∈ text, c ≠ '\'' ∧ c ≠ '(') : Flat text := by
  induction text with
  | nil => exact ⟨rfl, by simp [unquoted]⟩
  | cons c text ih =>
    obtain ⟨⟨hquote, hparen⟩, htext⟩ := List.forall_mem_cons.1 h
    have hc : unquoted false [c] = [c] := by
      rw [unquoted, if_neg hquote]
      rfl
    have hfirst : Flat [c] :=
      ⟨insideLiteral_of_not_mem (by simpa using hquote), by simpa [hc] using hparen.symm⟩
    exact hfirst.append (ih htext)

theorem flat_quoted (content : List Char) : Flat ('\'' :: doubled '\'' content ++ ['\'']) where
  ends := by
    rw [List.cons_append, insideLiteral_cons, insideLiteral_append, insideLiteral_doubled]
    rfl
  flat := by
    have hnone : unquoted false ('\'' :: doubled '\'' content ++ ['\'']) =
        unquoted true (doubled '\'' content ++ ['\'']) := rfl
    rw [hnone, unquoted_append, unquoted_doubled, insideLiteral_doubled]
    decide

theorem IsLiteral.flat (h : IsLiteral text) : Flat text := by
  cases h with
  | number h =>
    refine flat_of_forall fun c hc => ?_
    have hnumeric := h.numberText.numeric c hc
    constructor <;> (rintro rfl; exact absurd hnumeric (by decide))
  | string content => exact flat_quoted content
  | word h =>
    have hall : ∀ word ∈ ["TRUE", "FALSE", "NULL"], ∀ c ∈ word.toList,
      c ≠ '\'' ∧ c ≠ '(' := by decide
    exact flat_of_forall (hall _ h)

theorem IsLiteral.ne_nil (h : IsLiteral text) : text ≠ [] := by
  cases h with
  | number h => exact h.numberText.ne_nil
  | string content => exact List.cons_ne_nil _ _
  | word h =>
    have hall : ∀ word ∈ ["TRUE", "FALSE", "NULL"], word.toList ≠ [] := by decide
    exact hall _ h

theorem flat_intercalate {texts : List (List Char)} (h : ∀ text ∈ texts, Flat text) :
    Flat ([',', ' '].intercalate texts) := by
  induction texts with
  | nil => exact ⟨rfl, by decide⟩
  | cons text texts ih =>
    obtain ⟨htext, htexts⟩ := List.forall_mem_cons.1 h
    cases texts with
    | nil => rwa [List.intercalate_singleton]
    | cons next texts =>
      rw [List.intercalate_cons_cons]
      exact (htext.append (flat_of_forall (by decide))).append (ih htexts)

theorem isLiteral_quoteLiteral (s : String) : IsLiteral (quoteLiteral s).toList := by
  rw [quoteLiteral, String.toList_ofList]
  exact .string s.toList

theorem isLiteral_boolLiteral (dialect : Dialect) (b : Bool) :
    IsLiteral (boolLiteral dialect b).toList := by
  have hbit : ∀ c ∈ ['0', '1'], IsLiteral [c] := fun c hc =>
    .number (.plain (.plain (.whole ⟨List.cons_ne_nil _ _, by
      have hall : ∀ c ∈ ['0', '1'], c.isDigit = true := by decide
      simpa using hall c hc⟩)))
  cases dialect with
  | sqlServer => cases b <;> exact hbit _ (by decide)
  | sqlite | mySql =>
    cases b with
    | true => exact @IsLiteral.word "TRUE" (by decide)
    | false => exact @IsLiteral.word "FALSE" (by decide)

/-- A value that is no array is a literal. -/
theorem isLiteral_literal (dialect : Dialect) {value : Json} (h : isArray value = false) :
    IsLiteral (literal dialect value).toList := by
  cases value with
  | null => exact @IsLiteral.word "NULL" (by decide)
  | bool b => exact isLiteral_boolLiteral dialect b
  | num n => exact .number n.signedNumeral
  | str s => exact isLiteral_quoteLiteral s
  | arr items => contradiction
  | obj fields => exact isLiteral_quoteLiteral _

/-- An array begins with a parenthesis. -/
theorem not_flat_array (dialect : Dialect) {value : Json} (h : isArray value = true)
    (rest : List Char) : ¬Flat ((literal dialect value).toList ++ rest) := by
  cases value with
  | arr items =>
    intro hflat
    refine hflat.flat ?_
    rw [literal, toList_parenthesized]
    exact List.mem_cons_self
  | _ => contradiction

/-- Only values that are no arrays make a flat text. -/
theorem all_of_flat (dialect : Dialect) {items : List Json}
    (h : Flat ([',', ' '].intercalate ((literals dialect items).map String.toList))) :
    ∀ item ∈ items, isArray item = false := by
  induction items with
  | nil => simp
  | cons item items ih =>
    rw [literals, List.map_cons] at h
    cases items with
    | nil =>
      rw [literals, List.map_nil, List.intercalate_singleton,
        ← List.append_nil (String.toList _)] at h
      simpa using fun harray => not_flat_array dialect harray [] h
    | cons next items =>
      rw [literals, List.map_cons, List.intercalate_cons_cons, List.append_assoc] at h
      have hitem : isArray item = false :=
        Bool.eq_false_iff.2 fun harray => not_flat_array dialect harray _ h
      have hlater := (flat_of_forall (by decide)).of_append
        ((isLiteral_literal dialect hitem).flat.of_append h)
      exact List.forall_mem_cons.2 ⟨hitem, ih hlater⟩

theorem isLiteral_of_mem_literals (dialect : Dialect) {items : List Json}
    (h : ∀ item ∈ items, isArray item = false) :
    ∀ text ∈ (literals dialect items).map String.toList, IsLiteral text := by
  induction items with
  | nil => simp [literals]
  | cons item items ih =>
    obtain ⟨hitem, hitems⟩ := List.forall_mem_cons.1 h
    rw [literals, List.map_cons]
    exact List.forall_mem_cons.2 ⟨isLiteral_literal dialect hitem, ih hitems⟩

/-- Values in parentheses are a list of literals if there are any and none of them is an array. -/
theorem isLiteralList_listText (dialect : Dialect) (items : List Json) :
    IsLiteralList (listText dialect items) ↔
      (!items.isEmpty && items.all (!isArray ·)) = true := by
  have hright : (!items.isEmpty && items.all (!isArray ·)) = true ↔
      items ≠ [] ∧ ∀ item ∈ items, isArray item = false := by simp
  rw [hright, listText]
  constructor
  · intro h
    generalize hwhole :
      '(' :: ([',', ' '].intercalate ((literals dialect items).map String.toList) ++
      [')']) = whole at h
    cases h with
    | @mk texts hne htexts =>
      have hinner := List.append_cancel_right (List.cons.inj hwhole).2
      refine ⟨?_, all_of_flat dialect ?_⟩
      · rintro rfl
        obtain ⟨text, texts, rfl⟩ := List.exists_cons_of_ne_nil hne
        refine (htexts text List.mem_cons_self).ne_nil ?_
        cases texts <;> simp_all [literals]
      · rw [hinner]
        exact flat_intercalate fun text htext => (htexts text htext).flat
  · rintro ⟨hne, hitems⟩
    obtain ⟨item, items, rfl⟩ := List.exists_cons_of_ne_nil hne
    exact .mk (by simp [literals]) (isLiteral_of_mem_literals dialect hitems)

/-! ### Filters -/

/-- What is said of a column and begins with a word. -/
theorem IsTest.word_cases {word : List Char} (h : IsTest (word ++ ' ' :: rest))
    (hword : ' ' ∉ word) :
    (word ∈ comparators.map String.toList ∧ IsLiteral rest) ∨
      (word = "IN".toList ∧ IsLiteralList rest) ∨
      (word = "NOT".toList ∧ ∃ list, rest = "IN ".toList ++ list ∧ IsLiteralList list) ∨
      word = "IS".toList := by
  generalize hwhole : word ++ ' ' :: rest = whole at h
  cases h with
  | compare hcomparator h =>
    have hall : ∀ comparator ∈ comparators, ' ' ∉ comparator.toList := by decide
    obtain ⟨rfl, rfl⟩ := split_inj hword (hall _ hcomparator) hwhole
    exact Or.inl ⟨List.mem_map_of_mem hcomparator, h⟩
  | @isIn list h =>
    obtain ⟨rfl, rfl⟩ := @split_inj _ "IN".toList _ _ list hword (by decide) hwhole
    exact Or.inr (Or.inl ⟨rfl, h⟩)
  | @notIn list h =>
    obtain ⟨rfl, rfl⟩ :=
      @split_inj _ "NOT".toList _ _ ("IN ".toList ++ list) hword (by decide) hwhole
    exact Or.inr (Or.inr (Or.inl ⟨rfl, list, rfl, h⟩))
  | isNull =>
    obtain ⟨rfl, -⟩ := @split_inj _ "IS".toList _ _ "NULL".toList hword (by decide) hwhole
    exact Or.inr (Or.inr (Or.inr rfl))
  | isNotNull =>
    obtain ⟨rfl, -⟩ := @split_inj _ "IS".toList _ _ "NOT NULL".toList hword (by decide) hwhole
    exact Or.inr (Or.inr (Or.inr rfl))

/-- A list is written as a test exactly if it is one of literals. -/
theorem isTest_list_iff {operator : FilterOperator} (h : operator ∈ [.isIn, .notIn])
    (list : List Char) : IsTest (operator.keyword.toList ++ ' ' :: list) ↔ IsLiteralList list := by
  have hnoword : "IN".toList ∉ comparators.map String.toList ∧
      "NOT".toList ∉ comparators.map String.toList := by decide
  rcases List.mem_cons.1 h with rfl | h
  · refine ⟨fun htest => ?_, .isIn⟩
    rcases htest.word_cases (by decide) with ⟨hmem, -⟩ | ⟨-, hlist⟩ | ⟨hnot, -⟩ | his
    · exact absurd hmem hnoword.1
    · exact hlist
    · exact absurd hnot (by decide)
    · exact absurd his (by decide)
  · obtain rfl := List.mem_singleton.1 h
    refine ⟨fun htest => ?_, .notIn⟩
    rcases @IsTest.word_cases ("IN ".toList ++ list) "NOT".toList htest (by decide) with
      ⟨hmem, -⟩ | ⟨hin, -⟩ | ⟨-, list', heq, hlist⟩ | his
    · exact absurd hmem hnoword.2
    · exact absurd hin (by decide)
    · rwa [List.append_cancel_left heq]
    · exact absurd his (by decide)

/-- A comparison is written as a test exactly if its operand is a literal. -/
theorem isTest_compare_iff {keyword : String} (h : keyword ∈ comparators) (operand : List Char) :
    IsTest (keyword.toList ++ ' ' :: operand) ↔ IsLiteral operand := by
  have hall : ∀ keyword ∈ comparators, ' ' ∉ keyword.toList ∧ keyword.toList ≠ "IN".toList ∧
      keyword.toList ≠ "NOT".toList ∧ keyword.toList ≠ "IS".toList := by decide
  obtain ⟨hblank, hin, hnot, his⟩ := hall keyword h
  refine ⟨fun htest => ?_, .compare h⟩
  rcases htest.word_cases hblank with ⟨-, hliteral⟩ | ⟨heq, -⟩ | ⟨heq, -⟩ | heq
  · exact hliteral
  · exact absurd heq hin
  · exact absurd heq hnot
  · exact absurd heq his

/-- A value is written as a literal exactly if it is no array. -/
theorem isLiteral_literal_iff (dialect : Dialect) (value : Json) :
    IsLiteral (literal dialect value).toList ↔ isArray value = false := by
  refine ⟨fun h => Bool.eq_false_iff.2 fun harray => not_flat_array dialect harray [] ?_,
    isLiteral_literal dialect⟩
  rw [List.append_nil]
  exact h.flat

/-- What a filter says of its column is a test exactly if its operator can take its value. -/
theorem Says.isTest_iff {operator : FilterOperator} {value : Json} {test : List Char}
    (h : Says dialect operator value test) : IsTest test ↔ fits operator value = true := by
  cases h with
  | isNull h =>
    refine iff_of_true .isNull ?_
    rcases h with rfl | ⟨rfl, rfl⟩ <;> rfl
  | isNotNull h =>
    refine iff_of_true .isNotNull ?_
    rcases h with rfl | ⟨rfl, rfl⟩ <;> rfl
  | list h value =>
    have hfits : fits operator value =
        (!(listItems value).isEmpty && (listItems value).all (!isArray ·)) := by
      rcases List.mem_cons.1 h with rfl | h
      · rfl
      · obtain rfl := List.mem_singleton.1 h
        rfl
    rw [isTest_list_iff h, isLiteralList_listText, hfits]
  | compare h value =>
    have hfits : operator.keyword ∈ comparators ∧ fits operator value = !isArray value := by
      revert h
      cases operator <;> simp [FilterOperator.keyword, comparators, fits]
    rw [isTest_compare_iff hfits.1, isLiteral_literal_iff, hfits.2, Bool.not_eq_true']

/-! ### Columns -/

/-- Behind the first part of a name is a dot, if anything. -/
theorem exists_escapeChars_eq (dialect : Dialect) (name : List Char) :
    ∃ part more, escapeChars dialect name = escapePart dialect part ++ more ∧
      ∀ c ∈ more.head?, c = '.' := by
  obtain ⟨part, parts, hparts⟩ := List.exists_cons_of_ne_nil (List.splitOn_ne_nil '.' name)
  rw [escapeChars, hparts, List.map_cons]
  cases parts with
  | nil => exact ⟨part, [], by simp, by simp⟩
  | cons next parts =>
    refine ⟨part, '.' :: ['.'].intercalate ((next :: parts).map (escapePart dialect)), ?_, by simp⟩
    rw [List.map_cons, List.intercalate_cons_cons, List.append_assoc]
    rfl

/-- A part stays if it is plain, and begins with a quote if it does not. -/
theorem escapePart_cases (dialect : Dialect) (part : List Char) :
    (∃ c ∈ (escapePart dialect part).head?, c ∈ ['[', '"', '`']) ∨
      (escapePart dialect part = part ∧ isPlainPart part = true ∧
      isReserved dialect part = false) := by
  rw [escapePart]
  split
  · rename_i hstays
    rw [Bool.or_eq_true, Bool.and_eq_true, Bool.not_eq_true'] at hstays
    rcases hstays with hquoted | hplain
    · left
      simpa [isQuotedPart, Option.any_eq_true, or_assoc] using hquoted
    · exact Or.inr ⟨rfl, hplain⟩
  · left
    cases dialect <;> exact ⟨_, rfl, by decide⟩

/-- No column begins like the negation of a condition. -/
theorem escapeChars_ne_not (dialect : Dialect) (name rest rest' : List Char) :
    escapeChars dialect name ++ ' ' :: rest ≠ "NOT (".toList ++ rest' := by
  intro heq
  obtain ⟨part, more, hname, hmore⟩ := exists_escapeChars_eq dialect name
  rw [hname, List.append_assoc] at heq
  rcases escapePart_cases dialect part with ⟨c, hc, hquote⟩ | ⟨hpart, hplain, hfree⟩
  · obtain ⟨cs, hcs⟩ := List.head?_eq_some_iff.1 hc
    rw [hcs] at heq
    rw [(List.cons.inj heq).1] at hquote
    exact absurd hquote (by decide)
  · -- the first part would be the word `NOT`, which is reserved
    rw [isPlainPart, Bool.and_eq_true, Bool.and_eq_true, List.all_eq_true] at hplain
    have hstop : ∀ c ∈ (more ++ ' ' :: rest).head?, (isAlphanumeric c || c == '_') = false := by
      intro c hc
      cases more with
      | nil =>
        obtain rfl : ' ' = c := Option.some.inj hc
        decide
      | cons d more =>
        obtain rfl : d = c := Option.some.inj hc
        rw [hmore d rfl]
        decide
    have htaken := takeWhile_append hplain.1.2 hstop
    have hnot : ("NOT".toList ++ (" (".toList ++ rest')).takeWhile
        (fun c => isAlphanumeric c || c == '_') = "NOT".toList :=
      takeWhile_append (by decide) (by rintro c ⟨⟩; decide)
    rw [hpart] at heq
    rw [heq] at htaken
    obtain rfl : "NOT".toList = part := hnot.symm.trans htaken
    revert hfree
    cases dialect <;> decide

/-- A filter is written as a condition exactly if its operator can take its value. -/
theorem isCondition_condition_iff (dialect : Dialect) (filter : Filter) (name : String) :
    IsCondition (escapeIdentifier dialect name).toList
        (condition dialect filter (escapeIdentifier dialect name)).toList ↔
      fits filter.operator filter.value = true := by
  obtain ⟨test, hsays, heq⟩ :=
    exists_says dialect filter.operator filter.value (escapeIdentifier dialect name)
  have hcolumn : ∀ rest rest' : List Char,
      (escapeIdentifier dialect name).toList ++ ' ' :: rest ≠ "NOT (".toList ++ rest' := by
    rw [escapeIdentifier, String.toList_ofList]
    exact escapeChars_ne_not dialect name.toList
  generalize hname : (escapeIdentifier dialect name).toList = column at heq hcolumn
  have htest : IsCondition column (column ++ ' ' :: test) ↔ IsTest test := by
    refine ⟨fun h => ?_, .test⟩
    generalize hwhole : column ++ ' ' :: test = whole at h
    cases h with
    | test h => rwa [(List.cons.inj (List.append_cancel_left hwhole)).2]
    | not h => exact absurd hwhole (hcolumn _ _)
  have hnot : IsCondition column ("NOT (".toList ++ (column ++ ' ' :: test ++ [')'])) ↔
      IsCondition column (column ++ ' ' :: test) := by
    refine ⟨fun h => ?_, .not⟩
    generalize hwhole : "NOT (".toList ++ (column ++ ' ' :: test ++ [')']) = whole at h
    cases h with
    | test h => exact absurd hwhole.symm (hcolumn _ _)
    | not h => rwa [List.append_cancel_right (List.append_cancel_left hwhole)]
  rw [← hsays.isTest_iff, ← htest, condition]
  cases filter.negate with
  | false =>
    rw [if_neg Bool.false_ne_true, heq]
  | true =>
    rw [if_pos rfl, String.toList_append, String.toList_append, List.append_assoc, heq]
    exact hnot

/-- An empty list is no condition. -/
example : condition .sqlite ⟨⟨"client", "city", none⟩, .isIn, .arr [], true⟩ "City" =
    "NOT (City IN ())" ∧
    fits .isIn (.arr []) = false := by
  decide

end AskSql.Sql
