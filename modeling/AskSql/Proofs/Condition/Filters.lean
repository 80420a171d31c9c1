import Mathlib.Data.List.Chain
import AskSql.Proofs.Condition.Operands
import AskSql.Proofs.Sql.Values

/-! The filters of a query as conditions.  A filter compares the column of an attribute with
literals, and neither holds a connective outside parentheses, so a filter is an atom, or a NOT
before one.  This needs literals that end where they should, which a backslash before a quote
prevents in MySQL. -/

namespace AskSql

open Text Idiom Sql Numeric

variable {dialect : Dialect} {text front back : List Char}

/-! ### Numbers -/

namespace Numeric

/-- No minus stands right behind another. -/
def MinusesApart (text : List Char) : Prop :=
  text.IsChain fun a b => ¬(a = '-' ∧ b = '-')

theorem minusesApart_of_not_mem (h : '-' ∉ text) : MinusesApart text := by
  induction text with
  | nil => exact .nil
  | cons c text ih =>
    refine List.isChain_cons.2
      ⟨fun d _ hminus => h ?_, ih fun hmem => h (List.mem_cons_of_mem c hmem)⟩
    simp [hminus.1]

theorem MinusesApart.append (hfront : '-' ∉ front) (h : MinusesApart back) :
    MinusesApart (front ++ back) := by
  refine List.isChain_append.2 ⟨minusesApart_of_not_mem hfront, h, fun c hc d _ hminus => hfront ?_⟩
  rw [← hminus.1]
  exact List.mem_of_getLast? hc

theorem Digits.minus_not_mem (h : Digits text) : '-' ∉ text := fun hmem =>
  absurd (h.2 _ hmem) (by decide)

theorem Positional.minus_not_mem (h : Positional text) : '-' ∉ text := by
  cases h with
  | whole h => exact h.minus_not_mem
  | point hdigits hplaces =>
    rw [List.mem_append, List.mem_cons, not_or, not_or]
    exact ⟨hdigits.minus_not_mem, by decide, hplaces.minus_not_mem⟩

theorem head_ne_minus (h : '-' ∉ text) : ∀ c ∈ text.head?, c ≠ '-' :=
  fun _ hc heq => h (heq ▸ List.mem_of_mem_head? hc)

/-- A number without a sign has a minus at most before its exponent. -/
theorem Magnitude.minusesApart (h : Magnitude text) :
    MinusesApart text ∧ ∀ c ∈ text.head?, c ≠ '-' := by
  cases h with
  | plain h => exact ⟨minusesApart_of_not_mem h.minus_not_mem, head_ne_minus h.minus_not_mem⟩
  | @power front digits sign h _ hdigits =>
    -- the sign of the exponent has an `e` before it and a digit behind it
    have hpower : MinusesApart ('e' :: sign :: digits) :=
      List.isChain_cons.2 ⟨by simp, List.isChain_cons.2
        ⟨fun c hc hminus => head_ne_minus hdigits.minus_not_mem c hc hminus.2,
          minusesApart_of_not_mem hdigits.minus_not_mem⟩⟩
    refine ⟨.append h.minus_not_mem hpower, fun c hc => head_ne_minus h.minus_not_mem c ?_⟩
    obtain ⟨d, cs, rfl⟩ := List.exists_cons_of_ne_nil h.numberText.ne_nil
    exact hc

theorem SignedNumeral.minusesApart (h : SignedNumeral text) : MinusesApart text := by
  cases h with
  | plain h => exact h.minusesApart.1
  | negative h =>
    exact List.isChain_cons.2 ⟨fun c hc hminus => h.minusesApart.2 c hc hminus.2, h.minusesApart.1⟩

end Numeric

theorem JsonNumber.minusesApart (n : JsonNumber) : MinusesApart n.text.toList :=
  n.signedNumeral.minusesApart

namespace Sql

theorem fold_eq_of_isNumeric {c : Char} (h : isNumeric c = true) : fold c = c := by
  rcases isNumeric_iff.1 h with hdigit | hmem
  · exact fold_of_isDigit hdigit
  · have hall : ∀ d ∈ ['e', '.', '+', '-'], fold d = d := by decide
    exact hall c hmem

/-- A word with nothing but what a number has is no keyword. -/
theorem isInner_of_numeric (h : ∀ c ∈ text, isNumeric c = true) :
    (Token.word text).isInner = true := by
  have hkeys : ∀ key ∈ ["or", "and", "between"], (Token.word text).reads key = false := by
    intro key hkey
    by_contra hreads
    have hfold : text.map fold = key.toList := by simpa [Token.reads] using hreads
    have hall : ∀ key ∈ ["or", "and", "between"], ∃ c ∈ key.toList, isNumeric c = false := by decide
    obtain ⟨c, hc, hother⟩ := hall key hkey
    rw [← hfold] at hc
    obtain ⟨d, hd, rfl⟩ := List.mem_map.1 hc
    rw [fold_eq_of_isNumeric (h d hd), h d hd] at hother
    contradiction
  simp only [List.forall_mem_cons] at hkeys
  simp [Token.isInner, Token.isApart, hkeys]

theorem enter_numeric {c : Char} (h : isNumeric c = true) {before : Option Char}
    (hbefore : ¬(before = some '-' ∧ c = '-')) :
    Reader.enter dialect before c = ([], .word [c]) ∨
      Reader.enter dialect before c = ([.mark c], .code (some c)) := by
  rcases hname : isNamePart c with _ | _
  · have hall : ∀ d ∈ ['.', '+', '-'], closing? dialect d = none ∧ isBlank d = false ∧
        d ≠ '*' ∧ d ≠ '#' := by
      cases dialect <;> decide
    have hmem : c ∈ ['.', '+', '-'] := by
      rcases isNumeric_iff.1 h with hdigit | hmem
      · rw [isNamePart, isWordChar_of_isDigit hdigit, Bool.true_or] at hname
        contradiction
      · rcases List.mem_cons.1 hmem with rfl | hmem
        · exact absurd hname (by decide)
        · exact hmem
    obtain ⟨hclosing, hblank, hstar, hsharp⟩ := hall c hmem
    have hcomment : beginsComment dialect before c = false := by
      simp only [beginsComment, Bool.or_eq_false_iff, Bool.and_eq_false_iff, beq_eq_false_iff_ne]
      refine ⟨⟨?_, Or.inr hstar⟩, Or.inr hsharp⟩
      tauto
    right
    rw [Reader.enter, hname, hclosing, hcomment, hblank]
    rfl
  · left
    rw [Reader.enter, hname]
    rfl

/-- How a reader stands in a number: outside words and not behind a minus that `text` goes on with,
or in a word of the number. -/
inductive InNumber (text : List Char) : Reader → Prop
  | code {before : Option Char} (h : before = some '-' → ∀ c ∈ text.head?, c ≠ '-') :
      InNumber text (.code before)
  | word {word : List Char} (h : ∀ c ∈ word, isNumeric c = true) : InNumber text (.word word)

/-- A number is read as words and marks. -/
theorem InNumber.tokens? {reader : Reader} (hreader : InNumber text reader)
    (hnumeric : ∀ c ∈ text, isNumeric c = true) (hapart : MinusesApart text) :
    ∃ ts, reader.tokens? dialect text = some ts ∧ ∀ t ∈ ts, t.isInner = true := by
  have hmark : ∀ c, isNumeric c = true → (Token.mark c).isInner = true := by
    intro c hc
    have hopen : c ≠ '(' := by rintro rfl; exact absurd hc (by decide)
    have hclose : c ≠ ')' := by rintro rfl; exact absurd hc (by decide)
    simp [Token.isInner, Token.isApart, Token.reads, hopen, hclose]
  have hword : ∀ word : List Char, (∀ c ∈ word, isNumeric c = true) →
      (Token.word word.reverse).isInner = true := fun word h =>
    isInner_of_numeric fun c hc => h c (by simpa using hc)
  induction text generalizing reader with
  | nil =>
    cases hreader with
    | code => exact ⟨[], rfl, by simp⟩
    | @word w h => exact ⟨[.word w.reverse], rfl, by simpa using hword w h⟩
  | cons c text ih =>
    obtain ⟨hc, hnumeric⟩ := List.forall_mem_cons.1 hnumeric
    obtain ⟨hnext, hapart⟩ := List.isChain_cons.1 hapart
    have hlater : ∀ {reader : Reader}, InNumber text reader →
        ∃ ts, reader.tokens? dialect text = some ts ∧ ∀ t ∈ ts, t.isInner = true :=
      fun h => ih h hnumeric hapart
    -- What the character is where no word goes on.
    have hentered : ∀ before : Option Char, ¬(before = some '-' ∧ c = '-') →
        ∃ ts, (Reader.code before).tokens? dialect (c :: text) = some ts ∧
          ∀ t ∈ ts, t.isInner = true := by
      intro before hbefore
      rw [Reader.tokens?_cons, Reader.next]
      have hletter : InNumber text (.word [c]) := .word (by simpa using hc)
      have hsign : InNumber text (.code (some c)) := .code fun hminus d hd hboth =>
        hnext d hd ⟨Option.some.inj hminus, hboth⟩
      rcases @enter_numeric dialect c hc before hbefore with henter | henter
      · obtain ⟨ts, hts, hinner⟩ := hlater hletter
        exact ⟨ts, by rw [henter, hts]; rfl, hinner⟩
      · obtain ⟨ts, hts, hinner⟩ := hlater hsign
        refine ⟨.mark c :: ts, by rw [henter, hts]; rfl, ?_⟩
        simpa using ⟨hmark c hc, hinner⟩
    cases hreader with
    | @code before h => exact hentered before fun hminus => h hminus.1 c rfl hminus.2
    | @word w h =>
      rcases hname : isNamePart c with _ | _
      · obtain ⟨ts, hts, hinner⟩ := hentered none (by simp)
        refine ⟨.word w.reverse :: ts, ?_, by simpa using ⟨hword w h, hinner⟩⟩
        have hends : (Reader.word w).next dialect c = (.word w.reverse ::
            (Reader.enter dialect none c).1, (Reader.enter dialect none c).2) := by
          rw [Reader.next, if_neg (by simp [hname])]
        rw [Reader.tokens?_cons] at hts ⊢
        obtain ⟨more, hmore, rfl⟩ := Option.map_eq_some_iff.1 hts
        rw [hends, show (Reader.enter dialect none c).2.tokens? dialect text = some more from hmore]
        rfl
      · have hlonger : InNumber text (.word (c :: w)) := .word (by simpa using ⟨hc, h⟩)
        obtain ⟨ts, hts, hinner⟩ := hlater hlonger
        refine ⟨ts, ?_, hinner⟩
        rw [Reader.tokens?_cons, Reader.next, if_pos hname, hts]
        rfl

/-! ### Values -/

/-- A text that stands within an atom. -/
def Within (dialect : Dialect) (text : List Char) : Prop :=
  ∃ ts, tokens? dialect text = some ts ∧ Contained ts

theorem within_of_tokens? {ts : List Token} (h : tokens? dialect text = some ts)
    (hinner : ∀ t ∈ ts, t.isInner = true) : Within dialect text :=
  ⟨ts, h, contained_of_forall hinner⟩

/-- Texts within an atom with a blank or a comma between them. -/
theorem Within.append_cons {c : Char} (h : Within dialect front) (hback : Within dialect back)
    (hc : c = ' ' ∨ c = ',') : Within dialect (front ++ c :: back) := by
  obtain ⟨ts, hts, hcontained⟩ := h
  obtain ⟨us, hus, hcontained'⟩ := hback
  have hmark : isSeparatorMark c = true ∧ ∀ t ∈ markTokens c, t.isInner = true := by
    rcases hc with rfl | rfl <;> decide
  refine ⟨ts ++ (markTokens c ++ us), by rw [tokens?_append_cons hts hmark.1, hus]; rfl, ?_⟩
  exact hcontained.append ((contained_of_forall hmark.2).append hcontained')

theorem Within.parenthesized (h : Within dialect text) :
    Within dialect ('(' :: (text ++ [')'])) := by
  obtain ⟨ts, hts, hcontained⟩ := h
  exact ⟨_, tokens?_parenthesized hts, hcontained.parenthesized⟩

theorem within_nil : Within dialect [] :=
  ⟨[], rfl, contained_nil⟩

theorem within_intercalate {texts : List String} (h : ∀ text ∈ texts, Within dialect text.toList) :
    Within dialect (", ".intercalate texts).toList := by
  induction texts with
  | nil => exact within_nil
  | cons text texts ih =>
    obtain ⟨htext, htexts⟩ := List.forall_mem_cons.1 h
    cases texts with
    | nil => simpa using htext
    | cons next texts =>
      have hrest := Within.append_cons within_nil (ih htexts) (Or.inl rfl)
      have hlist := htext.append_cons hrest (Or.inr rfl)
      rw [String.intercalate_cons_cons, String.toList_append, String.toList_append]
      simpa using hlist

/-- A literal of a string has closed quotes, unless MySQL reads an escape in it. -/
theorem isQuotedText_quoteLiteral {s : String} (h : dialect = .mySql → '\\' ∉ s.toList) :
    isQuotedText dialect (quoteLiteral s).toList = true := by
  rw [quoteLiteral, String.toList_ofList]
  refine isQuotedText_doubled (by decide) (by cases dialect <;> decide) fun hescapes => ?_
  exact h hescapes.1

/-- Whether MySQL ends the literals of some strings where they should end. -/
def LiteralsClose (dialect : Dialect) (strings : List String) : Prop :=
  dialect = .mySql → ∀ s ∈ strings, isQuotedText dialect (quoteLiteral s).toList = true

theorem LiteralsClose.mono {strings more : List String} (h : LiteralsClose dialect more)
    (hsub : strings ⊆ more) : LiteralsClose dialect strings :=
  fun hdialect s hs => h hdialect s (hsub hs)

theorem within_quoteLiteral {s : String} (h : LiteralsClose dialect [s]) :
    Within dialect (quoteLiteral s).toList := by
  have hclosed : isQuotedText dialect (quoteLiteral s).toList = true := by
    by_cases hdialect : dialect = .mySql
    · exact h hdialect s (by simp)
    · exact isQuotedText_quoteLiteral fun hsame => absurd hsame hdialect
  obtain ⟨content, hcontent⟩ := tokens?_of_isQuotedText hclosed
  exact within_of_tokens? hcontent (by simp [Token.isInner, Token.isApart, Token.reads])

theorem within_word {word : String} {ts : List Token} (h : tokens? dialect word.toList = some ts)
    (hinner : ts.all (·.isInner) = true) : Within dialect word.toList :=
  within_of_tokens? h (List.all_eq_true.1 hinner)

theorem within_boolLiteral (b : Bool) : Within dialect (boolLiteral dialect b).toList := by
  cases dialect <;> cases b <;> exact within_word rfl (by decide)

theorem within_number (n : JsonNumber) : Within dialect n.text.toList := by
  have hstart : InNumber n.text.toList (.code none) := .code (by simp)
  obtain ⟨ts, hts, hinner⟩ := hstart.tokens? n.numberText.numeric n.minusesApart
  exact within_of_tokens? hts hinner

mutual

/-- A value stands within an atom. -/
theorem within_literal : ∀ value : Json, LiteralsClose dialect (literalStrings value) →
    Within dialect (literal dialect value).toList
  | .null, _ => by
    cases dialect <;> exact within_word rfl (by decide)
  | .bool b, _ => within_boolLiteral b
  | .num n, _ => within_number n
  | .str s, h => within_quoteLiteral h
  | .arr items, h => by
    rw [literal, String.toList_append, String.toList_append]
    exact (within_intercalate (within_literals items h)).parenthesized
  | .obj fields, h => within_quoteLiteral h

theorem within_literals : ∀ values : List Json, LiteralsClose dialect (literalsStrings values) →
    ∀ text ∈ literals dialect values, Within dialect text.toList
  | [], _ => by simp [literals]
  | value :: values, h => by
    rw [literals, List.forall_mem_cons]
    exact ⟨within_literal value (h.mono (by simp [literalsStrings])),
      within_literals values (h.mono (by simp [literalsStrings]))⟩

end

/-! ### Comparisons -/

theorem within_keyword (operator : FilterOperator) : Within dialect operator.keyword.toList := by
  cases operator <;> cases dialect <;> exact within_word rfl (by decide)

/-- A comparison is a column and a text within the same atom. -/
theorem comparison_within {operator : FilterOperator} {value : Json}
    (h : LiteralsClose dialect (if operator.isUnary then [] else literalStrings value))
    (column : String) :
    ∃ rest, (comparison dialect operator value column).toList = column.toList ++ ' ' :: rest ∧
      Within dialect rest := by
  have hnull := @within_keyword dialect .isNull
  have hnotNull := @within_keyword dialect .isNotNull
  have hoperator := @within_keyword dialect operator
  cases operator with
  | isNull => exact ⟨_, by simp [comparison], hnull⟩
  | isNotNull => exact ⟨_, by simp [comparison], hnotNull⟩
  | eq =>
    have hvalue := within_literal value h
    cases value with
    | null => exact ⟨_, by simp [comparison, FilterOperator.keyword], hnull⟩
    | _ => exact ⟨_, by simp [comparison], hoperator.append_cons hvalue (Or.inl rfl)⟩
  | ne =>
    have hvalue := within_literal value h
    cases value with
    | null => exact ⟨_, by simp [comparison, FilterOperator.keyword], hnotNull⟩
    | _ => exact ⟨_, by simp [comparison], hoperator.append_cons hvalue (Or.inl rfl)⟩
  | gt | lt | ge | le | like =>
    have hvalue := within_literal value h
    exact ⟨_, by cases value <;> simp [comparison], hoperator.append_cons hvalue (Or.inl rfl)⟩
  | isIn | notIn =>
    have hvalue := (within_literal value h).parenthesized
    cases value with
    | arr items =>
      have hlist := (within_intercalate (within_literals items h)).parenthesized
      exact ⟨_, by simp [comparison], hoperator.append_cons hlist (Or.inl rfl)⟩
    | _ => exact ⟨_, by simp [comparison], hoperator.append_cons hvalue (Or.inl rfl)⟩

/-- The condition that a filter sets, where `tokens` are those of its comparison. -/
def filterCondition (filter : Filter) (tokens : List Token) : Condition :=
  if filter.negate then .not (.atom tokens) else .atom tokens

/-- A filter on a column that begins an atom is that atom, or a NOT before it. -/
theorem joinable_condition {filter : Filter} {column : String}
    (hcolumn : Leads dialect column.toList)
    (hstrings : LiteralsClose dialect (filterStrings filter)) :
    ∃ ts, tokens? dialect (comparison dialect filter.operator filter.value column).toList =
      some ts ∧
      Joinable dialect (condition dialect filter column).toList (filterCondition filter ts) := by
  obtain ⟨rest, htext, us, hus, hrest⟩ := comparison_within hstrings column
  obtain ⟨first, more, hcolumn, hfirst, hcontained⟩ := hcolumn
  have htokens : tokens? dialect (comparison dialect filter.operator filter.value column).toList =
      some (first :: (more ++ us)) := by
    rw [htext, tokens?_append_cons hcolumn (by decide), hus]
    rfl
  have hcontained : Contained (first :: (more ++ us)) := hcontained.append hrest
  have hatom := parses_atom hfirst hcontained
  refine ⟨_, htokens, ?_⟩
  rw [condition, filterCondition]
  split
  · have hnot : tokens? dialect "NOT".toList = some [.word "NOT".toList] :=
      tokens?_word (by decide) (by decide)
    have hnext : ({} : Level).next (.word "NOT".toList) = some {} :=
      next_of_reads (show (Token.word "NOT".toList).reads "not" = true by decide) (by decide)
    have henclosed := (enclosed hatom.balanced).2
    have hcut : ∀ key ∈ ["or", "and"], cut? key {} (.word "NOT".toList ::
        .mark '(' :: (first :: (more ++ us) ++ [.mark ')'])) = none := by
      intro key hkey
      have hother : ∀ key ∈ ["or", "and"], (Token.word "NOT".toList).reads key = false := by decide
      rw [cut?, if_neg fun h => absurd h.2 (by rw [hother key hkey]; decide), hnext]
      simp only [henclosed key]
      rfl
    refine ⟨_, ?_, .not (split_not_iff.2 ⟨hcut "or" (by simp), hcut "and" (by simp),
      negated?_eq_some.2 ⟨_, rfl, by decide⟩⟩) hatom.parenthesized, hcut "or" (by simp)⟩
    have hsplit :
      ("NOT (" ++ comparison dialect filter.operator filter.value column ++ ")").toList =
        "NOT".toList ++ ' ' :: ('(' ::
          ((comparison dialect filter.operator filter.value column).toList ++ [')'])) := by simp
    rw [hsplit, tokens?_append_cons hnot (by decide), tokens?_parenthesized htokens]
    rfl
  · exact ⟨_, htokens, hatom, (hcontained.cut {} "or" (by simp))⟩

end Sql

end AskSql
