import AskSql.Proofs.Condition.Syntax
import AskSql.Sql.Statement

/-! Conditions joined as texts.  White space around a condition does not count.  A configured
condition is put in parentheses if it holds the word OR, in a literal or not, so it never has an OR
outside parentheses, and the conditions that AND stands between keep their structure. -/

namespace AskSql.Sql

open Text

variable {dialect : Dialect} {text : List Char} {c : Condition}

theorem condition?_eq_some : condition? dialect text = some c ↔
    ∃ ts, tokens? dialect text = some ts ∧ Parses ts c := by
  rw [condition?, Option.bind_eq_some_iff]
  constructor
  · rintro ⟨ts, hts, h⟩
    exact ⟨ts, hts, .of_conditionWithin h⟩
  · rintro ⟨ts, hts, h⟩
    exact ⟨ts, hts, h.conditionWithin_eq (Nat.le_refl _)⟩

/-! ### White space around a text -/

theorem ne_of_isBlank {c d : Char} (h : isBlank c = true) (hd : isBlank d = false) : c ≠ d := by
  rintro rfl
  rw [h] at hd
  contradiction

theorem isNamePart_of_isBlank {c : Char} (h : isBlank c = true) : isNamePart c = false := by
  rw [isNamePart, isWordChar_of_isBlank h, Bool.false_or]
  cases halpha : isAlphanumeric c with
  | false => rfl
  | true =>
    have hplain : Idiom.isPlainChar c = true := by rw [Idiom.isPlainChar, halpha, Bool.true_or]
    rw [Idiom.isBlank_of_isPlainChar hplain] at h
    contradiction

/-- White space is no token and begins none. -/
theorem enter_blank {c : Char} (h : isBlank c = true) (before : Option Char) :
    Reader.enter dialect before c = ([], .code none) := by
  have hclosing : closing? dialect c = none := by
    simp [closing?, ne_of_isBlank h (show isBlank '\'' = false from rfl),
      ne_of_isBlank h (show isBlank '"' = false from rfl),
      ne_of_isBlank h (show isBlank '`' = false from rfl),
      ne_of_isBlank h (show isBlank '[' = false from rfl)]
  have hcomment : beginsComment dialect before c = false := by
    simp [beginsComment, ne_of_isBlank h (show isBlank '-' = false from rfl),
      ne_of_isBlank h (show isBlank '*' = false from rfl),
      ne_of_isBlank h (show isBlank '#' = false from rfl)]
  rw [Reader.enter, isNamePart_of_isBlank h, hclosing, hcomment, h]
  rfl

theorem tokens?_blank_append {gap : List Char} (h : blank gap = true) (text : List Char) :
    tokens? dialect (gap ++ text) = tokens? dialect text := by
  induction gap with
  | nil => rfl
  | cons c gap ih =>
    rw [blank, List.all_cons, Bool.and_eq_true] at h
    rw [List.cons_append, tokens?, Reader.tokens?_cons, Reader.next, enter_blank h.1, ← tokens?,
      ih h.2]
    simp

/-- White space ends what comes before it, and closes no quotes. -/
theorem Reader.Behind.tokens?_blank {reader : Reader} {front gap : List Char}
    (hbehind : Behind front reader) (h : blank gap = true) :
    reader.tokens? dialect gap = reader.rest? := by
  have hlast : ∀ {gap : List Char}, blank gap = true →
      (Reader.code none).tokens? dialect gap = some [] := fun {gap} h => by
    have hempty := @tokens?_blank_append dialect gap h []
    rwa [List.append_nil] at hempty
  induction gap generalizing reader front with
  | nil => simp [Reader.tokens?]
  | cons c gap ih =>
    rw [blank, List.all_cons, Bool.and_eq_true] at h
    have hclose : ∀ close ∈ ['\'', '"', '`', ']'], c ≠ close := by
      have hall : ∀ d ∈ ['\'', '"', '`', ']'], isBlank d = false := by decide
      exact fun close hmem => ne_of_isBlank h.1 (hall close hmem)
    have hlater := ih (@Reader.Behind.next dialect _ _ hbehind c) h.2
    rw [Reader.tokens?_cons]
    cases reader with
    | code before => rw [Reader.next, enter_blank h.1, hlast h.2]; rfl
    | word text =>
      rw [Reader.next, if_neg (by simp [isNamePart_of_isBlank h.1]), enter_blank h.1, hlast h.2]
      rfl
    | shut close text =>
      rw [Reader.next, if_neg (hclose close hbehind.1), enter_blank h.1, hlast h.2]
      rfl
    | quoted close text =>
      have hback : c ≠ '\\' := ne_of_isBlank h.1 (by decide)
      have hnext : (Reader.quoted close text).next dialect c = ([], .quoted close (c :: text)) := by
        rw [Reader.next, if_neg (hclose close hbehind), if_neg fun h => hback h.1]
      rw [hnext] at hlater ⊢
      rw [hlater]
      rfl
    | escaped close text => rw [hlater]; rfl
    | comment => rw [hlater]; rfl

/-- White space around a text does not change its tokens. -/
theorem tokens?_trim (dialect : Dialect) (text : List Char) :
    tokens? dialect (trim text) = tokens? dialect text := by
  obtain ⟨gap, htext, hgap⟩ := exists_trimStart text
  obtain ⟨gap', hstart, hgap'⟩ := exists_trimEnd (trimStart text)
  have hback : tokens? dialect (trimStart text) = tokens? dialect (trimEnd (trimStart text)) := by
    conv_lhs => rw [hstart]
    rw [tokens?, Reader.tokens?_append, (Reader.behind_start _).tokens?_blank hgap']
    rfl
  rw [trim, ← hback]
  conv_rhs => rw [htext]
  rw [tokens?_blank_append hgap]

theorem condition?_trim (dialect : Dialect) (text : List Char) :
    condition? dialect (trim text) = condition? dialect text := by
  rw [condition?, condition?, tokens?_trim]

/-! ### Conditions side by side -/

/-- A text that reads as a condition without an OR outside parentheses. -/
def Joinable (dialect : Dialect) (text : List Char) (c : Condition) : Prop :=
  ∃ ts, tokens? dialect text = some ts ∧ Parses ts c ∧ cut? "or" {} ts = none

theorem Joinable.condition? (h : Joinable dialect text c) : condition? dialect text = some c := by
  obtain ⟨ts, hts, hparses, -⟩ := h
  exact condition?_eq_some.2 ⟨ts, hts, hparses⟩

theorem cut?_eq_none {key : String} {level : Level} {ts : List Token}
    (h : ∀ t ∈ ts, t.reads key = false) : cut? key level ts = none := by
  induction ts generalizing level with
  | nil => rfl
  | cons t ts ih =>
    obtain ⟨ht, hts⟩ := List.forall_mem_cons.1 h
    rw [cut?, if_neg (by simp [ht])]
    cases level.next t with
    | none => rfl
    | some middle => simp [ih hts]

/-- A text in parentheses has the tokens of the text between two marks. -/
theorem tokens?_parenthesized {ts : List Token} (h : tokens? dialect text = some ts) :
    tokens? dialect ('(' :: (text ++ [')'])) = some (.mark '(' :: (ts ++ [.mark ')'])) := by
  rw [tokens?_cons (by decide), tokens?_append_cons h (by decide), tokens?_nil]
  rfl

/-- A configured condition can be joined with others as it stands in a statement. -/
theorem joinable_guarded (h : condition? dialect text = some c) :
    Joinable dialect (guarded text).toList c := by
  obtain ⟨ts, hts, hparses⟩ := condition?_eq_some.1 h
  rw [guarded]
  split
  · refine ⟨.mark '(' :: (ts ++ [.mark ')']), ?_, hparses.parenthesized,
      (enclosed hparses.balanced).2 "or"⟩
    simpa using tokens?_parenthesized hts
  · rename_i hword
    refine ⟨ts, by simpa using hts, hparses, cut?_eq_none fun t ht => ?_⟩
    cases t with
    | word w =>
      have hne : w.map fold ≠ "or".toList :=
        not_mem_of_hasWord (by decide) (by decide) hts (by simpa using hword) ht
      simpa [Token.reads] using hne
    | quoted | mark => rfl

/-- AND between two conditions makes their conjunction. -/
theorem Joinable.join {front back : List Char} {d : Condition} (h : Joinable dialect front c)
    (hback : Joinable dialect back d) :
    ∃ e, Joinable dialect (front ++ (" AND ".toList ++ back)) e ∧
      e.conjuncts = c.conjuncts ++ d.conjuncts := by
  obtain ⟨ts, hts, hparses, hor⟩ := h
  obtain ⟨us, hus, hparses', hor'⟩ := hback
  have hand : tokens? dialect "AND".toList = some [.word "AND".toList] :=
    tokens?_word (by decide) (by decide)
  have hkey : (Token.word "AND".toList).reads "and" = true := by decide
  have htokens : tokens? dialect (front ++ (" AND ".toList ++ back)) =
      some (ts ++ .word "AND".toList :: us) := by
    have hsplit : front ++ (" AND ".toList ++ back) =
        front ++ ' ' :: ("AND".toList ++ ' ' :: back) :=
      rfl
    rw [hsplit, tokens?_append_cons hts (by decide), tokens?_append_cons hand (by decide), hus]
    rfl
  obtain ⟨e, he, hconjuncts⟩ := hparses.join hor hkey hparses' hor'
  exact ⟨e, ⟨_, htokens, he, cut?_or_join hor hparses.balanced hkey hor'⟩, hconjuncts⟩

/-- The conditions of a statement are read as the conjunction of each of them. -/
theorem joinable_intercalate {texts : List String} {cs : List Condition}
    (h : List.Forall₂ (fun text c => Joinable dialect text.toList c) texts cs) (hne : texts ≠ []) :
    ∃ c, Joinable dialect (" AND ".intercalate texts).toList c ∧
      c.conjuncts = cs.flatMap Condition.conjuncts := by
  induction h with
  | nil => contradiction
  | @cons text c texts cs hc htexts ih =>
    cases htexts with
    | nil => exact ⟨c, by simpa using hc, by simp⟩
    | @cons next d texts cs hd htexts =>
      obtain ⟨e, he, hrest⟩ := ih (by simp)
      obtain ⟨whole, hwhole, hconjuncts⟩ := hc.join he
      refine ⟨whole, ?_, by rw [hconjuncts, hrest]; rfl⟩
      rw [String.intercalate_cons_cons, String.toList_append, String.toList_append,
        List.append_assoc]
      exact hwhole

end AskSql.Sql
