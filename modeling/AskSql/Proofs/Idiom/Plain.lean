import Mathlib.Data.Option.Basic
import AskSql.Proofs.Sql.QuotedName

/-! Plain characters: those that neither open nor close anything and part nothing.  The small steps
of a scanner take plain characters only, and an interval is plain but for the one string literal
that it may have. -/

namespace AskSql.Idiom

open Text Sql

variable {text rest : List Char}

/-- A character that no scan over a call looks at. -/
def isPlain (c : Char) : Bool :=
  !isMark c && c != ']'

theorem isPlain_of_not_mem {p : Char → Bool}
    (hp : ∀ x ∈ ['\'', '"', '`', '[', '(', ')', ',', ']'], p x = false) {c : Char}
    (hc : p c = true) :
    isPlain c = true := by
  have hne : c ≠ ']' := ne_of_class hc (hp ']' (by simp))
  have hmark : isMark c = false :=
    isMark_of_not_mem (fun x hx => hp x (List.mem_append_left [']'] hx)) hc
  simp [isPlain, hmark, hne]

theorem isPlain_of_isBlank {c : Char} (h : isBlank c = true) : isPlain c = true :=
  isPlain_of_not_mem (by decide) h

theorem isPlain_of_isWordChar {c : Char} (h : isWordChar c = true) : isPlain c = true :=
  isPlain_of_not_mem (by decide) h

/-- Only a plain character folds to one. -/
theorem isPlain_of_fold {c : Char} (h : isPlain (fold c) = true) : isPlain c = true := by
  have hmarks : ∀ x ∈ ['\'', '"', '`', '[', '(', ')', ',', ']'], isPlain (fold x) = false := by
    decide
  exact isPlain_of_not_mem hmarks h

theorem ne_of_isPlain {c : Char} (h : isPlain c = true) : c ≠ '(' ∧ c ≠ ')' := by
  constructor <;> rintro rfl <;> contradiction

theorem isBare_of_isPlain {c : Char} (h : isPlain c = true) : isBare c = true :=
  isBare_of_not_mem (by decide) h

theorem plain_of_blank (h : blank text = true) : ∀ c ∈ text, isPlain c = true :=
  fun c hc => isPlain_of_isBlank (List.all_eq_true.1 h c hc)

theorem insideLiteral_of_plain (h : ∀ c ∈ text, isPlain c = true) : insideLiteral text = false := by
  refine insideLiteral_of_not_mem fun c hc => beq_eq_false_iff_ne.2 ?_
  rintro rfl
  exact absurd (h _ hc) (by decide)

theorem insideLiteral_of_blank (h : blank text = true) : insideLiteral text = false :=
  insideLiteral_of_plain (plain_of_blank h)

/-! ### Steps of a scanner -/

/-- `rest` is what is left of `text` behind plain characters. -/
def Follows (text rest : List Char) : Prop :=
  ∃ front, text = front ++ rest ∧ ∀ c ∈ front, isPlain c = true

theorem Follows.trans {last : List Char} (h : Follows text rest) (h' : Follows rest last) :
    Follows text last := by
  obtain ⟨front, rfl, hfront⟩ := h
  obtain ⟨more, rfl, hmore⟩ := h'
  exact ⟨front ++ more, by simp, List.forall_mem_append.2 ⟨hfront, hmore⟩⟩

theorem follows_trimStart (text : List Char) : Follows text (trimStart text) := by
  obtain ⟨gap, hgap, hblank⟩ := exists_trimStart text
  exact ⟨gap, hgap, plain_of_blank hblank⟩

theorem follows_blanks? (h : blanks? text = some rest) : Follows text rest := by
  obtain ⟨gap, rfl, -, hblank⟩ := blanks?_eq_some h
  exact ⟨gap, rfl, plain_of_blank hblank⟩

theorem follows_keywordChars? {key : List Char} (hkey : ∀ c ∈ key, isPlain c = true)
    (h : keywordChars? key text = some rest) : Follows text rest := by
  obtain ⟨token, rfl, rfl⟩ := keywordChars?_eq_some h
  exact ⟨token, rfl, fun c hc => isPlain_of_fold (hkey _ (List.mem_map_of_mem hc))⟩

theorem follows_word (text : List Char) : Follows text (word text).2 :=
  ⟨(word text).1, List.takeWhile_append_dropWhile.symm,
    fun _ hc => isPlain_of_isWordChar (List.mem_takeWhile_imp hc)⟩

theorem follows_run? {p : Char → Bool} {taken : List Char}
    (hp : ∀ c, p c = true → isPlain c = true) (h : run? p text = some (taken, rest)) :
    Follows text rest := by
  rw [run?] at h
  split at h
  · contradiction
  · obtain ⟨rfl, rfl⟩ := Prod.mk.inj (Option.some.inj h)
    exact ⟨_, List.takeWhile_append_dropWhile.symm, fun c hc => hp c (List.mem_takeWhile_imp hc)⟩

theorem follows_letters? {taken : List Char} (h : letters? text = some (taken, rest)) :
    Follows text rest :=
  follows_run? (fun _ hc => isPlain_of_isWordChar (isWordChar_of_foldsToLetter hc)) h

theorem follows_digits? {taken : List Char} (h : digits? text = some (taken, rest)) :
    Follows text rest :=
  follows_run? (fun _ => isPlain_of_not_mem (by decide +kernel)) h

theorem follows_signedDigits? {taken : List Char} (h : signedDigits? text = some (taken, rest)) :
    Follows text rest := by
  cases text with
  | nil => contradiction
  | cons c cs =>
    rw [signedDigits?] at h
    split at h
    · rename_i hsign
      obtain ⟨⟨digits, left⟩, hread, heq⟩ := Option.map_eq_some_iff.1 h
      obtain ⟨-, rfl⟩ := Prod.mk.inj heq
      have hc : isPlain c = true := by
        have hsign : c = '+' ∨ c = '-' := by simpa using hsign
        rcases hsign with rfl | rfl <;> decide
      exact Follows.trans ⟨[c], rfl, by simpa using hc⟩ (follows_digits? hread)
    · exact follows_digits? h

/-! ### Intervals -/

/-- Plain text in which one string literal may stand. -/
def HasOneLiteral (text : List Char) : Prop :=
  ∃ before content after, text = before ++ (content ++ after) ∧
    (∀ c ∈ before, isPlain c = true) ∧ (∀ c ∈ after, isPlain c = true) ∧
    (content = [] ∨ ∃ inner, content = quoted inner ∧ ∀ c ∈ inner, isPlain c = true)

theorem Follows.hasOneLiteral (h : Follows text rest) :
    ∃ front, text = front ++ rest ∧ HasOneLiteral front := by
  obtain ⟨front, rfl, hfront⟩ := h
  exact ⟨front, rfl, front, [], [], by simp, hfront, by simp, Or.inl rfl⟩

theorem HasOneLiteral.append_left {front : List Char} (h : HasOneLiteral text)
    (hfront : ∀ c ∈ front, isPlain c = true) : HasOneLiteral (front ++ text) := by
  obtain ⟨before, content, after, rfl, hbefore, hrest⟩ := h
  exact ⟨front ++ before, content, after,
    by simp, List.forall_mem_append.2 ⟨hfront, hbefore⟩, hrest⟩

/-- Quotes around plain characters, and plain characters behind them. -/
theorem hasOneLiteral_quoted {start last : List Char} (h : Follows start ('\'' :: rest))
    (h' : Follows rest last) : ∃ front, '\'' :: start = front ++ last ∧ HasOneLiteral front := by
  obtain ⟨inner, rfl, hinner⟩ := h
  obtain ⟨after, rfl, hafter⟩ := h'
  exact ⟨quoted inner ++ after, by simp [quoted], [], quoted inner, after, rfl, by simp, hafter,
    Or.inr ⟨inner, rfl, hinner⟩⟩

theorem hasOneLiteral_quotedAmount? {found : ScannedInterval}
    (h : quotedAmount? text = some found) :
    ∃ front, text = front ++ found.rest ∧ HasOneLiteral front := by
  simp only [quotedAmount?, Option.bind_eq_bind, Option.bind_eq_some_iff, Option.pure_def,
    Option.some.injEq] at h
  obtain ⟨start, hopen, ⟨amount, afterAmount⟩, hamount, afterQuote, hclose, ⟨unit, last⟩, hunit,
    rfl⟩ := h
  obtain rfl := char?_eq_some hopen
  refine hasOneLiteral_quoted ?_ ((follows_trimStart _).trans (follows_letters? hunit))
  rw [← char?_eq_some hclose]
  exact ((follows_trimStart _).trans (follows_signedDigits? hamount)).trans (follows_trimStart _)

theorem hasOneLiteral_quotedBoth? {found : ScannedInterval} (h : quotedBoth? text = some found) :
    ∃ front, text = front ++ found.rest ∧ HasOneLiteral front := by
  simp only [quotedBoth?, Option.bind_eq_bind, Option.bind_eq_some_iff, Option.pure_def,
    Option.some.injEq] at h
  obtain ⟨start, hopen, ⟨amount, afterAmount⟩, hamount, afterGap, hgap, ⟨unit, afterUnit⟩, hunit,
    last, hclose, rfl⟩ := h
  obtain rfl := char?_eq_some hopen
  have hend : Follows last last := ⟨[], rfl, by simp⟩
  refine hasOneLiteral_quoted ?_ hend
  rw [← char?_eq_some hclose]
  exact ((((follows_trimStart _).trans (follows_signedDigits? hamount)).trans
    (follows_blanks? hgap)).trans (follows_letters? hunit)).trans (follows_trimStart _)

theorem follows_unquoted? {found : ScannedInterval} (h : unquoted? text = some found) :
    Follows text found.rest := by
  simp only [unquoted?, Option.bind_eq_bind, Option.bind_eq_some_iff, Option.pure_def,
    Option.some.injEq] at h
  obtain ⟨⟨amount, afterAmount⟩, hamount, afterGap, hgap, ⟨unit, last⟩, hunit, rfl⟩ := h
  exact ((follows_signedDigits? hamount).trans (follows_blanks? hgap)).trans
    (follows_letters? hunit)

/-- An interval is its keyword, and plain text with at most one literal. -/
theorem exists_of_scanInterval? {found : ScannedInterval} (h : scanInterval? text = some found) :
    ∃ keyword body, text = keyword ++ (body ++ found.rest) ∧
      keyword.map fold = "interval".toList ∧ HasOneLiteral body := by
  simp only [scanInterval?, Option.bind_eq_bind, Option.bind_eq_some_iff,
    Option.orElse_eq_some] at h
  obtain ⟨afterWord, hkeyword, start, hblanks, hbody⟩ := h
  obtain ⟨keyword, rfl, hfold⟩ := keywordChars?_eq_some hkeyword
  obtain ⟨gap, rfl, hgap⟩ := follows_blanks? hblanks
  obtain ⟨body, rfl, hliteral⟩ : ∃ body, start = body ++ found.rest ∧ HasOneLiteral body := by
    rcases hbody with hbody | ⟨-, hbody | ⟨-, hbody⟩⟩
    · exact hasOneLiteral_quotedAmount? hbody
    · exact hasOneLiteral_quotedBoth? hbody
    · exact (follows_unquoted? hbody).hasOneLiteral
  exact ⟨keyword, gap ++ body, by simp, hfold, hliteral.append_left hgap⟩

/-- Behind the keyword an interval has no parenthesis, and its literal ends in it. -/
theorem HasOneLiteral.outside (h : HasOneLiteral text) :
    (∀ c ∈ text, c ≠ '(' ∧ c ≠ ')') ∧ insideLiteral text = false := by
  obtain ⟨before, content, after, rfl, hbefore, hafter, hcontent⟩ := h
  have hplain : ∀ {cs : List Char}, (∀ c ∈ cs, isPlain c = true) → ∀ c ∈ cs, c ≠ '(' ∧ c ≠ ')' :=
    fun h c hc => ne_of_isPlain (h c hc)
  have hliteral : (∀ c ∈ content, c ≠ '(' ∧ c ≠ ')') ∧ insideLiteral content = false := by
    rcases hcontent with rfl | ⟨inner, rfl, hinner⟩
    · exact ⟨by simp, rfl⟩
    · refine ⟨?_, ?_⟩
      · simp only [quoted, List.cons_append, List.forall_mem_cons, List.forall_mem_append]
        exact ⟨by decide, hplain hinner, by decide, by simp⟩
      · rw [quoted, List.cons_append, insideLiteral_cons, insideLiteral_append,
          insideLiteral_of_plain hinner]
        rfl
  refine ⟨List.forall_mem_append.2 ⟨hplain hbefore,
    List.forall_mem_append.2 ⟨hliteral.1, hplain hafter⟩⟩, ?_⟩
  rw [insideLiteral_append, insideLiteral_append, insideLiteral_of_plain hbefore, hliteral.2,
    insideLiteral_of_plain hafter]
  rfl

end AskSql.Idiom
