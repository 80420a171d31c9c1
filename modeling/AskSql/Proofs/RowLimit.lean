import Mathlib.Data.List.TakeWhile
import AskSql.RowLimit
import AskSql.Proofs.Text.Words

/-! Where the row limit of a statement goes: from the front to the end for `LIMIT`, from the end to
the front for `TOP`, and nowhere if there is none to move. -/

namespace AskSql.RowLimit

open Text

variable {sql body rest n : List Char}

/-- A text that does not begin with `SELECT` keeps its limit at the end. -/
theorem toLimit_of_select (h : select? sql = none) : toLimit sql = sql := by
  simp [toLimit, h]

/-- A text that does not end with a limit has none to move to the front. -/
theorem toTop_of_trailingLimit (h : trailingLimit? sql = none) : toTop sql = sql := by
  simp [toTop, h]

/-- A text of one word is no statement. -/
theorem select?_of_forall (h : ∀ c ∈ sql, isBlank c = false) : select? sql = none := by
  simp only [select?, Option.bind_eq_bind]
  cases hk : keyword? "select" (trimStart sql) with
  | none => rfl
  | some rest =>
    have hsuffix : rest <:+ sql := (keywordChars?_suffix hk).trans (List.dropWhile_suffix _)
    have hblanks : blanks? rest = none :=
      blanks?_of_head fun c hc => h c (hsuffix.mem (List.mem_of_head? hc))
    simp only [Option.bind_some, hblanks, Option.bind_none]

/-- The limit at the end of a text that ends with neither white space nor a semicolon. -/
theorem trailingLimit?_eq (h : ∃ c ∈ sql.getLast?, isBlank c = false ∧ c ≠ ';') :
    trailingLimit? sql = (digits? sql.reverse).bind fun found =>
      (blanks? found.2).bind fun ending =>
        (keywordChars? "limit".toList.reverse ending).bind fun ending =>
          (blanks? ending).map fun body => (body.reverse, found.1.reverse) := by
  obtain ⟨c, hc, hblank, hsemicolon⟩ := h
  have hhead : sql.reverse.head? = some c := by simpa using hc
  have hstart : trimStart sql.reverse = sql.reverse := trimStart_of_head ⟨c, hhead, hblank⟩
  have hchar : char? ';' sql.reverse = none :=
    char?_eq_none (by rw [hhead]; simpa using hsemicolon)
  simp only [trailingLimit?, hstart, hchar, Option.getD_none, Option.bind_eq_bind,
    Option.map_eq_bind]
  rfl

theorem digits?_eq_none {c : Char} {cs : List Char} (h : isDecimalDigit c = false) :
    digits? (c :: cs) = none := by
  simp [digits?, run?, h]

/-- A text that ends with neither a digit nor a semicolon ends with no limit. -/
theorem trailingLimit?_of_last
    (h : ∃ c ∈ sql.getLast?, isBlank c = false ∧ c ≠ ';' ∧ isDecimalDigit c = false) :
    trailingLimit? sql = none := by
  obtain ⟨c, hc, hblank, hsemicolon, hdigit⟩ := h
  obtain ⟨cs, hcs⟩ : ∃ cs, sql.reverse = c :: cs := List.head?_eq_some_iff.1 (by simpa using hc)
  rw [trailingLimit?_eq ⟨c, hc, hblank, hsemicolon⟩, hcs, digits?_eq_none hdigit, Option.bind_none]

/-- A text whose last word is no number ends with no limit. -/
theorem trailingLimit?_of_token {front token : List Char}
    (h : ∀ c ∈ token, isBlank c = false ∧ c ≠ ';')
    (hdigit : ∃ c ∈ token, isDecimalDigit c = false) :
    trailingLimit? (front ++ token) = none := by
  obtain ⟨d, ds, hds⟩ : ∃ d ds, token.reverse.dropWhile isDecimalDigit = d :: ds := by
    apply List.exists_cons_of_ne_nil
    simpa [List.dropWhile_eq_nil_iff] using hdigit
  have hd : isBlank d = false := by
    refine (h d ?_).1
    simpa using (List.dropWhile_suffix (l := token.reverse) isDecimalDigit).mem (by rw [hds]; simp)
  have hlast : ∃ c ∈ (front ++ token).getLast?, isBlank c = false ∧ c ≠ ';' := by
    obtain ⟨c, hc, -⟩ := hdigit
    have hne := List.ne_nil_of_mem hc
    exact ⟨token.getLast hne, by simp [List.getLast?_append, List.getLast?_eq_some_getLast hne],
      h _ (List.getLast_mem hne)⟩
  have hdrop : (token.reverse ++ front.reverse).dropWhile isDecimalDigit =
      d :: (ds ++ front.reverse) := by
    rw [List.dropWhile_append, hds]
    rfl
  rw [trailingLimit?_eq hlast, List.reverse_append, digits?, run?, hdrop]
  split
  · rfl
  · rw [Option.bind_some, blanks?_of_head (by simpa using hd), Option.bind_none]

/-- A word ends with no limit. -/
theorem trailingLimit?_of_forall (h : ∀ c ∈ sql, isBlank c = false ∧ c ≠ ';') :
    trailingLimit? sql = none := by
  by_cases hdigit : ∃ c ∈ sql, isDecimalDigit c = false
  · exact @trailingLimit?_of_token [] _ h hdigit
  · have hall : ∀ c ∈ sql.reverse, isDecimalDigit c = true := by simpa using hdigit
    cases hsql : sql.getLast? with
    | none =>
      obtain rfl := List.getLast?_eq_none_iff.1 hsql
      rfl
    | some c =>
      have hnone : sql.reverse.dropWhile isDecimalDigit = [] := List.dropWhile_eq_nil_iff.2 hall
      rw [trailingLimit?_eq ⟨c, hsql, h c (List.mem_of_getLast? hsql)⟩, digits?, run?, hnone]
      split <;> rfl

/-! ### Limits that move -/

theorem select?_append (h : ∃ c ∈ rest.head?, isBlank c = false) :
    select? ("SELECT ".toList ++ rest) = some ("SELECT ".toList, rest) := by
  have hkeyword : keyword? "select" ("SELECT".toList ++ ([' '] ++ rest)) = some ([' '] ++ rest) :=
    keyword?_append (by rfl) _
  have hblanks : blanks? ([' '] ++ rest) = some rest := by
    rw [blanks?_append (by simp) rfl, trimStart_of_head h]
  have htrim : trimStart ("SELECT ".toList ++ rest) = "SELECT".toList ++ ([' '] ++ rest) := by
    rw [trimStart_of_head ⟨'S', by simp, by decide⟩]
    simp
  have hlength : ("SELECT ".toList ++ rest).length - rest.length = "SELECT ".toList.length := by
    rw [List.length_append, Nat.add_sub_cancel]
  simp only [select?, htrim, hkeyword, hblanks, Option.bind_eq_bind, Option.bind_some, hlength,
    List.take_left, Option.pure_def]

theorem distinct_of_keyword (h : keyword? "distinct" rest = none) : distinct rest = ([], rest) := by
  rw [distinct, h]
  rfl

/-- Digits are taken whole off the front of a text. -/
theorem digits?_append (hne : n ≠ []) (hdigits : ∀ c ∈ n, isDecimalDigit c = true)
    (hr : ∀ c ∈ rest.head?, isDecimalDigit c = false) : digits? (n ++ rest) = some (n, rest) :=
  run?_append hne hdigits hr

theorem head_of_digits (hne : n ≠ []) (hdigits : ∀ c ∈ n, isDecimalDigit c = true)
    (rest : List Char) :
    ∃ c ∈ (n ++ rest).head?, isDecimalDigit c = true := by
  obtain ⟨c, n, rfl⟩ := List.exists_cons_of_ne_nil hne
  exact ⟨c, by simp, hdigits c (by simp)⟩

theorem isBlank_of_isDecimalDigit {c : Char} (h : isDecimalDigit c = true) : isBlank c = false := by
  cases hb : isBlank c with
  | false => rfl
  | true => simp [isDecimalDigit_of_isBlank hb] at h

/-- A limit behind `SELECT` moves to the end. -/
theorem toLimit_top_of_ink (hne : n ≠ []) (hdigits : ∀ c ∈ n, isDecimalDigit c = true)
    (hstart : ∃ c ∈ body.head?, isBlank c = false ∧ c ≠ ')')
    (hlast : ∃ c ∈ body.getLast?, isBlank c = false ∧ c ≠ ';') :
    toLimit ("SELECT ".toList ++ ("TOP ".toList ++ (n ++ ([' '] ++ body)))) =
      "SELECT ".toList ++ (body ++ (" LIMIT ".toList ++ n)) := by
  obtain ⟨c, hc, hblank, hparenthesis⟩ := hstart
  obtain ⟨d, hd, hdblank, hsemicolon⟩ := hlast
  obtain ⟨e, he, hdigit⟩ := head_of_digits hne hdigits ([' '] ++ body)
  have hselect := @select?_append ("TOP ".toList ++ (n ++ ([' '] ++ body)))
    ⟨'T', by simp, by decide⟩
  have hdistinct := @distinct_of_keyword ("TOP ".toList ++ (n ++ ([' '] ++ body))) rfl
  have htop : keyword? "top" ("TOP ".toList ++ (n ++ ([' '] ++ body))) =
      some ([' '] ++ (n ++ ([' '] ++ body))) :=
    @keyword?_append "TOP".toList _ rfl _
  have hnumber : trimStart ([' '] ++ (n ++ ([' '] ++ body))) = n ++ ([' '] ++ body) := by
    rw [trimStart_append rfl, trimStart_of_head ⟨e, he, isBlank_of_isDecimalDigit hdigit⟩]
  have hparen : char? '(' (n ++ ([' '] ++ body)) = none := by
    refine char?_eq_none fun h => ?_
    obtain rfl : e = '(' := Option.some.inj (he.symm.trans h)
    exact absurd hdigit (by decide)
  have hstartBody : trimStart body = body := trimStart_of_head ⟨c, hc, hblank⟩
  have hafter : afterTop? ([' '] ++ body) = some body := by
    have hclose : char? ')' body = none :=
      char?_eq_none fun h => hparenthesis (Option.some.inj (hc.symm.trans h))
    rw [afterTop?, trimStart_append rfl, hstartBody, hclose, blanks?_append (by simp) rfl,
      hstartBody]
    rfl
  have hend : char? ';' body.reverse = none :=
    char?_eq_none (by simpa [Option.mem_def.1 hd] using hsemicolon)
  have hdigitsEq := @digits?_append ([' '] ++ body) _ hne hdigits
    (by simpa using (by decide : isDecimalDigit ' ' = false))
  have htrim : trimStart (n ++ ([' '] ++ body)) = n ++ ([' '] ++ body) :=
    trimStart_of_head ⟨e, he, isBlank_of_isDecimalDigit hdigit⟩
  simp only [toLimit, hselect, hdistinct, htop, hnumber, hparen, Option.getD_none, htrim, hdigitsEq,
    hafter, trimEnd_of_last ⟨d, hd, hdblank⟩, hend, Option.bind_eq_bind, Option.bind_some,
    Option.pure_def, Option.getD_some, List.append_nil, List.append_assoc, List.nil_append]

/-- A limit before a word moves to the end. -/
theorem toLimit_top (hne : n ≠ []) (hdigits : ∀ c ∈ n, isDecimalDigit c = true)
    (hstart : ∃ c ∈ body.head?, isWordChar c = true)
    (hlast : ∃ c ∈ body.getLast?, isBlank c = false ∧ c ≠ ';') :
    toLimit ("SELECT ".toList ++ ("TOP ".toList ++ (n ++ ([' '] ++ body)))) =
      "SELECT ".toList ++ (body ++ (" LIMIT ".toList ++ n)) := by
  obtain ⟨c, hc, hword⟩ := hstart
  refine toLimit_top_of_ink hne hdigits ⟨c, hc, isBlank_of_isWordChar hword, ?_⟩ hlast
  rintro rfl
  exact absurd hword (by decide)

/-- A statement without a limit behind its `SELECT` has none to move to the end. -/
theorem toLimit_of_notTop (hstart : ∃ c ∈ body.head?, isBlank c = false)
    (hdistinct : keyword? "distinct" body = none) (htop : keyword? "top" body = none) :
    toLimit ("SELECT ".toList ++ body) = "SELECT ".toList ++ body := by
  simp only [toLimit, select?_append hstart, distinct_of_keyword hdistinct, htop,
    Option.bind_eq_bind, Option.bind_some, Option.bind_none, Option.getD_none]

theorem trailingLimit?_append (hne : n ≠ []) (hdigits : ∀ c ∈ n, isDecimalDigit c = true)
    (hlast : ∃ c ∈ body.getLast?, isBlank c = false) :
    trailingLimit? (body ++ (" LIMIT ".toList ++ n)) = some (body, n) := by
  have hrev : (body ++ (" LIMIT ".toList ++ n)).reverse =
      n.reverse ++ ([' '] ++ ("LIMIT".toList.reverse ++ ([' '] ++ body.reverse))) := by
    simp
  have hneRev : n.reverse ≠ [] := by simpa using hne
  have hdigitsRev : ∀ c ∈ n.reverse, isDecimalDigit c = true := by simpa using hdigits
  obtain ⟨e, he, hdigit⟩ := head_of_digits hneRev hdigitsRev
    ([' '] ++ ("LIMIT".toList.reverse ++ ([' '] ++ body.reverse)))
  have htrim := trimStart_of_head ⟨e, he, isBlank_of_isDecimalDigit hdigit⟩
  have hchar :
      char? ';' (n.reverse ++ ([' '] ++ ("LIMIT".toList.reverse ++ ([' '] ++ body.reverse)))) =
      none := by
    refine char?_eq_none fun h => ?_
    obtain rfl : e = ';' := Option.some.inj (he.symm.trans h)
    exact absurd hdigit (by decide)
  have hdigitsEq := @digits?_append ([' '] ++ ("LIMIT".toList.reverse ++ ([' '] ++ body.reverse))) _
    hneRev hdigitsRev (by simpa using (by decide : isDecimalDigit ' ' = false))
  have hkeyword : keywordChars? "limit".toList.reverse
      ("LIMIT".toList.reverse ++ ([' '] ++ body.reverse)) = some ([' '] ++ body.reverse) :=
    keywordChars?_append "LIMIT".toList.reverse _
  have hgap : trimStart ("LIMIT".toList.reverse ++ ([' '] ++ body.reverse)) =
      "LIMIT".toList.reverse ++ ([' '] ++ body.reverse) :=
    trimStart_of_head ⟨'T', by simp, by decide⟩
  have hbody : trimStart body.reverse = body.reverse := trimStart_of_head (by simpa using hlast)
  simp only [trailingLimit?, hrev, htrim, hchar, Option.getD_none, hdigitsEq,
    @blanks?_append [' '] _ (by simp) rfl, hgap, hkeyword, hbody, Option.bind_eq_bind,
    Option.bind_some, Option.pure_def, List.reverse_reverse]

theorem hasTop_top : hasTop ("SELECT ".toList ++ ("TOP ".toList ++ rest)) = true := by
  have hselect := @select?_append ("TOP ".toList ++ rest) ⟨'T', by simp, by decide⟩
  have hdistinct := @distinct_of_keyword ("TOP ".toList ++ rest) rfl
  have htop : keyword? "top" ("TOP ".toList ++ rest) = some ([' '] ++ rest) :=
    @keyword?_append "TOP".toList _ rfl _
  simp only [hasTop, hselect, hdistinct, htop]
  simpa using (by decide : isWordChar ' ' = false)

/-- A limit at the end is dropped where there is a `TOP` already. -/
theorem toTop_of_hasTop (h : trailingLimit? sql = some (body, n)) (htop : hasTop body = true) :
    toTop sql = body := by
  simp only [toTop, h, htop, if_true]

/-- Whether a text begins with `TOP` as a word. -/
def readsAsTop (text : List Char) : Bool :=
  (keyword? "top" text).any fun rest => !rest.head?.any isWordChar

theorem hasTop_select (hstart : ∃ c ∈ rest.head?, isBlank c = false) :
    hasTop ("SELECT ".toList ++ rest) = readsAsTop (distinct rest).2 := by
  simp only [hasTop, select?_append hstart, readsAsTop]
  cases keyword? "top" (distinct rest).2 <;> rfl

/-- A limit at the end moves behind `SELECT`, and behind a `DISTINCT` after it. -/
theorem toTop_of_distinct {d : List Char} (hstart : ∃ c ∈ rest.head?, isBlank c = false)
    (hdistinct : distinct rest = (d, body)) (htop : readsAsTop body = false)
    (h : trailingLimit? sql = some ("SELECT ".toList ++ rest, n)) :
    toTop sql = "SELECT ".toList ++ (d ++ ("TOP ".toList ++ (n ++ ([' '] ++ body)))) := by
  have hhasTop : hasTop ("SELECT ".toList ++ rest) = false := by
    rw [hasTop_select hstart, hdistinct, htop]
  simp only [toTop, h, hhasTop, Bool.false_eq_true, if_false, select?_append hstart, hdistinct,
    List.append_assoc, List.singleton_append]

/-- A limit at the end moves behind `SELECT`. -/
theorem toTop_of_notTop (hstart : ∃ c ∈ rest.head?, isBlank c = false)
    (hdistinct : keyword? "distinct" rest = none) (htop : keyword? "top" rest = none)
    (h : trailingLimit? sql = some ("SELECT ".toList ++ rest, n)) :
    toTop sql = "SELECT ".toList ++ ("TOP ".toList ++ (n ++ ([' '] ++ rest))) :=
  toTop_of_distinct hstart (distinct_of_keyword hdistinct) (by rw [readsAsTop, htop]; rfl) h

end AskSql.RowLimit
