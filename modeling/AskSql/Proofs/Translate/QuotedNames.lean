import AskSql.Proofs.Idiom.QuotedNames
import AskSql.Proofs.Translate.Untouched

/-! Quoted names in a translated statement.  Moving a row limit takes the limit and white space out
of a statement and leaves the rest as it stands, so that a pass over a statement, and so its
translation into any dialect, keeps each quoted name that looks like nothing a rule rewrites. -/

namespace AskSql

open Text Sql Idiom RowLimit

variable {text rest : List Char} {names : List QuotedName} {dialect : Dialect}

/-! ### Parts of a limit -/

namespace Sql

/-- What is shed off the front of a text stands outside quotes. -/
theorem Sheds.isBare {front : List Char} (h : Sheds text rest) (hfront : text = front ++ rest) :
    ∀ c ∈ front, isBare c = true := by
  obtain ⟨taken, rfl, hbare⟩ := h
  rw [← List.append_cancel_right hfront]
  exact hbare

theorem isBare_of_isDecimalDigit {c : Char} (h : isDecimalDigit c = true) : isBare c = true :=
  isBare_of_not_mem (by decide +kernel) h

theorem sheds_keyword? {key : String} (hkey : ∀ c ∈ key.toList, isPlain c = true)
    (h : keyword? key text = some rest) : Sheds text rest :=
  sheds_keywordChars? hkey h

theorem sheds_char?_getD {x : Char} (hx : isBare x = true) (text : List Char) :
    Sheds text ((char? x text).getD text) := by
  cases h : char? x text with
  | none => exact ⟨[], rfl, by simp⟩
  | some rest => exact sheds_char? hx h

/-- A statement begins with `SELECT` outside quotes. -/
theorem sheds_select? {select : List Char} (h : select? text = some (select, rest)) :
    Sheds text rest := by
  simp only [select?, Option.bind_eq_bind, Option.bind_eq_some_iff, Option.pure_def,
    Option.some.injEq, Prod.mk.injEq] at h
  obtain ⟨afterWord, hkeyword, projection, hblanks, -, rfl⟩ := h
  exact ((sheds_trimStart text).trans (sheds_keyword? (by decide) hkeyword)).trans
    (sheds_blanks? hblanks)

theorem sheds_distinct (text : List Char) : Sheds text (distinct text).2 := by
  rw [distinct]
  split
  · rename_i rest h
    rw [Option.bind_eq_bind, Option.bind_eq_some_iff] at h
    obtain ⟨afterWord, hkeyword, hblanks⟩ := h
    exact (sheds_keyword? (by decide) hkeyword).trans (sheds_blanks? hblanks)
  · exact ⟨[], rfl, by simp⟩

/-- `SELECT`, a `DISTINCT` behind it and what they leave of a statement. -/
theorem NamesIn.projection {select : List Char} (h : NamesIn text names)
    (hselect : select? text = some (select, rest)) :
    NamesIn (select ++ (distinct rest).1) [] ∧ NamesIn (distinct rest).2 names := by
  have hrest := sheds_select? hselect
  have hbody := sheds_distinct rest
  refine ⟨?_, hbody.namesIn (hrest.namesIn h)⟩
  exact (NamesIn.of_bare (hrest.isBare (select?_eq_some hselect).1)).append
    (.of_bare (hbody.isBare (distinct_append rest).1.symm))

theorem sheds_afterTop? (h : afterTop? text = some rest) : Sheds text rest := by
  rw [afterTop?, Option.orElse_eq_some] at h
  rcases h with hclose | ⟨-, hblanks⟩
  · rw [Option.bind_eq_bind, Option.bind_eq_some_iff] at hclose
    obtain ⟨afterClose, hclose, hblanks⟩ := hclose
    exact ((sheds_trimStart text).trans (sheds_char? (by decide) hclose)).trans
      (sheds_blanks? hblanks)
  · exact sheds_blanks? hblanks

/-- A limit behind `SELECT` stands outside quotes. -/
theorem sheds_movedTop? (h : movedTop? text = some rest) : Sheds text rest := by
  simp only [movedTop?, Option.bind_eq_some_iff] at h
  obtain ⟨cs, hkeyword, ⟨n, ending⟩, hdigits, hafter⟩ := h
  have hopen : Sheds cs (trimStart ((char? '(' (trimStart cs)).getD (trimStart cs))) :=
    ((sheds_trimStart cs).trans (sheds_char?_getD (by decide) _)).trans (sheds_trimStart _)
  exact (((sheds_keyword? (by decide) hkeyword).trans hopen).trans
    (sheds_of_follows (follows_digits? hdigits))).trans (sheds_afterTop? hafter)

theorem NamesIn.splitEnd (h : NamesIn text names) : NamesIn (splitEnd text).1 names := by
  obtain ⟨ending, hending, hchars, -⟩ := exists_splitEnd text
  rw [hending] at h
  refine h.take fun c hc => ?_
  rcases hchars c hc with hblank | rfl
  · exact isBare_of_isBlank hblank
  · decide

/-- A limit at the end of a statement stands outside quotes. -/
theorem NamesIn.trailingLimit? {body digits : List Char} (h : NamesIn text names)
    (hlimit : trailingLimit? text = some (body, digits)) :
    NamesIn body names ∧ ∀ c ∈ digits, isBare c = true := by
  simp only [RowLimit.trailingLimit?, Option.bind_eq_bind, Option.bind_eq_some_iff,
    Option.pure_def, Option.some.injEq, Prod.mk.injEq] at hlimit
  obtain ⟨⟨found, ending⟩, hdigits, afterGap, hgap, afterWord, hkeyword, before, hbefore, rfl,
    rfl⟩ := hlimit
  have hend : Sheds text.reverse (trimStart ((char? ';' (trimStart text.reverse)).getD
      (trimStart text.reverse))) :=
    ((sheds_trimStart _).trans (sheds_char?_getD (by decide) _)).trans (sheds_trimStart _)
  have hbody : Sheds text.reverse before :=
    (((hend.trans (sheds_of_follows (follows_digits? hdigits))).trans (sheds_blanks? hgap)).trans
      (sheds_keywordChars? (by decide) hkeyword)).trans (sheds_blanks? hbefore)
  refine ⟨hbody.namesIn_reverse (by simpa using h), fun c hc => ?_⟩
  exact isBare_of_isDecimalDigit ((digits?_eq_some hdigits).2.2.1 c (List.mem_reverse.1 hc))

end Sql

/-! ### Moving a limit -/

namespace RowLimit

theorem keepsNames_toTop : KeepsNames toTop := by
  intro text names h
  rw [toTop]
  split
  · exact h.carries
  · rename_i body digits hlimit
    obtain ⟨hbody, hdigits⟩ := h.trailingLimit? hlimit
    split
    · exact hbody.carries
    · split
      · exact h.carries
      · rename_i select rest hselect
        obtain ⟨hfront, hrest⟩ := hbody.projection hselect
        have htop : NamesIn ("TOP ".toList ++ (digits ++ [' '])) [] :=
          (NamesIn.of_bare (by decide)).append
            ((NamesIn.of_bare hdigits).append (.of_bare (by decide)))
        simpa using ((hfront.append htop).append hrest).carries

theorem keepsNames_toLimit : KeepsNames toLimit := by
  intro text names h
  cases hmoves : movesTop text with
  | false =>
    rw [toLimit_of_movesTop hmoves]
    exact h.carries
  | true =>
    obtain ⟨⟨select, rest⟩, hselect, hmoved⟩ := Option.any_eq_true _ _ |>.1 hmoves
    obtain ⟨after, hmoved⟩ := Option.isSome_iff_exists.1 hmoved
    obtain ⟨n, hn, hlimit⟩ := exists_toLimit hselect hmoved
    obtain ⟨-, -, -, hsemicolon⟩ := exists_splitEnd after
    obtain ⟨hfront, hrest⟩ := h.projection hselect
    have hbody := ((sheds_movedTop? hmoved).namesIn hrest).splitEnd
    have hend : NamesIn (" LIMIT ".toList ++ (n ++ (splitEnd after).2)) [] := by
      refine (NamesIn.of_bare (by decide)).append ((NamesIn.of_bare fun c hc =>
        isBare_of_isDecimalDigit (hn c hc)).append (.of_bare fun c hc => ?_))
      rw [hsemicolon c hc]
      decide
    rw [hlimit]
    simpa using (hfront.append (hbody.append hend)).carries

theorem keepsNames_rewrite (dialect : Dialect) : KeepsNames (RowLimit.rewrite dialect) := by
  cases dialect with
  | sqlServer => exact keepsNames_toTop
  | sqlite | mySql => exact keepsNames_toLimit

end RowLimit

/-! ### Translation -/

theorem keepsNames_translatePass (dialect : Dialect) : KeepsNames (translatePass dialect) :=
  (RowLimit.keepsNames_rewrite dialect).comp (Idiom.keepsNames_rewrite dialect)

theorem Sql.Carries.iterate (h : Carries names text) (passes : Nat) :
    Carries names ((translatePass dialect)^[passes] text) := by
  induction passes generalizing text with
  | zero => exact h
  | succ passes ih => exact ih ((keepsNames_translatePass dialect).carries h)

/-- A name that is read in a text stands in it as it is written. -/
theorem Sql.NamesIn.isInfix {name : QuotedName} (h : NamesIn text names) (hname : name ∈ names) :
    name.text <:+: text := by
  induction h with
  | nil => contradiction
  | bare _ _ ih => exact (ih hname).trans (List.suffix_cons _ _).isInfix
  | literal _ _ ih => exact (ih hname).trans (List.suffix_append _ _).isInfix
  | name _ _ ih =>
    rcases List.mem_cons.1 hname with rfl | hmem
    · exact (List.prefix_append _ _).isInfix
    · exact (ih hmem).trans (List.suffix_append _ _).isInfix

/-- A quoted name that looks like nothing a rule rewrites is in the translation of a statement into
any dialect, as it is written. -/
theorem translate_quotedNames (dialect : Dialect) {sql : String} (h : NamesIn sql.toList names) :
    Carries names (translate dialect sql).toList ∧
      ∀ name ∈ names, name.text <:+: (translate dialect sql).toList := by
  have hcarries : Carries names (translate dialect sql).toList := by
    rw [translate_toList]
    exact h.carries.iterate maxPasses
  obtain ⟨found, hfound, hnames⟩ := hcarries
  exact ⟨⟨found, hfound, hnames⟩, fun name hname => hfound.isInfix (hnames hname)⟩

/-- Names stay inside the idioms of a statement.  A name with the call of a date function in it is
not safe: its characters are rewritten. -/
theorem translate_shipDate :
    let shipped : QuotedName := ⟨'[', "Ship Date".toList, ']'⟩
    let due : QuotedName := ⟨'"', "Due (net)".toList, '"'⟩
    let utc : QuotedName := ⟨'[', "Order Date (UTC)".toList, ']'⟩
    let sql := "SELECT TOP 5 YEAR([Ship Date]), \"Due (net)\" + INTERVAL 1 DAY FROM t"
    NamesIn sql.toList [shipped, due] ∧
      (∀ dialect, ∀ name ∈ [shipped, due], name.text <:+: (translate dialect sql).toList) ∧
      ¬ Harmless utc ∧
      (translate .mySql "SELECT [Order Date (UTC)] FROM t").toList =
        "SELECT [Order DATE(UTC)] FROM t".toList := by
  intro shipped due utc sql
  have hsql : NamesIn sql.toList [shipped, due] := by
    have hpieces : sql.toList = "SELECT TOP 5 YEAR(".toList ++ (shipped.text ++ ("), ".toList ++
        (due.text ++ " + INTERVAL 1 DAY FROM t".toList))) := by
      decide +kernel
    rw [hpieces]
    exact (NamesIn.of_bare (by decide)).append (.name (by decide +kernel)
      ((NamesIn.of_bare (by decide)).append (.name (by decide +kernel) (.of_bare (by decide)))))
  exact ⟨hsql, fun dialect => (translate_quotedNames dialect hsql).2, by decide +kernel,
    by decide +kernel⟩

end AskSql
