import AskSql.Proofs.Text.WordCount
import AskSql.Proofs.Translate.Untouched

/-! Statements that are limited twice: by a `TOP` behind `SELECT` and by a `LIMIT` at the end.  For
SQL Server the `TOP` wins and the `LIMIT` goes.  For the other dialects the `TOP` becomes a second
`LIMIT` behind the one that is there, so that the statement is limited twice at its end, which none
of them reads. -/

namespace AskSql

open Text Idiom RowLimit

variable {dialect : Dialect} {cs front back : List Char} {key : String}

namespace RowLimit

/-- Some white space. -/
def IsGap (gap : List Char) : Prop :=
  gap ≠ [] ∧ blank gap = true

instance (gap : List Char) : Decidable (IsGap gap) :=
  inferInstanceAs (Decidable (_ ∧ _))

/-- The number of a limit. -/
def IsNumeral (n : List Char) : Prop :=
  n ≠ [] ∧ ∀ c ∈ n, isDecimalDigit c = true

instance (n : List Char) : Decidable (IsNumeral n) :=
  inferInstanceAs (Decidable (_ ∧ _))

/-- What ends a statement: white space, and a semicolon or none. -/
inductive Ending : List Char → List Char → Prop
  | plain {gap : List Char} (h : blank gap = true) : Ending gap []
  | semicolon {left right : List Char} (hleft : blank left = true) (hright : blank right = true) :
      Ending (left ++ ';' :: right) [';']

/-- `DISTINCT` and white space, or nothing. -/
inductive DistinctFront : List Char → Prop
  | nil : DistinctFront []
  | distinct {word gap : List Char} (hword : Keyword "distinct" word) (hgap : IsGap gap) :
      DistinctFront (word ++ gap)

/-- A statement with a limit at both ends, in the parts it is written in.  Keywords stand in any
case, and any white space between the parts. -/
structure TwoLimits where
  space : List Char
  select : List Char
  selectGap : List Char
  distinct : List Char
  top : List Char
  topGap : List Char
  first : List Char
  firstGap : List Char
  body : List Char
  bodyGap : List Char
  limit : List Char
  limitGap : List Char
  last : List Char
  ending : List Char
  semicolon : List Char
  hspace : blank space = true
  hselect : Keyword "select" select
  hselectGap : IsGap selectGap
  hdistinct : DistinctFront distinct
  htop : Keyword "top" top
  htopGap : IsGap topGap
  hfirst : IsNumeral first
  hfirstGap : IsGap firstGap
  start : ∃ c ∈ body.head?, isBlank c = false ∧ c ≠ ')'
  finish : ∃ c ∈ body.getLast?, isBlank c = false
  hbodyGap : IsGap bodyGap
  hlimit : Keyword "limit" limit
  hlimitGap : IsGap limitGap
  hlast : IsNumeral last
  hending : Ending ending semicolon

namespace TwoLimits

variable (s : TwoLimits)

/-- A statement up to the white space behind its `SELECT`. -/
def head : List Char :=
  s.space ++ (s.select ++ s.selectGap)

/-- What stands before the limit of a statement with its number, and the white space behind it. -/
def topped : List Char :=
  s.head ++ (s.distinct ++ (s.top ++ (s.topGap ++ (s.first ++ (s.firstGap ++ s.body)))))

/-- The limit at the end of a statement. -/
def tail : List Char :=
  s.bodyGap ++ (s.limit ++ (s.limitGap ++ s.last))

/-- The whole statement. -/
def text : List Char :=
  s.topped ++ (s.tail ++ s.ending)

/-- The statement with both limits at its end. -/
def limitedTwice : List Char :=
  s.head ++ (s.distinct ++ (s.body ++ (s.tail ++ (" LIMIT ".toList ++ (s.first ++ s.semicolon)))))

end TwoLimits

/-! ### Its parts -/

theorem IsGap.notDigit (h : IsGap cs) (rest : List Char) :
    ∀ c ∈ (cs ++ rest).head?, isDecimalDigit c = false := by
  obtain ⟨c, gap, rfl⟩ := List.exists_cons_of_ne_nil h.1
  simpa using isDecimalDigit_of_isBlank (List.all_eq_true.1 h.2 c (by simp))

theorem IsGap.reverse (h : IsGap cs) : IsGap cs.reverse :=
  ⟨by simpa using h.1, by rw [blank, List.all_reverse]; exact h.2⟩

theorem IsNumeral.reverse (h : IsNumeral cs) : IsNumeral cs.reverse :=
  ⟨by simpa using h.1, by simpa using h.2⟩

theorem IsNumeral.start (h : IsNumeral cs) (rest : List Char) :
    ∃ c ∈ (cs ++ rest).head?, isDecimalDigit c = true :=
  head_of_digits h.1 h.2 rest

theorem IsNumeral.trimStart_eq (h : IsNumeral cs) (rest : List Char) :
    trimStart (cs ++ rest) = cs ++ rest := by
  obtain ⟨c, hc, hdigit⟩ := h.start rest
  exact trimStart_of_head ⟨c, hc, isBlank_of_isDecimalDigit hdigit⟩

theorem IsNumeral.char?_eq {x : Char} (h : IsNumeral cs) (hx : isDecimalDigit x = false)
    (rest : List Char) : char? x (cs ++ rest) = none := by
  obtain ⟨c, hc, hdigit⟩ := h.start rest
  refine char?_eq_none fun hhead => ?_
  obtain rfl : c = x := Option.some.inj (hc.symm.trans hhead)
  rw [hdigit] at hx
  contradiction

/-- A keyword begins with no white space. -/
theorem ink_of_keyword {word : String} (hchars : ∀ c ∈ word.toList, c.isAlpha = true)
    (hne : word ≠ "") (h : Keyword word cs) (rest : List Char) :
    ∃ c ∈ (cs ++ rest).head?, isBlank c = false := by
  obtain ⟨c, hc, hblank⟩ := (h.trimmed hne fun c hc => Or.inl (hchars c hc)).head
  exact ⟨c, by simp [List.head?_append, Option.mem_def.1 hc], hblank⟩

/-- A text that begins with one keyword does not begin with another that begins otherwise. -/
theorem keyword?_of_keyword {word : String} {w k : Char} {ws ks : List Char}
    (hword : word.toList = w :: ws) (hkey : key.toList = k :: ks) (hne : w ≠ k)
    (h : Keyword word cs) (rest : List Char) : keyword? key (cs ++ rest) = none := by
  have hmap : cs.map fold = w :: ws := hword ▸ h
  obtain ⟨c, cs, rfl, hc, -⟩ := List.map_eq_cons_iff.1 hmap
  rw [keyword?, hkey, List.cons_append, keywordChars?, hc, if_neg hne]

theorem DistinctFront.ink (h : DistinctFront cs) (hback : ∃ c ∈ back.head?, isBlank c = false) :
    ∃ c ∈ (cs ++ back).head?, isBlank c = false := by
  cases h with
  | nil => exact hback
  | distinct hword hgap =>
    rw [List.append_assoc]
    exact ink_of_keyword (by decide) (by decide) hword _

theorem DistinctFront.distinct_append (h : DistinctFront cs)
    (hback : ∃ c ∈ back.head?, isBlank c = false) (hkeyword : keyword? "distinct" back = none) :
    RowLimit.distinct (cs ++ back) = (cs, back) := by
  cases h with
  | nil => exact distinct_of_keyword hkeyword
  | @distinct word gap hword hgap =>
    have hlength : (word ++ gap ++ back).length - back.length = (word ++ gap).length := by
      rw [List.length_append, Nat.add_sub_cancel]
    have hread : keyword? "distinct" (word ++ gap ++ back) >>= blanks? = some back := by
      rw [List.append_assoc, keyword?_append hword, Option.bind_eq_bind, Option.bind_some,
        blanks?_append hgap.1 hgap.2, trimStart_of_head hback]
    rw [RowLimit.distinct, hread]
    simp only [hlength, List.take_left]

section Ending

variable {ending semicolon n : List Char} (h : Ending ending semicolon)
include h

/-- Read backwards, a statement begins with its last number once its ending is off. -/
theorem Ending.trimStart_eq (hn : IsNumeral n) (rest : List Char) :
    trimStart ((char? ';' (trimStart (ending.reverse ++ (n ++ rest)))).getD
      (trimStart (ending.reverse ++ (n ++ rest)))) = n ++ rest := by
  cases h with
  | plain hgap =>
    rw [trimStart_append (by rw [blank, List.all_reverse]; exact hgap), hn.trimStart_eq,
      hn.char?_eq (by decide), Option.getD_none, hn.trimStart_eq]
  | @semicolon left right hleft hright =>
    have hsplit : (left ++ ';' :: right).reverse ++ (n ++ rest) =
        right.reverse ++ (';' :: (left.reverse ++ (n ++ rest))) := by simp
    have hmark : trimStart (';' :: (left.reverse ++ (n ++ rest))) =
        ';' :: (left.reverse ++ (n ++ rest)) := trimStart_of_head ⟨';', rfl, by decide⟩
    rw [hsplit, trimStart_append (by rw [blank, List.all_reverse]; exact hright), hmark, char?,
      if_pos rfl, Option.getD_some, trimStart_append (by rw [blank, List.all_reverse]; exact hleft),
      hn.trimStart_eq]

theorem Ending.splitEnd_eq (hlast : ∃ c ∈ cs.getLast?, isBlank c = false ∧ c ≠ ';') :
    splitEnd (cs ++ ending) = (cs, semicolon) := by
  obtain ⟨c, hc, hblank, hsemicolon⟩ := hlast
  have htrim : trimEnd cs = cs := trimEnd_of_last ⟨c, hc, hblank⟩
  rw [splitEnd]
  cases h with
  | plain hgap =>
    have hnone : char? ';' cs.reverse = none :=
      char?_eq_none (by simpa [Option.mem_def.1 hc] using hsemicolon)
    rw [trimEnd_append hgap, htrim, hnone]
  | @semicolon left right hleft hright =>
    have hend : cs ++ (left ++ ';' :: right) = (cs ++ (left ++ [';'])) ++ right := by simp
    have hsemi : trimEnd (cs ++ (left ++ [';'])) = cs ++ (left ++ [';']) :=
      trimEnd_of_last ⟨';', by simp [List.getLast?_append], by decide⟩
    have hchar : char? ';' (cs ++ (left ++ [';'])).reverse = some (cs ++ left).reverse := by
      simp [char?]
    rw [hend, trimEnd_append hright, hsemi, hchar]
    simp only [List.reverse_reverse, trimEnd_append hleft, htrim]

end Ending

namespace TwoLimits

variable (s : TwoLimits)

theorem toList_eq : s.text = s.head ++ (s.distinct ++ (s.top ++ (s.topGap ++ (s.first ++
    (s.firstGap ++ (s.body ++ (s.tail ++ s.ending))))))) := by
  simp [text, topped]

theorem topFront (rest : List Char) : ∃ c ∈ (s.top ++ rest).head?, isBlank c = false :=
  ink_of_keyword (by decide) (by decide) s.htop rest

theorem bodyFront (rest : List Char) : ∃ c ∈ (s.body ++ rest).head?, isBlank c = false ∧
    c ≠ ')' := by
  obtain ⟨c, hc, hstart⟩ := s.start
  exact ⟨c, by simp [List.head?_append, Option.mem_def.1 hc], hstart⟩

theorem distinctFront (hback : ∃ c ∈ back.head?, isBlank c = false) :
    ∃ c ∈ (s.distinct ++ back).head?, isBlank c = false :=
  s.hdistinct.ink hback

theorem select?_head (hback : ∃ c ∈ back.head?, isBlank c = false) :
    select? (s.head ++ back) = some (s.head, back) := by
  have hselect := ink_of_keyword (by decide) (by decide) s.hselect (s.selectGap ++ back)
  have htrim : trimStart (s.head ++ back) = s.select ++ (s.selectGap ++ back) := by
    rw [head, List.append_assoc, List.append_assoc, trimStart_append s.hspace,
      trimStart_of_head hselect]
  have hblanks : blanks? (s.selectGap ++ back) = some back := by
    rw [blanks?_append s.hselectGap.1 s.hselectGap.2, trimStart_of_head hback]
  have hlength : (s.head ++ back).length - back.length = s.head.length := by
    rw [List.length_append, Nat.add_sub_cancel]
  simp only [select?, htrim, keyword?_append s.hselect, hblanks, hlength, Option.bind_eq_bind,
    Option.bind_some, List.take_left, Option.pure_def]

theorem distinct_top (rest : List Char) :
    RowLimit.distinct (s.distinct ++ (s.top ++ rest)) = (s.distinct, s.top ++ rest) :=
  s.hdistinct.distinct_append (s.topFront rest)
    (@keyword?_of_keyword _ "distinct" "top" _ _ _ _ rfl rfl (by decide) s.htop rest)

/-! ### One pass -/

theorem trailingLimit?_eq : trailingLimit? s.text = some (s.topped, s.last) := by
  obtain ⟨c, hc, hblank⟩ := s.finish
  have hbody : ∃ c ∈ s.topped.reverse.head?, isBlank c = false := by
    refine ⟨c, ?_, hblank⟩
    simp [topped, Option.mem_def.1 hc]
  have htail : (s.tail ++ s.ending).reverse = s.ending.reverse ++ (s.last.reverse ++
      (s.limitGap.reverse ++ (s.limit.reverse ++ s.bodyGap.reverse))) := by
    simp [tail]
  have hlast := s.hlast.reverse
  have hlimitGap := s.hlimitGap.reverse
  have hbodyGap := s.hbodyGap.reverse
  generalize hrest : s.limitGap.reverse ++ (s.limit.reverse ++ (s.bodyGap.reverse ++
    s.topped.reverse)) = rest at *
  have hreverse : s.text.reverse = s.ending.reverse ++ (s.last.reverse ++ rest) := by
    rw [text, List.reverse_append, htail, ← hrest]
    simp
  have hending :
      trimStart ((char? ';' (trimStart s.text.reverse)).getD (trimStart s.text.reverse)) =
      s.last.reverse ++ rest := by
    rw [hreverse]
    exact s.hending.trimStart_eq hlast rest
  have hlimit : ∃ c ∈ (s.limit.reverse ++ (s.bodyGap.reverse ++ s.topped.reverse)).head?,
      isBlank c = false := by
    obtain ⟨c, hc, hblank⟩ := (s.hlimit.trimmed (by decide) fun c hc =>
      Or.inl ((by decide : ∀ c ∈ "limit".toList, c.isAlpha = true) c hc)).last
    exact ⟨c, by simp [List.head?_append, Option.mem_def.1 hc], hblank⟩
  have hdigits : digits? (s.last.reverse ++ rest) = some (s.last.reverse, rest) :=
    digits?_append hlast.1 hlast.2 (hrest ▸ hlimitGap.notDigit _)
  have hblanks :
      blanks? rest = some (s.limit.reverse ++ (s.bodyGap.reverse ++ s.topped.reverse)) := by
    rw [← hrest, blanks?_append hlimitGap.1 hlimitGap.2, trimStart_of_head hlimit]
  have hkeyword : keywordChars? "limit".toList.reverse
      (s.limit.reverse ++ (s.bodyGap.reverse ++ s.topped.reverse)) =
        some (s.bodyGap.reverse ++ s.topped.reverse) := by
    have hmap : s.limit.reverse.map fold = "limit".toList.reverse := by
      rw [List.map_reverse]
      exact congrArg List.reverse s.hlimit
    rw [← hmap, keywordChars?_append]
  have hgap : blanks? (s.bodyGap.reverse ++ s.topped.reverse) = some s.topped.reverse := by
    rw [blanks?_append hbodyGap.1 hbodyGap.2, trimStart_of_head hbody]
  simp only [trailingLimit?, hending, hdigits, hblanks, hkeyword, hgap, Option.bind_eq_bind,
    Option.bind_some, Option.pure_def, List.reverse_reverse]

theorem hasTop_topped : hasTop s.topped = true := by
  have htop := keyword?_append s.htop (s.topGap ++ (s.first ++ (s.firstGap ++ s.body)))
  obtain ⟨c, gap, hgap⟩ := List.exists_cons_of_ne_nil s.htopGap.1
  have hc : isWordChar c = false :=
    isWordChar_of_isBlank (List.all_eq_true.1 s.htopGap.2 c (by simp [hgap]))
  rw [topped]
  simp only [hasTop, s.select?_head (s.distinctFront (s.topFront _)), s.distinct_top, htop]
  simp [hgap, hc]

/-- The limit at the end goes where there is a `TOP`. -/
theorem toTop_eq : toTop s.text = s.topped :=
  toTop_of_hasTop s.trailingLimit?_eq s.hasTop_topped

/-- The `TOP` becomes a limit behind the one at the end. -/
theorem toLimit_text : toLimit s.text = s.limitedTwice := by
  have hselect := s.select?_head (s.distinctFront (s.topFront (s.topGap ++ (s.first ++
    (s.firstGap ++ (s.body ++ (s.tail ++ s.ending)))))))
  have hkeyword := keyword?_append s.htop (s.topGap ++ (s.first ++
    (s.firstGap ++ (s.body ++ (s.tail ++ s.ending)))))
  have hdigits : digits? (s.first ++ (s.firstGap ++ (s.body ++ (s.tail ++ s.ending)))) =
      some (s.first, s.firstGap ++ (s.body ++ (s.tail ++ s.ending))) :=
    digits?_append s.hfirst.1 s.hfirst.2 (s.hfirstGap.notDigit _)
  obtain ⟨c, hc, hblank, hclose⟩ := s.bodyFront (s.tail ++ s.ending)
  have hbody : trimStart (s.body ++ (s.tail ++ s.ending)) = s.body ++ (s.tail ++ s.ending) :=
    trimStart_of_head ⟨c, hc, hblank⟩
  have hafter : afterTop? (s.firstGap ++ (s.body ++ (s.tail ++ s.ending))) =
      some (s.body ++ (s.tail ++ s.ending)) := by
    have hnone : char? ')' (s.body ++ (s.tail ++ s.ending)) = none :=
      char?_eq_none fun heq => hclose (Option.some.inj (hc.symm.trans heq))
    rw [afterTop?, trimStart_append s.hfirstGap.2, hbody, hnone,
      blanks?_append s.hfirstGap.1 s.hfirstGap.2, hbody]
    rfl
  have hsplit : splitEnd (s.body ++ (s.tail ++ s.ending)) = (s.body ++ s.tail, s.semicolon) := by
    have hlast : ∀ front, ∃ c ∈ (front ++ s.last).getLast?, isBlank c = false ∧ c ≠ ';' := by
      intro front
      have hdigit := s.hlast.2 _ (List.getLast_mem s.hlast.1)
      refine ⟨s.last.getLast s.hlast.1, ?_, isBlank_of_isDecimalDigit hdigit, fun heq => ?_⟩
      · simp [List.getLast?_append, List.getLast?_eq_some_getLast s.hlast.1]
      · rw [heq] at hdigit
        exact absurd hdigit (by decide)
    have hfront :
        s.body ++ s.tail = (s.body ++ (s.bodyGap ++ (s.limit ++ s.limitGap))) ++ s.last := by
      simp [tail]
    rw [← List.append_assoc]
    exact s.hending.splitEnd_eq (hfront ▸ hlast _)
  rw [s.toList_eq, toLimit_eq hselect (by rw [s.distinct_top]; exact hkeyword) (n := s.first)
    (by rw [trimStart_append s.htopGap.2, s.hfirst.trimStart_eq, s.hfirst.char?_eq (by decide),
      Option.getD_none, s.hfirst.trimStart_eq]; exact hdigits) hafter, s.distinct_top, hsplit,
    limitedTwice]
  simp

end TwoLimits

/-! ### Its words -/

theorem IsGap.countWord (h : IsGap cs) :
    countWord key (front ++ (cs ++ back)) = countWord key front + countWord key back :=
  countWord_gap h.1 h.2

theorem countWord_keyword {word : String} (hchars : ∀ c ∈ word.toList, c.isAlpha = true)
    (hne : word ≠ "") (h : Keyword word cs) :
    countWord key cs = if word = key then 1 else 0 := by
  have hword : ∀ c ∈ cs, isWordChar c = true :=
    h.forall_mem (fun _ => isWordChar_of_foldsToLetter) fun c hc => Or.inl (hchars c hc)
  have hmap : cs.map fold = word.toList := h
  rw [countWord_token (h.ne_nil hne) hword, hmap]
  simp only [String.toList_inj]

theorem countWord_blank_append {gap : List Char} (h : blank gap = true) :
    countWord key (gap ++ back) = countWord key back := by
  cases gap with
  | nil => rfl
  | cons c gap =>
    exact (@countWord_gap [] back key _ (List.cons_ne_nil c gap) h).trans (Nat.zero_add _)

theorem countWord_numeral (h : IsNumeral cs) (hkey : ∃ c ∈ key.toList.head?, c.isAlpha = true) :
    countWord key cs = 0 :=
  countWord_eq_zero_iff.2 (hasWord_of_digits h.2 hkey)

theorem DistinctFront.countWord (h : DistinctFront cs) (hkey : key ≠ "distinct") :
    countWord key (cs ++ back) = countWord key back := by
  cases h with
  | nil => rfl
  | distinct hword hgap =>
    rw [List.append_assoc, hgap.countWord, countWord_keyword (by decide) (by decide) hword,
      if_neg hkey.symm, Nat.zero_add]

theorem Ending.countWord (h : Ending cs back) : countWord key cs = 0 ∧ countWord key back = 0 := by
  cases h with
  | plain hgap => exact ⟨countWord_of_blank hgap, rfl⟩
  | @semicolon left right hleft hright =>
    have hchars : ∀ c ∈ left ++ ';' :: right, isWordChar c = false := by
      intro c hc
      rcases List.mem_append.1 hc with hc | hc
      · exact isWordChar_of_isBlank (List.all_eq_true.1 hleft c hc)
      · rcases List.mem_cons.1 hc with rfl | hc
        · decide
        · exact isWordChar_of_isBlank (List.all_eq_true.1 hright c hc)
    exact ⟨countWord_of_forall hchars, countWord_of_forall (by decide)⟩

theorem Ending.breaks {semicolon : List Char} (h : Ending cs semicolon) (front : List Char) :
    Breaks front cs ∧ Breaks front semicolon := by
  cases h with
  | plain hgap =>
    exact ⟨breaks_of_head fun c hc =>
      isWordChar_of_isBlank (List.all_eq_true.1 hgap c (List.mem_of_head? hc)),
        breaks_of_head (by simp)⟩
  | @semicolon left right hleft hright =>
    refine ⟨breaks_of_head fun c hc => ?_, breaks_of_head (by decide)⟩
    cases left with
    | nil =>
      obtain rfl : ';' = c := Option.some.inj hc
      decide
    | cons d left =>
      obtain rfl : d = c := Option.some.inj hc
      exact isWordChar_of_isBlank (List.all_eq_true.1 hleft d (by simp))

namespace TwoLimits

variable (s : TwoLimits) (hkey : key ∈ idiomWords) (hbody : hasWord key s.body = false)
include hkey hbody

/-- Of the words that translation looks for a statement has only those of its limits. -/
theorem countWord_topped : countWord key s.topped = if "top" = key then 1 else 0 := by
  obtain ⟨halpha, hselect, hdistinct⟩ := spelled_of_mem_idiomWords hkey
  rw [topped, head, List.append_assoc, List.append_assoc, countWord_blank_append s.hspace,
    s.hselectGap.countWord, countWord_keyword (by decide) (by decide) s.hselect,
    if_neg hselect.symm, s.hdistinct.countWord hdistinct, s.htopGap.countWord,
    countWord_keyword (by decide) (by decide) s.htop, s.hfirstGap.countWord,
    countWord_numeral s.hfirst (Option.any_eq_true _ _ |>.1 halpha), countWord_eq_zero_iff.2 hbody]
  omega

theorem countWord_text :
    countWord key s.text = (if "top" = key then 1 else 0) + if "limit" = key then 1 else 0 := by
  have hassoc :
      s.text = (s.topped ++ (s.bodyGap ++ (s.limit ++ (s.limitGap ++ s.last)))) ++ s.ending := by
    simp [text, tail]
  rw [hassoc, countWord_append (s.hending.breaks _).1, s.hbodyGap.countWord,
    s.countWord_topped hkey hbody, s.hlimitGap.countWord,
    countWord_keyword (by decide) (by decide) s.hlimit,
    countWord_numeral s.hlast (Option.any_eq_true _ _ |>.1 (spelled_of_mem_idiomWords hkey).1),
    s.hending.countWord.1]
  rfl

theorem countWord_limitedTwice :
    countWord key s.limitedTwice = if "limit" = key then 2 else 0 := by
  obtain ⟨halpha, hselect, hdistinct⟩ := spelled_of_mem_idiomWords hkey
  have hblank : IsGap [' '] := by decide
  have hlimit : Keyword "limit" "LIMIT".toList := rfl
  have hassoc : s.limitedTwice = (s.space ++ (s.select ++ (s.selectGap ++ (s.distinct ++ (s.body ++
      (s.bodyGap ++ (s.limit ++ (s.limitGap ++ (s.last ++ ([' '] ++ ("LIMIT".toList ++
        ([' '] ++ s.first)))))))))))) ++ s.semicolon := by
    simp [limitedTwice, head, tail]
  rw [hassoc, countWord_append (s.hending.breaks _).2, countWord_blank_append s.hspace,
    s.hselectGap.countWord, countWord_keyword (by decide) (by decide) s.hselect,
    if_neg hselect.symm, s.hdistinct.countWord hdistinct, s.hbodyGap.countWord,
    countWord_eq_zero_iff.2 hbody, s.hlimitGap.countWord,
    countWord_keyword (by decide) (by decide) s.hlimit, hblank.countWord,
    countWord_numeral s.hlast (Option.any_eq_true _ _ |>.1 halpha), hblank.countWord,
    countWord_keyword (by decide) (by decide) hlimit,
    countWord_numeral s.hfirst (Option.any_eq_true _ _ |>.1 halpha), s.hending.countWord.2]
  split <;> rfl

end TwoLimits

/-! ### More passes -/

/-- Each limit that moves to the end is one `LIMIT` more. -/
theorem countWord_toLimit (h : movesTop cs = true) :
    countWord "limit" (toLimit cs) = countWord "limit" cs + 1 := by
  obtain ⟨front, middle, body, ending, n, semicolon, hcs, hlimit, hfront, hmiddle, hending, hn,
    hsemicolon, hletters⟩ := exists_of_movesTop h
  have hmiddleCount : countWord "limit" middle = 0 :=
    countWord_eq_zero_iff.2 (hasWordFrom_of_forall_fold (by decide) hletters)
  have hnCount : countWord "limit" n = 0 :=
    countWord_eq_zero_iff.2 (hasWord_of_digits hn (by decide))
  have hword : countWord "limit" " LIMIT ".toList = 1 := by decide +kernel
  have hbefore : countWord "limit" cs = countWord "limit" front + countWord "limit" body := by
    rw [hcs, countWord_append (breaks_of_last hfront), countWord_append (breaks_of_last hmiddle),
      countWord_append (breaks_of_head fun c hc => hending c (List.mem_of_head? hc)), hmiddleCount,
      countWord_of_forall hending, Nat.zero_add, Nat.add_zero]
  rw [hlimit, hbefore, countWord_append (breaks_of_last hfront),
    countWord_append (breaks_of_head (head_limit _)), countWord_append (breaks_of_last (by decide)),
    countWord_append (breaks_of_head fun c hc => hsemicolon c (List.mem_of_head? hc)),
    hnCount, hword,
    countWord_of_forall hsemicolon]
  omega

/-- No pass takes a `LIMIT` away. -/
theorem countWord_le_iterate (hdialect : dialect ≠ .sqlServer) (h : DateFree cs) (passes : Nat) :
    countWord "limit" cs ≤ countWord "limit" ((translatePass dialect)^[passes] cs) := by
  induction passes generalizing cs with
  | zero => exact le_rfl
  | succ passes ih =>
    rw [Function.iterate_succ_apply, translatePass_eq_toLimit hdialect h]
    refine le_trans ?_ (ih (dateFree_toLimit h))
    cases hmoves : movesTop cs with
    | false => rw [toLimit_of_movesTop hmoves]
    | true => exact (countWord_toLimit hmoves).ge.trans' (Nat.le_succ _)

end RowLimit

/-- Whether a statement has one row limit, where `dialect` has it. -/
def carriesOneLimit (dialect : Dialect) (sql : List Char) : Bool :=
  match dialect with
  | .sqlServer => hasTop sql && countWord "top" sql == 1 && countWord "limit" sql == 0
  | .sqlite | .mySql =>
    (trailingLimit? sql).isSome && countWord "top" sql == 0 && countWord "limit" sql == 1

theorem countWord_of_carriesOneLimit (hdialect : dialect ≠ .sqlServer)
    (h : carriesOneLimit dialect cs = true) : countWord "limit" cs = 1 := by
  cases dialect with
  | sqlServer => exact absurd rfl hdialect
  | sqlite | mySql =>
    simp only [carriesOneLimit, Bool.and_eq_true, beq_iff_eq] at h
    exact h.2

namespace RowLimit.TwoLimits

variable (s : TwoLimits) (hbody : ∀ key ∈ idiomWords, hasWord key s.body = false)
include hbody

theorem dateFree : DateFree s.text ∧ DateFree s.topped ∧ DateFree s.limitedTwice := by
  have hnot : ∀ key ∈ dateWords, key ∈ idiomWords ∧ "top" ≠ key ∧ "limit" ≠ key := by
    intro key hkey
    have hspelled := (spelled_of_mem_dateWords hkey).2
    refine ⟨List.mem_append_left _ hkey, ?_, ?_⟩
    all_goals
      rintro rfl
      exact hspelled (by simp)
  refine ⟨fun key hkey => ?_, fun key hkey => ?_, fun key hkey => ?_⟩
  all_goals
    obtain ⟨hidiom, htop, hlimit⟩ := hnot key hkey
    rw [← countWord_eq_zero_iff]
  · rw [s.countWord_text hidiom (hbody key hidiom), if_neg htop, if_neg hlimit]
  · rw [s.countWord_topped hidiom (hbody key hidiom), if_neg htop]
  · rw [s.countWord_limitedTwice hidiom (hbody key hidiom), if_neg hlimit]

theorem translate_sqlServer :
    (translate .sqlServer (String.ofList s.text)).toList = s.topped := by
  obtain ⟨hdates, htopped, -⟩ := s.dateFree hbody
  have hlimit : hasWord "limit" s.topped = false :=
    countWord_eq_zero_iff.1 (s.countWord_topped limit_mem_idiomWords (hbody _ limit_mem_idiomWords))
  have hsettled : Settled .sqlServer s.topped := by
    rw [Settled, htopped.translatePass_eq]
    exact toTop_of_limitFree hlimit
  have hpass : translatePass .sqlServer s.text = s.topped := by
    rw [hdates.translatePass_eq]
    exact s.toTop_eq
  rw [translate_toList, String.toList_ofList, maxPasses, Function.iterate_succ_apply, hpass,
    hsettled.iterate]

theorem carriesOneLimit_topped : carriesOneLimit .sqlServer s.topped = true := by
  have htop := s.countWord_topped top_mem_idiomWords (hbody _ top_mem_idiomWords)
  have hlimit := s.countWord_topped limit_mem_idiomWords (hbody _ limit_mem_idiomWords)
  rw [carriesOneLimit, s.hasTop_topped, htop, hlimit]
  rfl

/-- After the first pass there are two limits at the end of the statement. -/
theorem translate_eq_iterate (hdialect : dialect ≠ .sqlServer) :
    (translate dialect (String.ofList s.text)).toList =
      (translatePass dialect)^[7] s.limitedTwice := by
  rw [translate_toList, String.toList_ofList, maxPasses, Function.iterate_succ_apply,
    translatePass_eq_toLimit hdialect (s.dateFree hbody).1, s.toLimit_text]

theorem countWord_translate (hdialect : dialect ≠ .sqlServer) :
    2 ≤ countWord "limit" (translate dialect (String.ofList s.text)).toList := by
  have hlimits := s.countWord_limitedTwice limit_mem_idiomWords (hbody _ limit_mem_idiomWords)
  have hkept := countWord_le_iterate hdialect (s.dateFree hbody).2.2 7
  rw [hlimits, if_pos rfl] at hkept
  rwa [s.translate_eq_iterate hbody hdialect]

/-- The two limits stay as they are unless what is selected first reads as a limit too. -/
theorem translate_eq_limitedTwice_iff (hdialect : dialect ≠ .sqlServer) :
    (translate dialect (String.ofList s.text)).toList = s.limitedTwice ↔
      hasGluedTop s.limitedTwice = false := by
  have hdates := (s.dateFree hbody).2.2
  have htop : hasWord "top" s.limitedTwice = false :=
    countWord_eq_zero_iff.1 (s.countWord_limitedTwice top_mem_idiomWords
      (hbody _ top_mem_idiomWords))
  have hpass := translatePass_eq_toLimit hdialect hdates
  rw [s.translate_eq_iterate hbody hdialect, ← movesTop_eq_hasGluedTop htop]
  constructor
  · intro hsame
    by_contra hmoves
    rw [Bool.not_eq_false] at hmoves
    have hmore := countWord_le_iterate hdialect (dateFree_toLimit hdates) 6
    rw [← hpass, ← Function.iterate_succ_apply, hsame, hpass, countWord_toLimit hmoves] at hmore
    omega
  · intro hmoves
    refine Settled.iterate ?_ 7
    rw [Settled, hpass, toLimit_of_movesTop hmoves]

end RowLimit.TwoLimits

/-- A statement limited at both ends, which selects what has none of the words that translation
looks for, carries one limit in its translation for SQL Server, the one behind `SELECT`, and for no
other dialect: there the limit behind `SELECT` is added behind the one at the end. -/
theorem carriesOneLimit_translate_iff (dialect : Dialect) (s : TwoLimits)
    (hbody : ∀ key ∈ idiomWords, hasWord key s.body = false) :
    (carriesOneLimit dialect (translate dialect (String.ofList s.text)).toList = true ↔
        dialect = .sqlServer) ∧
      (dialect = .sqlServer → (translate dialect (String.ofList s.text)).toList = s.topped) ∧
      (dialect ≠ .sqlServer →
        2 ≤ countWord "limit" (translate dialect (String.ofList s.text)).toList ∧
        ((translate dialect (String.ofList s.text)).toList = s.limitedTwice ↔
          hasGluedTop s.limitedTwice = false)) := by
  have hserver : dialect = .sqlServer →
      (translate dialect (String.ofList s.text)).toList = s.topped := by
    rintro rfl
    exact s.translate_sqlServer hbody
  refine ⟨⟨fun hone => ?_, fun heq => ?_⟩, hserver, fun hdialect =>
    ⟨s.countWord_translate hbody hdialect, s.translate_eq_limitedTwice_iff hbody hdialect⟩⟩
  · by_contra hdialect
    have htwo := s.countWord_translate hbody hdialect
    rw [countWord_of_carriesOneLimit hdialect hone] at htwo
    exact absurd htwo (by decide)
  · rw [hserver heq, heq]
    exact s.carriesOneLimit_topped hbody

/-- A statement that asks for three clients at its front and for five at its end. -/
def fewClients : TwoLimits where
  space := []
  select := "SELECT".toList
  selectGap := [' ']
  distinct := "DISTINCT ".toList
  top := "Top".toList
  topGap := [' ']
  first := ['3']
  firstGap := [' ']
  body := "city FROM clients".toList
  bodyGap := ['\n']
  limit := "limit".toList
  limitGap := [' ']
  last := ['5']
  ending := " ;".toList
  semicolon := [';']
  hspace := rfl
  hselect := rfl
  hselectGap := by decide
  hdistinct := @DistinctFront.distinct "DISTINCT".toList [' '] rfl (by decide)
  htop := rfl
  htopGap := by decide
  hfirst := by decide
  hfirstGap := by decide
  start := ⟨'c', rfl, by decide⟩
  finish := ⟨'s', rfl, by decide⟩
  hbodyGap := by decide
  hlimit := rfl
  hlimitGap := by decide
  hlast := by decide
  hending := @Ending.semicolon [' '] [] rfl rfl

theorem carriesOneLimit_translate_clients :
    String.ofList fewClients.text = "SELECT DISTINCT Top 3 city FROM clients\nlimit 5 ;" ∧
      (∀ key ∈ idiomWords, hasWord key fewClients.body = false) ∧
      (translate .sqlServer (String.ofList fewClients.text)).toList =
        "SELECT DISTINCT Top 3 city FROM clients".toList ∧
      (translate .sqlite (String.ofList fewClients.text)).toList =
        "SELECT DISTINCT city FROM clients\nlimit 5 LIMIT 3;".toList ∧
      carriesOneLimit .sqlite (translate .sqlite (String.ofList fewClients.text)).toList ≠
        true := by
  have hbody : ∀ key ∈ idiomWords, hasWord key fewClients.body = false := by decide +kernel
  have hsqlite := carriesOneLimit_translate_iff .sqlite fewClients hbody
  have hglued : hasGluedTop fewClients.limitedTwice = false := by decide +kernel
  refine ⟨by decide, hbody, ?_, ?_, ?_⟩
  · exact ((carriesOneLimit_translate_iff .sqlServer fewClients hbody).2.1 rfl).trans (by decide)
  · exact (((hsqlite.2.2 (by decide)).2).2 hglued).trans (by decide)
  · rw [ne_eq, hsqlite.1]
    decide

end AskSql
