import AskSql.Proofs.RowLimit

/-! Texts that no row limit stands in.  At the end of a statement a number is no limit if another
word than `LIMIT` comes before it, and behind `SELECT` a word is no limit unless it is `TOP` and a
number follows. -/

namespace AskSql.RowLimit

open Text

variable {sql body rest text front : List Char}

/-! ### The end of a statement -/

/-- No number behind `front` is a limit, whatever comes before `front`. -/
def Guards (front : List Char) : Prop :=
  ∀ before n, n ≠ [] → (∀ c ∈ n, isDecimalDigit c = true) →
    trailingLimit? (before ++ front ++ n) = none

/-- `text` ends with no limit where a text stands before it that guards it. -/
def Unlimited (text : List Char) : Prop :=
  ∀ front, Guards front → trailingLimit? (front ++ text) = none

theorem Guards.prepend (h : Guards front) (before : List Char) : Guards (before ++ front) :=
  fun more n hne hdigits => by
    have hnone := h (more ++ before) n hne hdigits
    rwa [List.append_assoc more] at hnone

/-- What decides whether a number at the end of a text is a limit. -/
theorem trailingLimit?_digits {n : List Char} (hne : n ≠ [])
    (hdigits : ∀ c ∈ n, isDecimalDigit c = true)
    (hstop : ∀ c ∈ front.getLast?, isDecimalDigit c = false) :
    trailingLimit? (front ++ n) = (blanks? front.reverse).bind fun ending =>
      (keywordChars? "limit".toList.reverse ending).bind fun ending =>
        (blanks? ending).map fun body => (body.reverse, n) := by
  have hlast : ∃ c ∈ (front ++ n).getLast?, isBlank c = false ∧ c ≠ ';' := by
    have hdigit := hdigits _ (List.getLast_mem hne)
    refine ⟨n.getLast hne, by simp [List.getLast?_append, List.getLast?_eq_some_getLast hne],
      isBlank_of_isDecimalDigit hdigit, fun heq => ?_⟩
    rw [heq] at hdigit
    exact absurd hdigit (by decide)
  have hfound :=
    @digits?_append front.reverse n.reverse (by simpa using hne) (by simpa using hdigits)
    (by simpa using hstop)
  rw [trailingLimit?_eq hlast, List.reverse_append, hfound, Option.bind_some, List.reverse_reverse]

/-- Whether `word` and `cs` differ before either of them ends. -/
def differs : List Char → List Char → Bool
  | w :: word, c :: cs => fold c != w || differs word cs
  | _, _ => false

theorem keywordChars?_of_differs {word cs : List Char} (h : differs word cs = true) :
    keywordChars? word (cs ++ rest) = none := by
  induction word generalizing cs with
  | nil => simp [differs] at h
  | cons w word ih =>
    cases cs with
    | nil => simp [differs] at h
    | cons c cs =>
      rw [List.cons_append, keywordChars?]
      split
      · rename_i heq
        exact ih (by simpa [differs, heq] using h)
      · rfl

/-- Whether a text ends with a character that is part of no number, or with white space behind
another word than `LIMIT`. -/
def isGuard (front : List Char) : Bool :=
  match front.reverse with
  | [] => false
  | c :: cs =>
    if isBlank c then cs.head?.any (!isBlank ·) && differs "limit".toList.reverse cs
    else !isDecimalDigit c

theorem guards_of_isGuard (h : isGuard front = true) : Guards front := by
  intro before n hne hdigits
  rw [isGuard] at h
  split at h
  · contradiction
  · rename_i c cs hrev
    have hlast : front.getLast? = some c := by simp [← List.head?_reverse, hrev]
    have hstop : ∀ d ∈ (before ++ front).getLast?, isDecimalDigit d = false := by
      intro d hd
      rw [List.getLast?_append, hlast, Option.some_or] at hd
      obtain rfl : c = d := Option.some.inj hd
      split at h
      · exact isDecimalDigit_of_isBlank ‹_›
      · simpa using h
    rw [trailingLimit?_digits hne hdigits hstop, List.reverse_append, hrev, List.cons_append,
      blanks?]
    split at h
    · rename_i hblank
      simp only [Bool.and_eq_true, Option.any_eq_true, Bool.not_eq_true'] at h
      obtain ⟨⟨d, hd, hdblank⟩, hdiffers⟩ := h
      have hstart : trimStart (cs ++ before.reverse) = cs ++ before.reverse :=
        trimStart_of_head ⟨d, by rw [List.head?_append, hd]; rfl, hdblank⟩
      rw [if_pos hblank, hstart, Option.bind_some, keywordChars?_of_differs hdiffers,
        Option.bind_none]
    · rw [if_neg ‹_›, Option.bind_none]

/-- White space behind another character than the last of `LIMIT` guards what follows. -/
theorem guards_of_blank {gap : List Char}
    (hlast : ∃ c ∈ front.getLast?, isBlank c = false ∧ fold c ≠ 't')
    (hgap : blank gap = true) (hne : gap ≠ []) : Guards (front ++ gap) := by
  intro before n hn hdigits
  obtain ⟨c, hc, hblank, hfold⟩ := hlast
  obtain ⟨cs, hcs⟩ : ∃ cs, front.reverse = c :: cs := List.head?_eq_some_iff.1 (by simpa using hc)
  have hstop : ∀ d ∈ (before ++ (front ++ gap)).getLast?, isDecimalDigit d = false := by
    intro d hd
    rw [← List.append_assoc, List.getLast?_append, List.getLast?_eq_some_getLast hne] at hd
    obtain rfl : gap.getLast hne = d := Option.some.inj hd
    exact isDecimalDigit_of_isBlank (List.all_eq_true.1 hgap _ (List.getLast_mem hne))
  have hback : (before ++ (front ++ gap)).reverse =
      gap.reverse ++ (c :: (cs ++ before.reverse)) := by
    simp [hcs]
  have hreverse : blank gap.reverse = true := by rwa [blank, List.all_reverse]
  rw [trailingLimit?_digits hn hdigits hstop, hback,
    blanks?_append (List.reverse_ne_nil_iff.2 hne) hreverse, trimStart_of_head ⟨c, rfl, hblank⟩,
    Option.bind_some]
  have hkeyword : keywordChars? "limit".toList.reverse (c :: (cs ++ before.reverse)) = none :=
    if_neg hfold
  rw [hkeyword, Option.bind_none]

theorem unlimited_of_last
    (h : ∃ c ∈ text.getLast?, isBlank c = false ∧ c ≠ ';' ∧ isDecimalDigit c = false) :
    Unlimited text := by
  intro front _
  obtain ⟨c, hc, hlast⟩ := h
  exact trailingLimit?_of_last ⟨c, by rw [List.getLast?_append, Option.mem_def.1 hc]; rfl, hlast⟩

/-- A word ends with no limit, whether it is a number or not. -/
theorem unlimited_of_forall (hne : text ≠ []) (h : ∀ c ∈ text, isBlank c = false ∧ c ≠ ';') :
    Unlimited text := by
  intro front hguards
  by_cases hdigit : ∃ c ∈ text, isDecimalDigit c = false
  · exact trailingLimit?_of_token h hdigit
  · exact hguards [] text hne (by simpa using hdigit)

theorem Unlimited.prepend (h : Unlimited text) (hguards : Guards front) (before : List Char) :
    Unlimited (before ++ (front ++ text)) :=
  fun more _ => by
    have hnone := h _ (hguards.prepend (more ++ before))
    rwa [List.append_assoc, List.append_assoc] at hnone

/-! ### The front of a statement -/

/-- Whether `name` is `TOP` and a number behind it. -/
def isTopNumber (name : List Char) : Bool :=
  (keyword? "top" name).any fun n => !n.isEmpty && n.all isDecimalDigit

/-- A limit ends before white space or a parenthesis. -/
theorem afterTop?_eq_none {c : Char} {cs : List Char} (hblank : isBlank c = false)
    (hclose : c ≠ ')') :
    afterTop? (c :: cs) = none := by
  have hstart : trimStart (c :: cs) = c :: cs := trimStart_of_head ⟨c, rfl, hblank⟩
  have hchar : char? ')' (c :: cs) = none := char?_eq_none (by simpa using hclose)
  simp [afterTop?, hstart, hchar, @blanks?_of_head (c :: cs) (by simpa using hblank)]

/-- A keyword begins with its first letter. -/
theorem keyword?_cons_eq_none {word : String} {c w : Char} {cs ws : List Char}
    (hword : word.toList = w :: ws) (h : fold c ≠ w) : keyword? word (c :: cs) = none := by
  rw [keyword?, hword, keywordChars?, if_neg h]

/-- A text whose first word ends before `tail` selects nothing, or it selects `tail`. -/
theorem select?_word {word tail : List Char} (hword : ∀ c ∈ word, isBlank c = false)
    (hne : word ≠ []) (htail : ∀ c ∈ tail.head?, foldsToLetter c = false) :
    select? (word ++ tail) = none ∨
      word.length = 6 ∧ ∃ select, select? (word ++ tail) = some (select, trimStart tail) := by
  obtain ⟨c, cs, rfl⟩ := List.exists_cons_of_ne_nil hne
  have hstart : trimStart (c :: cs ++ tail) = c :: cs ++ tail :=
    trimStart_of_head ⟨c, rfl, hword c (by simp)⟩
  have hkeyword : keyword? "select" (c :: cs ++ tail) =
      (keyword? "select" (c :: cs)).map (· ++ tail) :=
    keywordChars?_append_of_head fun d hd hmem => by
      have halpha : ∀ e ∈ "select".toList, e.isAlpha = true := by decide
      have hletter := htail d hd
      rw [foldsToLetter, halpha _ hmem] at hletter
      contradiction
  simp only [select?, hstart, hkeyword, Option.bind_eq_bind]
  cases hrest : keyword? "select" (c :: cs) with
  | none => exact Or.inl rfl
  | some rest =>
    cases rest with
    | cons d rest =>
      have hd : isBlank d = false := hword d ((keywordChars?_suffix hrest).mem (by simp))
      rw [Option.map_some, Option.bind_some, List.cons_append, blanks?_of_head (by simpa using hd)]
      exact Or.inl rfl
    | nil =>
      have hlength : (c :: cs).length = 6 := keywordChars?_length hrest
      rw [Option.map_some, Option.bind_some, List.nil_append]
      cases tail with
      | nil => exact Or.inl rfl
      | cons d tail =>
        rw [blanks?]
        split
        · rename_i hblank
          have htrim : trimStart (d :: tail) = trimStart tail :=
            @trimStart_append [d] tail (by simpa [blank] using hblank)
          rw [htrim]
          exact Or.inr ⟨hlength, _, rfl⟩
        · exact Or.inl rfl

/-- What a limit behind `SELECT` leaves of `rest`. -/
def movedTop? (rest : List Char) : Option (List Char) :=
  (keyword? "top" rest).bind fun cs =>
    (digits? (trimStart ((char? '(' (trimStart cs)).getD (trimStart cs)))).bind fun found =>
      afterTop? found.2

/-- A statement without a limit behind its `SELECT` stays as it is. -/
theorem toLimit_eq_self {select d : List Char} (hselect : select? sql = some (select, rest))
    (hdistinct : distinct rest = (d, body)) (h : movedTop? body = none) : toLimit sql = sql := by
  simp only [toLimit, hselect, hdistinct, Option.bind_eq_bind, Option.bind_some]
  rw [movedTop?] at h
  cases htop : keyword? "top" body with
  | none => rfl
  | some cs =>
    rw [htop, Option.bind_some] at h
    rw [Option.bind_some]
    cases hdigits : digits? (trimStart ((char? '(' (trimStart cs)).getD (trimStart cs))) with
    | none => rfl
    | some found =>
      rw [hdigits, Option.bind_some] at h
      rw [Option.bind_some, h]
      rfl

/-- What comes after the first word of a projection. -/
structure Stops (after : List Char) (x : Char) : Prop where
  head : after.head? = some x
  letter : (fold x).isAlpha = false
  digit : isDecimalDigit x = false
  opening : x ≠ '('
  next : isBlank x = true →
    ∃ y ∈ (trimStart after).head?, fold y ≠ 't' ∧ y ≠ '(' ∧ isDecimalDigit y = false

namespace Stops

variable {word after : List Char} {x : Char} (hstops : Stops after x)
include hstops

theorem trimStart_eq (hblank : isBlank x = false) : trimStart after = after :=
  trimStart_of_head ⟨x, hstops.head, hblank⟩

theorem keyword?_append {key : String} (hkey : ∀ c ∈ key.toList, c.isAlpha = true) :
    keyword? key (word ++ after) = (keyword? key word).map (· ++ after) :=
  keywordChars?_append_of_head fun c hc hmem => by
    obtain rfl : x = c := Option.some.inj (hstops.head.symm.trans hc)
    exact absurd (hkey _ hmem) (by simp [hstops.letter])

/-- A word other than `TOP` and a number has no limit in it, and no limit comes after it. -/
theorem digits_of_top {n : List Char} (hword : ∀ c ∈ n, isWordChar c = true)
    (hnumber : isBlank x = true ∨ x = ')' → (!n.isEmpty && n.all isDecimalDigit) = false) :
    (digits? (trimStart ((char? '(' (trimStart (n ++ after))).getD (trimStart (n ++ after))))).bind
      (fun found => afterTop? found.2) = none := by
  cases n with
  | nil =>
    rw [List.nil_append]
    obtain ⟨y, ys, hys, hopen, hdigit, hblank⟩ : ∃ y ys, trimStart after = y :: ys ∧ y ≠ '(' ∧
        isDecimalDigit y = false ∧ isBlank y = false := by
      cases hb : isBlank x with
      | true =>
        obtain ⟨y, hy, -, hopen, hdigit⟩ := hstops.next hb
        obtain ⟨ys, hys⟩ := List.head?_eq_some_iff.1 hy
        exact ⟨y, ys, hys, hopen, hdigit, head_dropWhile y hy⟩
      | false =>
        obtain ⟨ys, hys⟩ := List.head?_eq_some_iff.1 hstops.head
        exact ⟨x, ys, (hstops.trimStart_eq hb).trans hys, hstops.opening, hstops.digit, hb⟩
    have hchar : char? '(' (y :: ys) = none := char?_eq_none (by simpa using hopen)
    have hstart : trimStart (y :: ys) = y :: ys := trimStart_of_head ⟨y, rfl, hblank⟩
    rw [hys, hchar, Option.getD_none, hstart, digits?_eq_none hdigit, Option.bind_none]
  | cons c n =>
    have hblank : ∀ d ∈ c :: n, isBlank d = false := fun d hd => isBlank_of_isWordChar (hword d hd)
    have hparen : ∀ d ∈ c :: n, d ≠ '(' ∧ d ≠ ')' := by
      intro d hd
      have hd := hword d hd
      constructor <;> (rintro rfl; exact absurd hd (by decide))
    have hstart : trimStart (c :: n ++ after) = c :: n ++ after :=
      trimStart_of_head ⟨c, rfl, hblank c (by simp)⟩
    have hchar : char? '(' (c :: n ++ after) = none :=
      char?_eq_none (by simpa using (hparen c (by simp)).1)
    rw [hstart, hchar, Option.getD_none, hstart]
    by_cases hall : ∀ d ∈ c :: n, isDecimalDigit d = true
    · obtain ⟨ys, rfl⟩ := List.head?_eq_some_iff.1 hstops.head
      have hstop : ¬(isBlank x = true ∨ x = ')') := fun h => by
        have hnot := hnumber h
        simp [List.all_eq_true.2 hall] at hnot
      rw [not_or, Bool.not_eq_true] at hstop
      rw [digits?_append (by simp) hall (by simpa using hstops.digit), Option.bind_some,
        afterTop?_eq_none hstop.1 hstop.2]
    · obtain ⟨d, ds, hds⟩ : ∃ d ds, (c :: n).dropWhile isDecimalDigit = d :: ds := by
        apply List.exists_cons_of_ne_nil
        rwa [ne_eq, List.dropWhile_eq_nil_iff]
      have hd : d ∈ c :: n := (List.dropWhile_suffix isDecimalDigit).mem (by rw [hds]; simp)
      have hdrop : (c :: n ++ after).dropWhile isDecimalDigit = d :: (ds ++ after) := by
        rw [List.dropWhile_append, hds]
        rfl
      simp only [digits?, run?, hdrop]
      split
      · rfl
      · exact afterTop?_eq_none (hblank d hd) (hparen d hd).2

/-- A projection that begins with a word other than `TOP` and a number has no limit before it. -/
theorem toLimit_of_word (hword : ∀ c ∈ word, isWordChar c = true)
    (hstart : ∃ c ∈ (word ++ after).head?, isBlank c = false)
    (hnumber : isBlank x = true ∨ x = ')' → isTopNumber word = false) :
    toLimit ("SELECT ".toList ++ (word ++ after)) = "SELECT ".toList ++ (word ++ after) := by
  have hselect := select?_append hstart
  have hsuffix : ∀ {key : String} {n : List Char}, keyword? key word = some n →
      ∀ c ∈ n, isWordChar c = true :=
    fun h c hc => hword c ((keywordChars?_suffix h).mem hc)
  have htop : movedTop? (word ++ after) = none := by
    rw [movedTop?, hstops.keyword?_append (by decide)]
    cases hn : keyword? "top" word with
    | none => rfl
    | some n =>
      refine hstops.digits_of_top (hsuffix hn) fun h => ?_
      simpa [isTopNumber, hn] using hnumber h
  cases hn : keyword? "distinct" word with
  | none =>
    refine toLimit_eq_self hselect (distinct_of_keyword ?_) htop
    rw [hstops.keyword?_append (by decide), hn]
    rfl
  | some n =>
    have hkeyword : keyword? "distinct" (word ++ after) = some (n ++ after) := by
      rw [hstops.keyword?_append (by decide), hn]
      rfl
    cases hblanks : blanks? (n ++ after) with
    | none =>
      refine toLimit_eq_self hselect (d := []) ?_ htop
      simp [distinct, hkeyword, hblanks]
    | some rest =>
      have hdistinct : distinct (word ++ after) =
          ((word ++ after).take ((word ++ after).length - rest.length), rest) := by
        simp [distinct, hkeyword, hblanks]
      refine toLimit_eq_self hselect hdistinct ?_
      cases n with
      | cons c n =>
        have hc := isBlank_of_isWordChar (hsuffix hn c (by simp))
        rw [blanks?_of_head (by simpa using hc)] at hblanks
        contradiction
      | nil =>
        obtain ⟨ys, rfl⟩ := List.head?_eq_some_iff.1 hstops.head
        have hx : isBlank x = true := by
          by_contra hx
          rw [List.nil_append, blanks?_of_head (by simpa using hx)] at hblanks
          contradiction
        obtain ⟨y, hy, hfold, -⟩ := hstops.next hx
        obtain rfl : trimStart ys = rest := by simpa [blanks?, hx] using hblanks
        have hrest : trimStart (x :: ys) = trimStart ys := by simp [trimStart, hx]
        rw [hrest] at hy
        obtain ⟨zs, hzs⟩ := List.head?_eq_some_iff.1 hy
        rw [movedTop?, hzs, keyword?_cons_eq_none (by rfl) hfold, Option.bind_none]

end Stops

/-- A statement whose projection begins with `text` has no limit behind its `SELECT`. -/
def Untopped (text : List Char) : Prop :=
  ∀ after x, Stops after x →
    toLimit ("SELECT ".toList ++ (text ++ after)) = "SELECT ".toList ++ (text ++ after)

/-- A projection that begins with neither letter of the two keywords has no limit before it. -/
theorem untopped_of_head
    (h : ∃ c ∈ text.head?, isBlank c = false ∧ fold c ≠ 'd' ∧ fold c ≠ 't') : Untopped text := by
  intro after _ _
  obtain ⟨c, hc, hblank, hd, ht⟩ := h
  obtain ⟨cs, rfl⟩ := List.head?_eq_some_iff.1 hc
  exact toLimit_of_notTop ⟨c, rfl, hblank⟩ (keyword?_cons_eq_none rfl hd)
    (keyword?_cons_eq_none rfl ht)

/-- Whether no word and no limit goes on with `text`. -/
def isStop (text : List Char) : Bool :=
  match text with
  | [] => false
  | x :: _ =>
    !(fold x).isAlpha && !isDecimalDigit x && x != '(' &&
      (!isBlank x ||
        (trimStart text).head?.any fun y => fold y != 't' && y != '(' && !isDecimalDigit y)

theorem stops_of_isStop (h : isStop text = true) (rest : List Char) :
    ∃ x, Stops (text ++ rest) x := by
  cases text with
  | nil => contradiction
  | cons x cs =>
    simp only [isStop, Bool.and_eq_true, Bool.or_eq_true, Bool.not_eq_true', bne_iff_ne,
      Option.any_eq_true] at h
    obtain ⟨⟨⟨hletter, hdigit⟩, hopening⟩, hnext⟩ := h
    refine ⟨x, rfl, hletter, hdigit, hopening, fun hblank => ?_⟩
    rcases hnext with hno | ⟨y, hy, ⟨hfold, hopen⟩, hynumber⟩
    · rw [hno] at hblank
      contradiction
    · refine ⟨y, ?_, hfold, hopen, hynumber⟩
      obtain ⟨ys, hys⟩ := List.head?_eq_some_iff.1 hy
      rw [trimStart, List.dropWhile_append, ← trimStart, hys]
      rfl

theorem Untopped.append (h : Untopped front) (hstop : isStop text = true) (rest : List Char) :
    Untopped (front ++ (text ++ rest)) := by
  intro after _ _
  obtain ⟨x, hx⟩ := stops_of_isStop hstop (rest ++ after)
  simpa using h _ x hx

end AskSql.RowLimit
