import AskSql.Proofs.RowLimit.Absent
import AskSql.Proofs.Text.Taken
import AskSql.Proofs.Translate.Passes

/-! Texts without the words of any idiom.  Each rule of translation looks for a word: a clock
keyword, the name of a date function, `INTERVAL`, `LIMIT` or `TOP`.  A text that has none of them
stays as it is, but for one that selects a name such as `TOP10` first: the rule for `TOP` looks for
the number of a limit and not for the end of the word, and takes the name for a limit. -/

namespace AskSql

open Text Idiom RowLimit

variable {dialect : Dialect} {text front back : List Char}

namespace Idiom

/-- The words that begin a date or time idiom, in small letters. -/
def dateWords : List String :=
  DateFunction.names.map (fun entry => String.ofList (lowerAscii entry.1.toList)) ++
    ["current_date", "current_timestamp", "interval"]

/-- Each of the words begins with a letter, and none is a keyword of a limit or of a selection. -/
theorem spelled_of_mem_dateWords {key : String} (h : key ∈ dateWords) :
    key.toList.head?.any Char.isAlpha = true ∧ key ∉ ["select", "distinct", "limit", "top"] := by
  revert key
  decide +kernel

/-- No word of `text` begins a date or time idiom. -/
def DateFree (text : List Char) : Prop :=
  ∀ key ∈ dateWords, hasWord key text = false

/-! ### Words that name nothing -/

/-- A character that capitals make a letter of a name folds to that letter. -/
theorem fold_of_toUpper {c : Char} (h : c.toUpper.isAlpha = true ∨ c.toUpper = '_') :
    fold c = c.toUpper.toLower := by
  have hlow : c.toNat < 128 := by
    by_contra hhigh
    have hsame : c.toUpper = c := by
      unfold Char.toUpper
      rw [dif_neg]
      rintro ⟨-, hz⟩
      have hz := UInt32.le_iff_toNat_le.1 hz
      have hc : c.val.toNat = c.toNat := rfl
      have hmax : 'z'.val.toNat = 122 := rfl
      omega
    rw [hsame] at h
    rcases h with halpha | rfl
    · unfold Char.isAlpha Char.isUpper Char.isLower at halpha
      simp only [Bool.or_eq_true, Bool.and_eq_true, decide_eq_true_eq,
        UInt32.le_iff_toNat_le] at halpha
      have hc : c.val.toNat = c.toNat := rfl
      have hZ : 'Z'.val.toNat = 90 := rfl
      have hz : 'z'.val.toNat = 122 := rfl
      omega
    · exact hhigh (by decide)
  have hall : ∀ n < 128, (Char.ofNat n).toUpper.isAlpha = true ∨ (Char.ofNat n).toUpper = '_' →
      fold (Char.ofNat n) = (Char.ofNat n).toUpper.toLower := by
    decide +kernel
  have hc := hall c.toNat hlow
  rw [Char.ofNat_toNat] at hc
  exact hc h

/-- The name of a date function is one of the words that begin an idiom. -/
theorem map_fold_of_ofName? {name : List Char} {function : DateFunction}
    (h : DateFunction.ofName? name = some function) :
    String.ofList (name.map fold) ∈ dateWords := by
  obtain ⟨front, back, hsplit, -⟩ := List.lookup_eq_some_iff.1 h
  have hmem : (String.ofList (upperAscii name), function) ∈ DateFunction.names := by
    rw [hsplit]
    simp
  have hchars : ∀ entry ∈ DateFunction.names, ∀ c ∈ entry.1.toList, c.isAlpha = true ∨ c = '_' := by
    decide
  have hname := hchars _ hmem
  rw [String.toList_ofList] at hname
  have hfold : name.map fold = lowerAscii (upperAscii name) := by
    rw [lowerAscii, upperAscii, List.map_map]
    refine List.map_congr_left fun c hc => fold_of_toUpper (hname _ (List.mem_map_of_mem hc))
  rw [hfold]
  refine List.mem_append_left _ (List.mem_map.2 ⟨_, hmem, ?_⟩)
  rw [String.toList_ofList]

theorem map_fold_of_clockKeyword? {word : List Char} {clock : Clock}
    (h : clockKeyword? word = some clock) : String.ofList (word.map fold) ∈ dateWords := by
  have hsome : (clockKeyword? word).isSome = true := by rw [h]; rfl
  rw [isSome_clockKeyword?, Bool.or_eq_true, beq_iff_eq, beq_iff_eq] at hsome
  have hclocks : "current_date" ∈ dateWords ∧ "current_timestamp" ∈ dateWords := by decide
  rcases hsome with hword | hword <;> rw [hword, String.ofList_toList]
  · exact hclocks.1
  · exact hclocks.2

/-- No scan over the words of a text finds an idiom in it. -/
theorem DateFree.rewriteWords_eq (h : DateFree text)
    {rewriteAt? : List Char → Option (List Char × Nat)} (hf : Selective rewriteAt?) :
    rewriteWords rewriteAt? text = text := by
  have hself := @rewriteWordsFrom_self rewriteAt? none text [] false
    fun front c back htext _ hbegins _ => by
      have hword := @hasWordFrom_of_beginsWord front back none c hbegins
      have hnot : ∀ key ∈ dateWords, (word (c :: back)).1.map fold ≠ key.toList := by
        rintro key hkey heq
        rw [← htext, heq] at hword
        exact absurd hword (by simpa [hasWord] using h key hkey)
      have hclock : clockKeyword? (word (c :: back)).1 = none := by
        refine Option.eq_none_iff_forall_not_mem.2 fun clock hclock => ?_
        exact hnot _ (map_fold_of_clockKeyword? hclock) String.toList_ofList.symm
      have hname : DateFunction.ofName? (word (c :: back)).1 = none := by
        refine Option.eq_none_iff_forall_not_mem.2 fun function hfunction => ?_
        exact hnot _ (map_fold_of_ofName? hfunction) String.toList_ofList.symm
      have hnone := hf (word (c :: back)).1 (word (c :: back)).2
        (fun d hd => List.mem_takeWhile_imp hd) head_dropWhile hclock (Or.inl hname)
      rwa [word, List.takeWhile_append_dropWhile, ← List.append_nil (c :: back)] at hnone
  simpa [rewriteWords, rewriteWordsFrom] using hself

/-- Behind a sign an interval begins with the word `INTERVAL`. -/
theorem hasWord_interval {sign : Char} {found : ScannedInterval} (hsign : isWordChar sign = false)
    (h : scanInterval? (trimStart back) = some found) :
    hasWord "interval" (front ++ sign :: back) = true := by
  simp only [scanInterval?, Option.bind_eq_bind, Option.bind_eq_some_iff] at h
  obtain ⟨rest, hkeyword, body, hblanks, -⟩ := h
  obtain ⟨token, htoken, hfold⟩ := keywordChars?_eq_some hkeyword
  obtain ⟨gap, hgap, hne, hblank⟩ := blanks?_eq_some hblanks
  obtain ⟨space, hspace, hspaceBlank⟩ := exists_trimStart back
  have htext : front ++ sign :: back = (front ++ sign :: space) ++ (token ++ (gap ++ body)) := by
    rw [hspace, htoken, hgap]
    simp
  rw [htext]
  refine hasWord_of_keyword (by decide) (by decide) hfold (fun b hb => ?_) fun c hc => ?_
  · cases hcases : space with
    | nil =>
      rw [hcases] at hb
      obtain rfl : sign = b := by simpa using hb
      exact hsign
    | cons d space' =>
      have hlast := last_of_blank (by simp [hcases]) hspaceBlank (front ++ [sign])
      exact hlast b (by simpa using hb)
  · obtain ⟨d, gap, rfl⟩ := List.exists_cons_of_ne_nil hne
    obtain rfl : d = c := Option.some.inj hc
    exact isWordChar_of_isBlank (List.all_eq_true.1 hblank d (by simp))

theorem DateFree.rewriteIntervals_eq (h : DateFree text) (write : Idiom → Option (List Char)) :
    rewriteIntervals write text = text := by
  have hinterval := h "interval" (by decide)
  have hself := @rewriteIntervalsFrom_pass text [] write [] fun front sign back htext hsign => by
    have hsignWord : isWordChar sign = false := by rcases hsign with rfl | rfl <;> decide
    have hscan : scanInterval? (trimStart back) = none := by
      refine Option.eq_none_iff_forall_not_mem.2 fun found hfound => ?_
      have hword := @hasWord_interval front back sign found hsignWord hfound
      rw [← htext, hinterval] at hword
      contradiction
    rw [shiftAt?, List.append_nil back, hscan]
    simp
  simpa [rewriteIntervals, rewriteIntervalsFrom] using hself

/-- No rule about dates changes a text without the words of date and time idioms. -/
theorem DateFree.rewriteWithin_eq (h : DateFree text) (depth : Nat) :
    rewriteWithin dialect depth text = text := by
  cases depth with
  | zero => rfl
  | succ depth =>
    rw [rewriteWithin, rewriteClocks, h.rewriteWords_eq (selective_rewriteClockAt? _), rewriteCalls,
      h.rewriteWords_eq (selective_rewriteCallAt? _)]
    exact h.rewriteIntervals_eq _

theorem DateFree.translatePass_eq (h : DateFree text) :
    translatePass dialect text = RowLimit.rewrite dialect text := by
  rw [translatePass, Idiom.rewrite, h.rewriteWithin_eq]

end Idiom

/-! ### Words that limit nothing -/

namespace RowLimit

theorem char?_getD_suffix (x : Char) (text : List Char) : (char? x text).getD text <:+ text := by
  cases h : char? x text with
  | none => exact List.suffix_rfl
  | some rest =>
    rw [char?_eq_some h]
    exact List.suffix_cons x rest

/-- A limit at the end of a text begins with the word `LIMIT`. -/
theorem hasWord_of_trailingLimit? (h : (trailingLimit? text).isSome = true) :
    hasWord "limit" text = true := by
  obtain ⟨found, h⟩ := Option.isSome_iff_exists.1 h
  simp only [trailingLimit?, Option.bind_eq_bind, Option.bind_eq_some_iff] at h
  obtain ⟨⟨digits, ending⟩, hdigits, afterGap, hgap, afterWord, hkeyword, before, hbefore, -⟩ := h
  obtain ⟨tail, htail⟩ : trimStart ((char? ';' (trimStart text.reverse)).getD
      (trimStart text.reverse)) <:+ text.reverse :=
    ((List.dropWhile_suffix _).trans (char?_getD_suffix ';' _)).trans (List.dropWhile_suffix _)
  obtain ⟨hdigits, -⟩ := digits?_eq_some hdigits
  obtain ⟨gap, rfl, hne, hblank⟩ := blanks?_eq_some hgap
  obtain ⟨token, rfl, hfold⟩ := keywordChars?_eq_some hkeyword
  obtain ⟨gap', rfl, hne', hblank'⟩ := blanks?_eq_some hbefore
  have htext : text = (before.reverse ++ gap'.reverse) ++
      (token.reverse ++ (gap.reverse ++ (tail ++ digits).reverse)) := by
    rw [← List.reverse_inj, ← htail, hdigits]
    simp
  rw [htext]
  refine hasWord_of_keyword (by decide) (by decide) (by rw [List.map_reverse, hfold]; rfl)
    (last_of_blank (by simpa using hne') (by rwa [blank, List.all_reverse]) _) ?_
  exact head_of_gap (by simpa using hne) (by rwa [blank, List.all_reverse]) _

/-- What stands before the projection of a statement ends with white space. -/
theorem select?_eq_some {select rest : List Char} (h : select? text = some (select, rest)) :
    text = select ++ rest ∧ ∀ c ∈ select.getLast?, isWordChar c = false := by
  simp only [select?, Option.bind_eq_bind, Option.bind_eq_some_iff, Option.pure_def,
    Option.some.injEq, Prod.mk.injEq] at h
  obtain ⟨afterWord, hkeyword, projection, hblanks, rfl, rfl⟩ := h
  obtain ⟨space, hspace, -⟩ := exists_trimStart text
  obtain ⟨token, htoken, -⟩ := keywordChars?_eq_some hkeyword
  obtain ⟨gap, rfl, hne, hblank⟩ := blanks?_eq_some hblanks
  rw [htoken, ← List.append_assoc, ← List.append_assoc] at hspace
  have hfront : text.take (text.length - projection.length) = space ++ token ++ gap := by
    rw [hspace, List.length_append, Nat.add_sub_cancel, List.take_left]
  rw [hfront]
  exact ⟨hspace, last_of_blank hne hblank _⟩

/-- A text whose first word ends at another character than white space has no `SELECT` in front. -/
theorem select?_of_mark {front rest : List Char} {d : Char}
    (hfront : ∀ c ∈ front, isWordChar c = true) (hdblank : isBlank d = false)
    (hdletter : foldsToLetter d = false) : select? (front ++ d :: rest) = none := by
  have hblank : ∀ c ∈ front, isBlank c = false := fun c hc => isBlank_of_isWordChar (hfront c hc)
  have hstart : trimStart (front ++ d :: rest) = front ++ d :: rest := by
    cases front with
    | nil => exact trimStart_of_head ⟨d, rfl, hdblank⟩
    | cons c front => exact trimStart_of_head ⟨c, rfl, hblank c (by simp)⟩
  by_contra hsome
  obtain ⟨found, hfound⟩ := Option.ne_none_iff_exists'.1 hsome
  simp only [select?, hstart, Option.bind_eq_bind, Option.bind_eq_some_iff] at hfound
  obtain ⟨afterWord, hkeyword, projection, hblanks, -⟩ := hfound
  obtain ⟨token, htoken, htokenFold⟩ := keywordChars?_eq_some hkeyword
  obtain ⟨gap, rfl, hgapne, hgap⟩ := blanks?_eq_some hblanks
  obtain ⟨g, gap, rfl⟩ := List.exists_cons_of_ne_nil hgapne
  have hgblank : isBlank g = true := List.all_eq_true.1 hgap g (by simp)
  have hletters : ∀ c ∈ token, foldsToLetter c = true := by
    have hkey : ∀ k ∈ "select".toList, k.isAlpha = true := by decide
    exact fun c hc => hkey _ (htokenFold ▸ List.mem_map_of_mem hc)
  -- Behind the letters of the keyword comes white space, but the first to come is the mark.
  rw [List.cons_append, List.append_eq_append_iff] at htoken
  rcases htoken with ⟨more, rfl, hsplit⟩ | ⟨more, rfl, hsplit⟩
  · cases more with
    | nil =>
      obtain rfl := (List.cons.inj hsplit).1
      simp [hgblank] at hdblank
    | cons e more =>
      obtain rfl := (List.cons.inj hsplit).1
      simp [hletters d (by simp)] at hdletter
  · cases more with
    | nil =>
      obtain rfl := (List.cons.inj hsplit).1
      simp [hgblank] at hdblank
    | cons e more =>
      obtain rfl := (List.cons.inj hsplit).1
      simp [hblank g (by simp)] at hgblank

/-- A `DISTINCT` that is read ends with white space. -/
theorem distinct_append (text : List Char) :
    (distinct text).1 ++ (distinct text).2 = text ∧
      ∀ c ∈ (distinct text).1.getLast?, isWordChar c = false := by
  rw [distinct]
  split
  · rename_i rest h
    rw [Option.bind_eq_bind, Option.bind_eq_some_iff] at h
    obtain ⟨afterWord, hkeyword, hblanks⟩ := h
    obtain ⟨token, rfl, -⟩ := keywordChars?_eq_some hkeyword
    obtain ⟨gap, rfl, hne, hblank⟩ := blanks?_eq_some hblanks
    rw [← List.append_assoc, List.length_append, Nat.add_sub_cancel, List.take_left]
    exact ⟨rfl, last_of_blank hne hblank _⟩
  · simp

theorem foldsToLetter_of_isDecimalDigit {c : Char} (h : isDecimalDigit c = true) :
    foldsToLetter c = false := by
  cases hc : foldsToLetter c with
  | false => rfl
  | true =>
    by_cases hs : c = 'ſ'
    · subst hs
      exact absurd h (by decide +kernel)
    by_cases hk : c = '\u212a'
    · subst hk
      exact absurd h (by decide +kernel)
    rw [foldsToLetter, fold, if_neg hs, if_neg hk, isAlpha_toLower] at hc
    rw [isDecimalDigit_of_isAlpha hc] at h
    contradiction

/-- White space and a parenthesis at most come before what follows a limit. -/
theorem afterTop?_eq_some {rest : List Char} (h : afterTop? text = some rest) :
    ∃ gap, text = gap ++ rest ∧ (∀ c ∈ gap, foldsToLetter c = false) ∧
      ∀ front, ∀ c ∈ (front ++ gap).getLast?, isWordChar c = false := by
  rw [afterTop?, Option.orElse_eq_some] at h
  rcases h with hclose | ⟨-, hblanks⟩
  · rw [Option.bind_eq_bind, Option.bind_eq_some_iff] at hclose
    obtain ⟨afterClose, hclose, hblanks⟩ := hclose
    obtain ⟨space, hspace, hspaceBlank⟩ := exists_trimStart text
    obtain ⟨gap, rfl, hne, hblank⟩ := blanks?_eq_some hblanks
    refine ⟨space ++ ')' :: gap, ?_, ?_, fun front => ?_⟩
    · rw [char?_eq_some hclose] at hspace
      simpa using hspace
    · intro c hc
      rw [List.mem_append, List.mem_cons] at hc
      rcases hc with hc | rfl | hc
      · exact foldsToLetter_of_isBlank (List.all_eq_true.1 hspaceBlank c hc)
      · decide
      · exact foldsToLetter_of_isBlank (List.all_eq_true.1 hblank c hc)
    · simpa using last_of_blank hne hblank (front ++ (space ++ [')']))
  · obtain ⟨gap, rfl, hne, hblank⟩ := blanks?_eq_some hblanks
    exact ⟨gap, rfl, fun c hc => foldsToLetter_of_isBlank (List.all_eq_true.1 hblank c hc),
      last_of_blank hne hblank⟩

/-- White space or a parenthesis, or nothing, comes before the number of a limit. -/
theorem exists_trimStart_open (cs : List Char) :
    ∃ front, cs = front ++ trimStart ((char? '(' (trimStart cs)).getD (trimStart cs)) ∧
      ∀ c ∈ front, foldsToLetter c = false := by
  obtain ⟨space, hspace, hblank⟩ := exists_trimStart cs
  have hspaceLetters : ∀ c ∈ space, foldsToLetter c = false := fun c hc =>
    foldsToLetter_of_isBlank (List.all_eq_true.1 hblank c hc)
  obtain ⟨space', hspace', hblank'⟩ :=
    exists_trimStart ((char? '(' (trimStart cs)).getD (trimStart cs))
  have hspaceLetters' : ∀ c ∈ space', foldsToLetter c = false := fun c hc =>
    foldsToLetter_of_isBlank (List.all_eq_true.1 hblank' c hc)
  cases hopen : char? '(' (trimStart cs) with
  | none =>
    rw [hopen, Option.getD_none] at hspace'
    refine ⟨space ++ space', ?_, List.forall_mem_append.2 ⟨hspaceLetters, hspaceLetters'⟩⟩
    rw [Option.getD_none, List.append_assoc, ← hspace', ← hspace]
  | some rest =>
    rw [hopen, Option.getD_some] at hspace'
    refine ⟨space ++ '(' :: space', ?_, List.forall_mem_append.2
      ⟨hspaceLetters, List.forall_mem_cons.2 ⟨by decide, hspaceLetters'⟩⟩⟩
    rw [Option.getD_some, List.append_assoc, List.cons_append, ← hspace', ← char?_eq_some hopen,
      ← hspace]

/-- White space comes before what a limit behind `SELECT` leaves, and no `LIMIT` begins in the
limit. -/
theorem movedTop?_eq_some {after : List Char} (h : movedTop? text = some after) :
    ∃ front, text = front ++ after ∧ (∀ c ∈ front, fold c ≠ 'l') ∧
      ∀ c ∈ front.getLast?, isWordChar c = false := by
  simp only [movedTop?, Option.bind_eq_some_iff] at h
  obtain ⟨cs, hkeyword, ⟨n, ending⟩, hdigits, hafter⟩ := h
  obtain ⟨token, rfl, htoken⟩ := keywordChars?_eq_some hkeyword
  obtain ⟨front, hfront, hletters⟩ := exists_trimStart_open cs
  obtain ⟨hdigits, -, hn, -⟩ := digits?_eq_some hdigits
  obtain ⟨gap, rfl, hgapLetters, hgap⟩ := afterTop?_eq_some hafter
  have hne : ∀ c, foldsToLetter c = false → fold c ≠ 'l' := by
    rintro c hc heq
    rw [foldsToLetter, heq] at hc
    exact absurd hc (by decide)
  refine ⟨(token ++ front ++ n) ++ gap, ?_, ?_, hgap _⟩
  · nth_rewrite 1 [hfront]
    rw [hdigits]
    simp
  · simp only [List.forall_mem_append]
    refine ⟨⟨⟨fun c hc heq => ?_, fun c hc => hne c (hletters c hc)⟩, fun c hc =>
      hne c (foldsToLetter_of_isDecimalDigit (hn c hc))⟩, fun c hc => hne c (hgapLetters c hc)⟩
    have hmem : fold c ∈ "top".toList := htoken ▸ List.mem_map_of_mem hc
    rw [heq] at hmem
    exact absurd hmem (by decide)

/-- The end of a statement without a semicolon, and the semicolon. -/
def splitEnd (text : List Char) : List Char × List Char :=
  match char? ';' (trimEnd text).reverse with
  | some cs => (trimEnd cs.reverse, [';'])
  | none => (trimEnd text, [])

theorem exists_splitEnd (text : List Char) :
    ∃ ending, text = (splitEnd text).1 ++ ending ∧ (∀ c ∈ ending, isBlank c = true ∨ c = ';') ∧
      ∀ c ∈ (splitEnd text).2, c = ';' := by
  obtain ⟨gap, hgap, hblank⟩ := exists_trimEnd text
  have hgapBlank := List.all_eq_true.1 hblank
  rw [splitEnd]
  split
  · rename_i cs hsemicolon
    obtain ⟨gap', hgap', hblank'⟩ := exists_trimEnd cs.reverse
    have hend : trimEnd text = cs.reverse ++ [';'] := by
      rw [← List.reverse_inj, char?_eq_some hsemicolon]
      simp
    refine ⟨gap' ++ ';' :: gap, ?_, ?_, by simp⟩
    · rw [hgap, hend]
      nth_rewrite 1 [hgap']
      simp
    · intro c hc
      simp only [List.mem_append, List.mem_cons] at hc
      rcases hc with hc | rfl | hc
      · exact Or.inl (List.all_eq_true.1 hblank' c hc)
      · exact Or.inr rfl
      · exact Or.inl (hgapBlank c hc)
  · exact ⟨gap, hgap, fun c hc => Or.inl (hgapBlank c hc), by simp⟩

theorem isWordChar_of_ending {c : Char} (h : isBlank c = true ∨ c = ';') :
    isWordChar c = false := by
  rcases h with hblank | rfl
  · exact isWordChar_of_isBlank hblank
  · decide

/-- What a statement is once the limit behind its `SELECT` is moved to the end. -/
theorem toLimit_eq {select rest cs n ending after : List Char}
    (hselect : select? text = some (select, rest))
    (hkeyword : keyword? "top" (distinct rest).2 = some cs)
    (hdigits : digits? (trimStart ((char? '(' (trimStart cs)).getD (trimStart cs))) =
      some (n, ending))
    (hafter : afterTop? ending = some after) :
    toLimit text = select ++ ((distinct rest).1 ++ ((splitEnd after).1 ++
      (" LIMIT ".toList ++ (n ++ (splitEnd after).2)))) := by
  simp only [toLimit, hselect, hkeyword, hdigits, hafter, Option.bind_eq_bind, Option.bind_some,
    Option.pure_def, Option.getD_some, splitEnd]
  cases char? ';' (trimEnd after).reverse <;> simp

/-- A limit behind `SELECT` moves to the end. -/
theorem exists_toLimit {select rest after : List Char}
    (hselect : select? text = some (select, rest)) (h : movedTop? (distinct rest).2 = some after) :
    ∃ n, (∀ c ∈ n, isDecimalDigit c = true) ∧
      toLimit text = select ++ ((distinct rest).1 ++ ((splitEnd after).1 ++
        (" LIMIT ".toList ++ (n ++ (splitEnd after).2)))) := by
  simp only [movedTop?, Option.bind_eq_some_iff] at h
  obtain ⟨cs, hkeyword, ⟨n, ending⟩, hdigits, hafter⟩ := h
  exact ⟨n, (digits?_eq_some hdigits).2.2.1, toLimit_eq hselect hkeyword hdigits hafter⟩

/-- Whether a statement has a limit behind its `SELECT` that is moved to the end. -/
def movesTop (text : List Char) : Bool :=
  (select? text).any fun found => (movedTop? (distinct found.2).2).isSome

theorem toLimit_of_movesTop (h : movesTop text = false) : toLimit text = text := by
  cases hselect : select? text with
  | none => exact toLimit_of_select hselect
  | some found =>
    rw [movesTop, hselect, Option.any_some, Option.isSome_eq_false_iff,
      Option.isNone_iff_eq_none] at h
    exact toLimit_eq_self hselect rfl h

/-- Where the parts of a statement stand once its limit is moved. -/
theorem exists_of_movesTop (h : movesTop text = true) :
    ∃ front middle body ending n semicolon, text = front ++ (middle ++ (body ++ ending)) ∧
      toLimit text = front ++ (body ++ (" LIMIT ".toList ++ (n ++ semicolon))) ∧
      (∀ c ∈ front.getLast?, isWordChar c = false) ∧
      (∀ c ∈ middle.getLast?, isWordChar c = false) ∧ (∀ c ∈ ending, isWordChar c = false) ∧
      (∀ c ∈ n, isDecimalDigit c = true) ∧ (∀ c ∈ semicolon, isWordChar c = false) ∧
      ∀ c ∈ middle, fold c ≠ 'l' := by
  obtain ⟨⟨select, rest⟩, hselect, hmoved⟩ := Option.any_eq_true _ _ |>.1 h
  obtain ⟨after, hmoved⟩ := Option.isSome_iff_exists.1 hmoved
  obtain ⟨n, hn, hlimit⟩ := exists_toLimit hselect hmoved
  obtain ⟨hsplit, hfront⟩ := select?_eq_some hselect
  obtain ⟨hdistinct, hlast⟩ := distinct_append rest
  obtain ⟨middle, hmiddle, hletters, hmiddleLast⟩ := movedTop?_eq_some hmoved
  obtain ⟨ending, hending, hendingChars, hsemicolon⟩ := exists_splitEnd after
  refine ⟨select ++ (distinct rest).1, middle, (splitEnd after).1, ending, n, (splitEnd after).2,
    ?_, ?_, ?_, hmiddleLast, fun c hc => isWordChar_of_ending (hendingChars c hc), hn,
    fun c hc => isWordChar_of_ending (Or.inr (hsemicolon c hc)), hletters⟩
  · rw [← hending, ← hmiddle, List.append_assoc, hdistinct]
    exact hsplit
  · rw [hlimit, List.append_assoc]
  · exact last_append hfront hlast

/-- Whether a statement selects first a name that begins with `TOP` and goes on with the number of a
limit. -/
def hasGluedTop (text : List Char) : Bool :=
  (select? text).any fun found =>
    (keyword? "top" (distinct found.2).2).any fun cs =>
      (digits? cs).any fun found => (afterTop? found.2).isSome

/-- `TOP` limits a statement that has no such word exactly when it begins a name with the limit. -/
theorem movesTop_eq_hasGluedTop (h : hasWord "top" text = false) :
    movesTop text = hasGluedTop text := by
  rw [movesTop, hasGluedTop]
  cases hselect : select? text with
  | none => rfl
  | some found =>
    obtain ⟨select, rest⟩ := found
    rw [Option.any_some, Option.any_some, movedTop?]
    cases hkeyword : keyword? "top" (distinct rest).2 with
    | none => rfl
    | some cs =>
      rw [Option.bind_some, Option.any_some]
      obtain ⟨hsplit, hfront⟩ := select?_eq_some hselect
      obtain ⟨hdistinct, hlast⟩ := distinct_append rest
      obtain ⟨token, htoken, hfold⟩ := keywordChars?_eq_some hkeyword
      obtain ⟨c, cs, rfl, hc⟩ : ∃ c cs', cs = c :: cs' ∧ isWordChar c = true := by
        by_contra hno
        have hafter : ∀ c ∈ cs.head?, isWordChar c = false := fun c hc => by
          obtain ⟨cs', rfl⟩ := List.head?_eq_some_iff.1 hc
          simpa using fun hword => hno ⟨c, cs', rfl, hword⟩
        have hword : hasWord "top" ((select ++ (distinct rest).1) ++ (token ++ cs)) = true :=
          hasWord_of_keyword (by decide) (by decide) hfold (last_append hfront hlast) hafter
        rw [List.append_assoc, ← htoken, hdistinct, ← hsplit, h] at hword
        contradiction
      have hstart : trimStart (c :: cs) = c :: cs :=
        trimStart_of_head ⟨c, rfl, isBlank_of_isWordChar hc⟩
      have hopen : char? '(' (c :: cs) = none := by
        refine char?_eq_none fun heq => ?_
        obtain rfl := Option.some.inj heq
        exact absurd hc (by decide)
      rw [hstart, hopen, Option.getD_none, hstart]
      cases digits? (c :: cs) <;> rfl

/-- A number is no keyword. -/
theorem hasWord_of_digits {key : String} {n : List Char} (hn : ∀ c ∈ n, isDecimalDigit c = true)
    (hkey : ∃ c ∈ key.toList.head?, c.isAlpha = true) : hasWord key n = false := by
  obtain ⟨k, hk, halpha⟩ := hkey
  refine hasWordFrom_of_forall_fold hk fun c hc => ?_
  rintro rfl
  have hletter := foldsToLetter_of_isDecimalDigit (hn c hc)
  rw [foldsToLetter, halpha] at hletter
  contradiction

theorem head_limit (rest : List Char) : ∀ c ∈ (" LIMIT ".toList ++ rest).head?, isWordChar c =
    false := by
  simpa using (by decide : isWordChar ' ' = false)

/-- Moving a limit adds no word that begins an idiom. -/
theorem dateFree_toLimit (h : DateFree text) : DateFree (toLimit text) := by
  cases hmoves : movesTop text with
  | false => rwa [toLimit_of_movesTop hmoves]
  | true =>
    obtain ⟨front, middle, body, ending, n, semicolon, htext, hlimit, hfront, hmiddle, hending, hn,
      hsemicolon, -⟩ := exists_of_movesTop hmoves
    intro key hkey
    have hbefore := h key hkey
    rw [htext, hasWord_append (breaks_of_last hfront), hasWord_append (breaks_of_last hmiddle),
      hasWord_append (breaks_of_head fun c hc => hending c (List.mem_of_head? hc))] at hbefore
    simp only [Bool.or_eq_false_iff] at hbefore
    have hlimitWord : ∀ key ∈ dateWords, hasWord key " LIMIT ".toList = false := by decide +kernel
    have hhead := (spelled_of_mem_dateWords hkey).1
    rw [hlimit, hasWord_append (breaks_of_last hfront),
      hasWord_append (breaks_of_head (head_limit _)), hasWord_append (breaks_of_last (by decide)),
      hasWord_append (breaks_of_head fun c hc => hsemicolon c (List.mem_of_head? hc)), hbefore.1,
      hbefore.2.2.1, hlimitWord key hkey, hasWord_of_digits hn (Option.any_eq_true _ _ |>.1 hhead)]
    exact hasWordFrom_of_forall hsemicolon

/-- A limit that is moved leaves the word `LIMIT` behind. -/
theorem hasWord_toLimit (h : movesTop text = true) : hasWord "limit" (toLimit text) = true := by
  obtain ⟨front, _, body, _, n, semicolon, _, hlimit, hfront, -⟩ := exists_of_movesTop h
  rw [hlimit, hasWord_append (breaks_of_last hfront),
    hasWord_append (breaks_of_head (head_limit _)), hasWord_append (breaks_of_last (by decide))]
  have hword : hasWord "limit" " LIMIT ".toList = true := by decide +kernel
  rw [hword, Bool.true_or, Bool.or_true, Bool.or_true]

end RowLimit

/-! ### Passes -/

/-- The words that translation looks for, in small letters. -/
def idiomWords : List String :=
  dateWords ++ ["limit", "top"]

theorem limit_mem_idiomWords : "limit" ∈ idiomWords :=
  List.mem_append_right _ (by simp)

theorem top_mem_idiomWords : "top" ∈ idiomWords :=
  List.mem_append_right _ (by simp)

theorem spelled_of_mem_idiomWords {key : String} (h : key ∈ idiomWords) :
    key.toList.head?.any Char.isAlpha = true ∧ key ≠ "select" ∧ key ≠ "distinct" := by
  rcases List.mem_append.1 h with hdate | hlimit
  · obtain ⟨halpha, hnot⟩ := spelled_of_mem_dateWords hdate
    simp only [List.mem_cons, not_or] at hnot
    exact ⟨halpha, hnot.1, hnot.2.1⟩
  · revert key
    decide

/-- No word of `text` is one that translation looks for. -/
structure IdiomFree (text : List Char) : Prop where
  dates : DateFree text
  limit : hasWord "limit" text = false
  top : hasWord "top" text = false

theorem idiomFree_of_forall (h : ∀ key ∈ idiomWords, hasWord key text = false) :
    IdiomFree text where
  dates key hkey := h key (List.mem_append_left _ hkey)
  limit := h "limit" limit_mem_idiomWords
  top := h "top" top_mem_idiomWords

theorem toTop_of_limitFree (h : hasWord "limit" text = false) : toTop text = text := by
  refine toTop_of_trailingLimit ?_
  rw [← Option.isNone_iff_eq_none, ← Option.isSome_eq_false_iff]
  cases hsome : (trailingLimit? text).isSome with
  | false => rfl
  | true =>
    rw [hasWord_of_trailingLimit? hsome] at h
    contradiction

theorem translatePass_eq_toLimit (hdialect : dialect ≠ .sqlServer) (h : DateFree text) :
    translatePass dialect text = toLimit text := by
  rw [h.translatePass_eq]
  cases dialect <;> first | rfl | contradiction

/-- The word `LIMIT` stays, however many passes follow. -/
theorem hasWord_limit_iterate (hdialect : dialect ≠ .sqlServer) (h : DateFree text)
    (hlimit : hasWord "limit" text = true) (passes : Nat) :
    hasWord "limit" ((translatePass dialect)^[passes] text) = true := by
  induction passes generalizing text with
  | zero => exact hlimit
  | succ passes ih =>
    rw [Function.iterate_succ_apply, translatePass_eq_toLimit hdialect h]
    refine ih (dateFree_toLimit h) ?_
    cases hmoves : movesTop text with
    | false => rwa [toLimit_of_movesTop hmoves]
    | true => exact hasWord_toLimit hmoves

/-- A limit that a pass moves has left the word `LIMIT` behind after any number of passes. -/
theorem hasWord_limit_of_movesTop (hdialect : dialect ≠ .sqlServer) (h : DateFree text)
    (hmoves : movesTop text = true) {passes : Nat} (hpasses : passes ≠ 0) :
    hasWord "limit" ((translatePass dialect)^[passes] text) = true := by
  obtain ⟨more, rfl⟩ := Nat.exists_eq_succ_of_ne_zero hpasses
  rw [Function.iterate_succ_apply, translatePass_eq_toLimit hdialect h]
  exact hasWord_limit_iterate hdialect (dateFree_toLimit h) (hasWord_toLimit hmoves) more

/-- A text none of whose words translation looks for stays as it is in SQL Server.  In the other
dialects it stays exactly if it does not select first a name that begins with `TOP` and the number
of a limit. -/
theorem translate_untouched_iff (dialect : Dialect) (text : String)
    (h : ∀ key ∈ idiomWords, hasWord key text.toList = false) :
    translate dialect text = text ↔ dialect = .sqlServer ∨ hasGluedTop text.toList = false := by
  have hfree := idiomFree_of_forall h
  have hmoves := movesTop_eq_hasGluedTop hfree.top
  rw [← String.toList_inj, translate_toList]
  constructor
  · intro hsame
    by_contra hglued
    rw [not_or, Bool.not_eq_false, ← hmoves] at hglued
    have hlimit := hasWord_limit_of_movesTop hglued.1 hfree.dates hglued.2
      (by decide : maxPasses ≠ 0)
    rw [hsame, hfree.limit] at hlimit
    contradiction
  · intro hstays
    refine Settled.iterate ?_ maxPasses
    rw [Settled, hfree.dates.translatePass_eq]
    cases dialect with
    | sqlServer => exact toTop_of_limitFree hfree.limit
    | sqlite | mySql =>
      refine toLimit_of_movesTop ?_
      simpa [hmoves] using hstays

/-- Names that begin or end like a keyword stay, unless one of them begins with `TOP` and a number
and is selected first. -/
theorem translate_lookalikes :
    let sql := "SELECT birth_year, TOP10, yearly_total FROM t"
    let glued := "SELECT TOP10 FROM t"
    (∀ key ∈ idiomWords, hasWord key sql.toList = false) ∧
      (∀ key ∈ idiomWords, hasWord key glued.toList = false) ∧
      (∀ dialect, translate dialect sql = sql) ∧ translate .sqlServer glued = glued ∧
      translate .sqlite glued ≠ glued ∧ translate .mySql glued ≠ glued := by
  intro sql glued
  have hsql : ∀ key ∈ idiomWords, hasWord key sql.toList = false := by decide +kernel
  have hglued : ∀ key ∈ idiomWords, hasWord key glued.toList = false := by decide +kernel
  have hmoves : hasGluedTop glued.toList = true := by decide +kernel
  refine ⟨hsql, hglued, fun dialect => ?_, ?_, ?_, ?_⟩
  · exact (translate_untouched_iff dialect sql hsql).2 (Or.inr (by decide +kernel))
  · exact (translate_untouched_iff .sqlServer glued hglued).2 (Or.inl rfl)
  · rw [ne_eq, translate_untouched_iff .sqlite glued hglued, hmoves]
    decide
  · rw [ne_eq, translate_untouched_iff .mySql glued hglued, hmoves]
    decide

end AskSql
