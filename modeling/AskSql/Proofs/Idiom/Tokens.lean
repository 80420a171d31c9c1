import AskSql.Proofs.Idiom.Calls

/-! The texts that arguments of date functions are made of besides the expressions in them:
keywords, names of parts and units, numbers, quoted texts and the white space between them. -/

namespace AskSql.Idiom

open Text Sql

variable {text front back : List Char}

/-! ### Characters -/

theorem isWordChar_of_isAlpha {c : Char} (h : c.isAlpha = true) : isWordChar c = true :=
  isWordChar_of_isNameChar (by simp [isNameChar, Char.isAlphanum, h])

theorem isWordChar_of_isDigit {c : Char} (h : c.isDigit = true) : isWordChar c = true :=
  isWordChar_of_isNameChar (by simp [isNameChar, Char.isAlphanum, h])

theorem isNameStart_of_isDigit {c : Char} (h : c.isDigit = true) : isNameStart c = false := by
  cases hs : isNameStart c with
  | false => rfl
  | true =>
    unfold isNameStart Char.isAlpha Char.isUpper Char.isLower at hs
    simp only [Char.isDigit, Bool.or_eq_true, Bool.and_eq_true, decide_eq_true_eq, beq_iff_eq,
      UInt32.le_iff_toNat_le] at hs h
    have h1 : '9'.val.toNat = 57 := rfl
    have h2 : 'A'.val.toNat = 65 := rfl
    have h3 : 'a'.val.toNat = 97 := rfl
    rcases hs with (hs | hs) | rfl
    · omega
    · omega
    · exact absurd h.2 (by decide)

theorem toLower_of_isDigit {c : Char} (h : c.isDigit = true) : c.toLower = c := by
  rcases toLower_eq_or_isAlpha c with heq | halpha
  · exact heq
  · have hstart := isNameStart_of_isDigit h
    simp [isNameStart, halpha] at hstart

theorem fold_of_isDigit {c : Char} (h : c.isDigit = true) : fold c = c := by
  have hs : c ≠ 'ſ' := by rintro rfl; exact absurd h (by decide)
  have hk : c ≠ '\u212a' := by rintro rfl; exact absurd h (by decide)
  simp [fold, hs, hk, toLower_of_isDigit h]

theorem fold_of_isAlpha {c : Char} (h : c.isAlpha = true) : fold c = c.toLower := by
  have hs : c ≠ 'ſ' := by rintro rfl; exact absurd h (by decide)
  have hk : c ≠ '\u212a' := by rintro rfl; exact absurd h (by decide)
  simp [fold, hs, hk]

theorem isAlpha_toLower (c : Char) : c.toLower.isAlpha = c.isAlpha := by
  by_cases h : c.val ≥ 'A'.val ∧ c.val ≤ 'Z'.val
  · have hall : ∀ n < 91, 65 ≤ n → (Char.ofNat n).toLower.isAlpha = (Char.ofNat n).isAlpha := by
      decide
    have hnat : c.toNat < 91 ∧ 65 ≤ c.toNat := by
      have h1 := UInt32.le_iff_toNat_le.1 h.1
      have h2 := UInt32.le_iff_toNat_le.1 h.2
      have hA : 'A'.val.toNat = 65 := rfl
      have hZ : 'Z'.val.toNat = 90 := rfl
      have hc : c.val.toNat = c.toNat := rfl
      omega
    have hc := hall c.toNat hnat.1 hnat.2
    rwa [Char.ofNat_toNat] at hc
  · unfold Char.toLower
    rw [dif_neg h]

theorem foldsToLetter_of_isAlpha {c : Char} (h : c.isAlpha = true) : foldsToLetter c = true := by
  rw [foldsToLetter, fold_of_isAlpha h, isAlpha_toLower, h]

theorem isWordChar_of_foldsToLetter {c : Char} (h : foldsToLetter c = true) :
    isWordChar c = true := by
  by_cases hs : c = 'ſ'
  · subst hs
    decide +kernel
  by_cases hk : c = '\u212a'
  · subst hk
    decide +kernel
  rw [foldsToLetter, fold, if_neg hs, if_neg hk, isAlpha_toLower] at h
  exact isWordChar_of_isAlpha h

theorem map_toLower_of_map_fold {key : List Char} (h : text.map fold = key)
    (hkey : 's' ∉ key ∧ 'k' ∉ key) : text.map Char.toLower = key := by
  rw [← h]
  refine List.map_congr_left fun c hc => ?_
  have hmem : fold c ∈ key := h ▸ List.mem_map_of_mem hc
  unfold fold at hmem ⊢
  split
  · rename_i hs
    rw [if_pos hs] at hmem
    exact absurd hmem hkey.1
  · rename_i hs
    rw [if_neg hs] at hmem
    split
    · rename_i hk
      rw [if_pos hk] at hmem
      exact absurd hmem hkey.2
    · rfl

/-- Only letters fold to letters. -/
theorem eq_of_fold {c d : Char} (hd : d.isAlpha = false) (h : fold c = d) : c = d := by
  subst h
  unfold fold at hd ⊢
  split
  · simp_all
  split
  · simp_all
  · rename_i hs hk
    rw [if_neg hs, if_neg hk, isAlpha_toLower] at hd
    rcases toLower_eq_or_isAlpha c with heq | halpha
    · exact heq.symm
    · rw [halpha] at hd
      contradiction

/-! ### Clock keywords -/

/-- Both clock keywords have an underscore. -/
theorem clockKeyword?_of_not_mem {word : List Char} (h : '_' ∉ word) :
    clockKeyword? word = none := by
  cases hk : clockKeyword? word with
  | none => rfl
  | some clock =>
    have hall : ∀ entry ∈ [("current_date", Clock.date), ("current_timestamp", .now)],
        '_' ∈ entry.1.toList := by decide
    obtain ⟨front, back, hsplit, -⟩ := List.lookup_eq_some_iff.1 hk
    have hmem := hall (String.ofList (word.map fold), clock) (by rw [hsplit]; simp)
    rw [String.toList_ofList, List.mem_map] at hmem
    obtain ⟨c, hc, hfold⟩ := hmem
    rw [eq_of_fold (by decide) hfold] at hc
    exact absurd hc h

/-- A name shorter than both clock keywords is neither. -/
theorem clockKeyword?_of_length {word : List Char} (h : word.length < 12) :
    clockKeyword? word = none := by
  cases hk : clockKeyword? word with
  | none => rfl
  | some clock =>
    have hall : ∀ entry ∈ [("current_date", Clock.date), ("current_timestamp", .now)],
        12 ≤ entry.1.toList.length := by decide
    obtain ⟨front, back, hsplit, -⟩ := List.lookup_eq_some_iff.1 hk
    have hlen := hall (String.ofList (word.map fold), clock) (by rw [hsplit]; simp)
    rw [String.toList_ofList, List.length_map] at hlen
    omega

theorem length_of_sameAscii {name key : List Char} (h : sameAscii name key = true) :
    name.length = key.length := by
  have hlen := congrArg List.length (beq_iff_eq.1 h)
  simpa using hlen

/-- A word is no function if each function has a character in its name that the word has not. -/
theorem ofName?_of_forall {p : Char → Bool} {word : List Char}
    (hp : ∀ entry ∈ DateFunction.names, ∃ d ∈ entry.1.toList, p d = false)
    (h : ∀ c ∈ word, p c.toUpper = true) : DateFunction.ofName? word = none := by
  cases hn : DateFunction.ofName? word with
  | none => rfl
  | some function =>
    obtain ⟨front, back, hsplit, -⟩ := List.lookup_eq_some_iff.1 hn
    obtain ⟨d, hd, hfalse⟩ := hp (String.ofList (upperAscii word), function) (by rw [hsplit]; simp)
    rw [String.toList_ofList, upperAscii, List.mem_map] at hd
    obtain ⟨c, hc, rfl⟩ := hd
    rw [h c hc] at hfalse
    contradiction

theorem toUpper_of_isDigit {c : Char} (h : c.isDigit = true) : c.toUpper = c := by
  rcases toUpper_eq_or_isAlpha c with heq | halpha
  · exact heq
  · have hstart := isNameStart_of_isDigit h
    simp [isNameStart, halpha] at hstart

/-- Each name of a function has a character that numbers do not have. -/
theorem ofName?_of_numeric {word : List Char}
    (h : ∀ c ∈ word, c.isDigit = true ∨ c ∈ ['e', '.', '+', '-']) :
    DateFunction.ofName? word = none := by
  refine @ofName?_of_forall (fun d => d.isDigit || ['E', '.', '+', '-'].contains d) _ (by decide)
    fun c hc => ?_
  rcases h c hc with hdigit | hmem
  · simp [toUpper_of_isDigit hdigit, hdigit]
  · simp only [List.mem_cons, List.not_mem_nil, or_false] at hmem
    rcases hmem with rfl | rfl | rfl | rfl <;> decide

/-- A number is quiet, with a fraction and an exponent or without. -/
theorem quiet_of_numeric (h : ∀ c ∈ text, c.isDigit = true ∨ c ∈ ['e', '.', '+', '-']) :
    Quiet text := by
  have hne : ∀ d : Char, d.isDigit = false → d ∉ ['e', '.', '+', '-'] → d ∉ text := by
    intro d hdigit hother hmem
    rcases h d hmem with hd | hd
    · simp [hd] at hdigit
    · exact hother hd
  refine quiet_of_forall (insideLiteral_of_not_mem fun c hc => ?_) fun word hword => ⟨?_, ?_⟩
  · rw [beq_eq_false_iff_ne]
    rintro rfl
    exact hne _ (by decide) (by decide) hc
  · exact clockKeyword?_of_not_mem fun hmem => hne '_' (by decide) (by decide) (hword _ hmem)
  · exact ofName?_of_numeric fun c hc => h c (hword c hc)

/-- No clock keyword stands in `text` where it could be rewritten. -/
def ClockFree (text : List Char) : Prop :=
  ∀ write, Rewrites (rewriteClockAt? write) text text

theorem clockFree_of_not_mem (h : '_' ∉ text) (hquotes : insideLiteral text = false) :
    ClockFree text := by
  intro write before rest _ hapart
  have hself := @rewriteWordsFrom_self (rewriteClockAt? write) before text _ false
    fun front c back htext _ _ _ => by
      have hapartBack : Apart (c :: back) rest := by
        intro d hd
        exact hapart d (by rw [htext, List.getLast?_append, Option.mem_def.1 hd]; rfl)
      have hplain : '_' ∉ (word (c :: back ++ rest)).1 := fun hmem =>
        h (htext ▸ List.mem_append_right _ (hapartBack.mem_of_mem_word (by simp) hmem))
      simpa [rewriteClockAt?, clockAt?] using clockKeyword?_of_not_mem hplain
  rw [hself, hquotes]
  rfl

theorem ClockFree.append (hf : ClockFree front) (hb : ClockFree back) (hjoin : Joins front back) :
    ClockFree (front ++ back) :=
  fun write => (hf write).append (hb write) hjoin

theorem clockFree_of_forall (h : ∀ c ∈ text, c ≠ '\'' ∧ c ≠ '_') : ClockFree text :=
  clockFree_of_not_mem (fun hmem => (h _ hmem).2 rfl)
    (insideLiteral_of_not_mem fun c hc => beq_eq_false_iff_ne.2 (h c hc).1)

/-- A call is no clock keyword if its name is none. -/
theorem clockFree_written {name : List Char} {args : List (List Char)} (h : Written name args text)
    (hname : IsName name) (hlength : name.length < 12) (hargs : ∀ arg ∈ args, IsArg arg)
    (hne : args ≠ []) (hfree : ∀ arg ∈ args, ClockFree arg) : ClockFree text := by
  obtain ⟨inner, hcall, -⟩ := h.isCall hname hargs hne
  refine fun write => rewrites_written h hname (fun arg harg => hfree arg harg write) fun rest => ?_
  obtain ⟨gap, -, hword⟩ := hcall.word_eq rest
  simp [rewriteClockAt?, clockAt?, hword, clockKeyword?_of_length hlength]

/-! ### Tame texts -/

/-- `text` can stand in an argument and has no clock keyword. -/
structure Tame (text : List Char) : Prop where
  closed : Closed text
  quotes : insideLiteral text = false
  plain : '_' ∉ text

theorem Tame.clockFree (h : Tame text) : ClockFree text :=
  clockFree_of_not_mem h.plain h.quotes

instance (text : List Char) : Decidable (Tame text) :=
  decidable_of_iff (Closed text ∧ insideLiteral text = false ∧ '_' ∉ text)
    ⟨fun h => ⟨h.1, h.2.1, h.2.2⟩, fun h => ⟨h.closed, h.quotes, h.plain⟩⟩

theorem Tame.append (hf : Tame front) (hb : Tame back) : Tame (front ++ back) where
  closed := hf.closed.append hb.closed
  quotes := by simp [insideLiteral_append, hf.quotes, hb.quotes]
  plain := by simp [hf.plain, hb.plain]

theorem tame_of_forall (h : ∀ c ∈ text, isMark c = false ∧ c ≠ '_') : Tame text where
  closed := closed_of_not_isMark fun c hc => (h c hc).1
  quotes := by
    refine insideLiteral_of_not_mem fun c hc => beq_eq_false_iff_ne.2 ?_
    rintro rfl
    exact absurd (h _ hc).1 (by decide)
  plain := fun hmem => (h '_' hmem).2 rfl

theorem tame_of_blank (h : blank text = true) : Tame text :=
  tame_of_forall fun c hc => by
    have hc : isBlank c = true := List.all_eq_true.1 h c hc
    refine ⟨isMark_of_isBlank hc, ?_⟩
    rintro rfl
    exact absurd hc (by decide)

/-- A tame text without parentheses calls nothing, unless it ends with white space. -/
theorem Tame.quiet (h : Tame text) (hopen : '(' ∉ text)
    (hlast : ∃ c ∈ text.getLast?, isBlank c = false) : Quiet text := by
  intro rewriteAt? hf before rest _ hapart
  have hself := @rewriteWordsFrom_self rewriteAt? before text rest false
    fun front c back htext _ _ _ => by
      have hlastBack : ∃ d ∈ (c :: back).getLast?, isBlank d = false := by
        rwa [htext, List.getLast?_append_of_ne_nil _ (by simp)] at hlast
      have hmem : ∀ d ∈ c :: back, d ∈ text := fun d hd => htext ▸ List.mem_append_right _ hd
      have hapartBack : Apart (c :: back) rest := by
        intro d hd
        exact hapart d (by rw [htext, List.getLast?_append, Option.mem_def.1 hd]; rfl)
      have hclock : clockKeyword? (word (c :: back ++ rest)).1 = none :=
        clockKeyword?_of_not_mem fun hword =>
          h.plain (hmem _ (hapartBack.mem_of_mem_word (by simp) hword))
      have hstop : (trimStart (word (c :: back ++ rest)).2).head? ≠ some '(' := by
        cases hafter : (c :: back).dropWhile isWordChar with
        | nil =>
          have hall := List.dropWhile_eq_nil_iff.1 hafter
          obtain ⟨d, hd, -⟩ := hlastBack
          obtain ⟨hhead, hrest⟩ := hapartBack d hd (hall d (List.mem_of_getLast? hd))
          rwa [word_append hall hhead]
        | cons e after =>
          have hsuffix : e :: after <:+ c :: back := hafter ▸ List.dropWhile_suffix _
          obtain ⟨d, hd, hblank⟩ := hlastBack
          have hdAfter : d ∈ e :: after := by
            obtain ⟨taken, htaken⟩ := hsuffix
            rw [← htaken, List.getLast?_append_of_ne_nil _ (by simp)] at hd
            exact List.mem_of_getLast? hd
          obtain ⟨f, more, hmore⟩ : ∃ f more, trimStart (e :: after) = f :: more := by
            refine List.exists_cons_of_ne_nil fun hnil => ?_
            have hd := List.dropWhile_eq_nil_iff.1 hnil d hdAfter
            simp [hblank] at hd
          have hf : f ∈ text :=
            hmem f (hsuffix.mem ((List.dropWhile_suffix _).mem (by rw [← trimStart, hmore]; simp)))
          have hsplit : (word (c :: back ++ rest)).2 = e :: after ++ rest := by
            simp only [word, List.dropWhile_append, hafter, List.isEmpty_cons]
            rfl
          rw [hsplit, trimStart_append_of_head (by rw [hmore]; rfl), hmore]
          rintro hparen
          obtain rfl : f = '(' := by simpa using hparen
          exact hopen hf
      have hnone := hf (word (c :: back ++ rest)).1 (word (c :: back ++ rest)).2
        (fun d hd => List.mem_takeWhile_imp hd) head_dropWhile hclock (Or.inr hstop)
      rwa [word, List.takeWhile_append_dropWhile] at hnone
  rw [hself, h.quotes]
  rfl

theorem quote_not_mem_of_blank {gap : List Char} (h : blank gap = true) : '\'' ∉ gap :=
  fun hmem => not_quote_of_isBlank (List.all_eq_true.1 h _ hmem) rfl

theorem trimmed_of_forall (hne : text ≠ []) (h : ∀ c ∈ text, isBlank c = false) : Trimmed text where
  head := ⟨_, List.head?_eq_some_head hne, h _ (List.head_mem hne)⟩
  last := ⟨_, List.getLast?_eq_some_getLast hne, h _ (List.getLast_mem hne)⟩

/-- `text` in single quotes. -/
def quoted (text : List Char) : List Char :=
  '\'' :: text ++ ['\'']

theorem nest_quoted (h : '\'' ∉ text) (rest : List Char) :
    nest (.quoted '\'', 0) (text ++ '\'' :: rest) = nest (.code, 0) rest := by
  induction text with
  | nil => simp [nestStep, Region.next]
  | cons c text ih =>
    have hc : c ≠ '\'' := by
      rintro rfl
      simp at h
    simpa [nestStep, Region.next, hc] using ih fun hmem => h (List.mem_cons_of_mem _ hmem)

theorem tame_quoted (hquote : '\'' ∉ text) (hplain : '_' ∉ text) : Tame (quoted text) where
  closed := by
    have h := nest_quoted hquote []
    rw [Closed, quoted, List.cons_append, nest_cons]
    simpa [nestStep, Region.next, Region.isQuote] using h
  quotes := by
    have h : insideLiteral text = false := insideLiteral_of_not_mem fun c hc => by
      rw [beq_eq_false_iff_ne]
      rintro rfl
      exact hquote hc
    rw [quoted, List.cons_append, insideLiteral_cons, insideLiteral_append, h]
    rfl
  plain := by simpa [quoted] using hplain

theorem trimmed_quoted (text : List Char) : Trimmed (quoted text) where
  head := ⟨'\'', by simp [quoted], by decide⟩
  last := ⟨'\'', by rw [quoted, List.getLast?_concat]; rfl, by decide⟩

theorem isArg_quoted (hquote : '\'' ∉ text) (hplain : '_' ∉ text) : IsArg (quoted text) :=
  ⟨(tame_quoted hquote hplain).closed, trimmed_quoted text⟩

theorem calm_quoted {content : List Char} (hquote : '\'' ∉ content) : Calm (quoted content) := by
  have h := calm_literal content
  rwa [doubled_of_not_mem hquote] at h

/-! ### Mute texts -/

/-- A tame text that calls nothing and adds no interval. -/
structure Mute (text : List Char) : Prop extends Tame text where
  calls : '(' ∉ text
  calm : Calm text

namespace Mute

theorem append (hf : Mute front) (hb : Mute back) : Mute (front ++ back) where
  toTame := hf.toTame.append hb.toTame
  calls := by simp [hf.calls, hb.calls]
  calm := hf.calm.append hb.calm

theorem quoted (h : Mute text) (hquote : '\'' ∉ text) : Mute (quoted text) where
  toTame := tame_quoted hquote h.plain
  calls := by simp [Idiom.quoted, h.calls]
  calm := calm_quoted hquote

end Mute

theorem mute_of_forall (h : ∀ c ∈ text, isMark c = false ∧ c ∉ ['_', '+', '-']) : Mute text where
  toTame := tame_of_forall fun c hc => ⟨(h c hc).1, fun heq => (h c hc).2 (by simp [heq])⟩
  calls hmem := absurd (h _ hmem).1 (by decide)
  calm := calm_of_forall fun c hc => by
    obtain ⟨hmark, hother⟩ := h c hc
    refine ⟨?_, ?_, ?_⟩
    · rintro rfl
      simp at hother
    · rintro rfl
      simp at hother
    · rintro rfl
      exact absurd hmark (by decide)

theorem mute_of_blank (h : blank text = true) : Mute text :=
  mute_of_forall fun c hc => by
    have hc : isBlank c = true := List.all_eq_true.1 h c hc
    refine ⟨isMark_of_isBlank hc, fun hmem => ?_⟩
    simp only [List.mem_cons, List.not_mem_nil, or_false] at hmem
    rcases hmem with rfl | rfl | rfl <;> exact absurd hc (by decide)

theorem mute_of_letters (h : ∀ c ∈ text, foldsToLetter c = true) : Mute text :=
  mute_of_forall fun c hc => by
    have hletter := h c hc
    refine ⟨isMark_of_isWordChar (isWordChar_of_foldsToLetter hletter), fun hmem => ?_⟩
    simp only [List.mem_cons, List.not_mem_nil, or_false] at hmem
    rcases hmem with rfl | rfl | rfl <;> exact absurd hletter (by decide)

/-! ### Keywords -/

/-- `text` reads `word`, which is in small letters, up to case. -/
def Keyword (word : String) (text : List Char) : Prop :=
  text.map fold = word.toList

namespace Keyword

variable {word : String} (h : Keyword word text)
include h

theorem ne_nil (hword : word ≠ "") : text ≠ [] := by
  rintro rfl
  have hnil : word.toList = [] := h.symm
  exact hword (String.toList_eq_nil_iff.1 hnil)

/-- What holds of letters and of the other characters of a keyword holds of all its spellings. -/
theorem forall_mem {p : Char → Prop} (hletter : ∀ c, foldsToLetter c = true → p c)
    (hother : ∀ c ∈ word.toList, c.isAlpha = true ∨ p c) : ∀ c ∈ text, p c := by
  intro c hc
  have hmem : fold c ∈ word.toList := h ▸ List.mem_map_of_mem hc
  cases ha : (fold c).isAlpha with
  | true => exact hletter c ha
  | false =>
    rcases hother _ hmem with h | h
    · simp [h] at ha
    · rwa [eq_of_fold ha rfl]

theorem mute (hword : ∀ c ∈ word.toList, c.isAlpha = true) : Mute text :=
  mute_of_letters (h.forall_mem (fun _ => id) fun c hc => Or.inl (hword c hc))

theorem tame (hword : ∀ c ∈ word.toList, c.isAlpha = true) : Tame text :=
  (h.mute hword).toTame

theorem trimmed (hword : word ≠ "")
    (hchars : ∀ c ∈ word.toList, c.isAlpha = true ∨ isBlank c = false) :
    Trimmed text :=
  trimmed_of_forall (h.ne_nil hword)
    (h.forall_mem (fun _ hc => isBlank_of_isWordChar (isWordChar_of_foldsToLetter hc)) hchars)

/-- A keyword at the end of a text, and the white space before it, come off together. -/
theorem beforeKeyword?_append {gap : List Char} (hfront : ∃ c ∈ front.getLast?, isBlank c = false)
    (hgap : blank gap = true) (hne : gap ≠ []) :
    beforeKeyword? word (front ++ gap ++ text) = some front := by
  have hback : text.reverse.map fold = word.toList.reverse := by
    rw [List.map_reverse, h]
  have hrev : (front ++ gap ++ text).reverse = text.reverse ++ (gap.reverse ++ front.reverse) := by
    simp
  have hstart : trimStart front.reverse = front.reverse := trimStart_of_head (by simpa using hfront)
  have hblanks : blanks? (gap.reverse ++ front.reverse) = some front.reverse := by
    rw [blanks?_append (by simpa using hne) (by simpa [blank] using hgap), hstart]
  rw [beforeKeyword?, hrev, ← hback, keywordChars?_append]
  simp [hblanks]

end Keyword

end AskSql.Idiom
