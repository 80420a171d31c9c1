import Mathlib.Data.List.TakeWhile
import AskSql.Proofs.Idiom.Words

/-! Texts that rewriting leaves alone.  A quiet text has no clock keyword and no call of a date
function outside its string literals; a calm text has no sign before an interval there. -/

namespace AskSql.Idiom

open Text Sql

variable {rewriteAt? : List Char → Option (List Char × Nat)} {text rest : List Char}

/-! ### Words -/

/-- `rewriteAt?` rewrites nothing but clock keywords and calls of date functions. -/
def Selective (rewriteAt? : List Char → Option (List Char × Nat)) : Prop :=
  ∀ word rest, (∀ c ∈ word, isWordChar c = true) → (∀ c ∈ rest.head?, isWordChar c = false) →
    clockKeyword? word = none →
    (DateFunction.ofName? word = none ∨ (trimStart rest).head? ≠ some '(') →
    rewriteAt? (word ++ rest) = none

theorem rewriteClockAt?_eq_none {write : Clock → List Char} {word rest : List Char}
    (hword : ∀ c ∈ word, isWordChar c = true) (hrest : ∀ c ∈ rest.head?, isWordChar c = false)
    (hclock : clockKeyword? word = none) : rewriteClockAt? write (word ++ rest) = none := by
  simp [rewriteClockAt?, clockAt?, word_append hword hrest, hclock]

theorem selective_rewriteClockAt? (write : Clock → List Char) :
    Selective (rewriteClockAt? write) :=
  fun _ _ hword hrest hclock _ => rewriteClockAt?_eq_none hword hrest hclock

theorem callAt?_eq_none {word rest : List Char} (hword : ∀ c ∈ word, isWordChar c = true)
    (hrest : ∀ c ∈ rest.head?, isWordChar c = false)
    (hcall : DateFunction.ofName? word = none ∨ (trimStart rest).head? ≠ some '(') :
    callAt? (word ++ rest) = none := by
  simp only [callAt?, word_append hword hrest]
  rcases hcall with hname | hopen
  · simp [hname]
  · cases DateFunction.ofName? word <;> simp [char?_eq_none hopen]

theorem selective_rewriteCallAt? (write : Idiom → Option (List Char)) :
    Selective (rewriteCallAt? write) := by
  intro word rest hword hrest _ hcall
  simp [rewriteCallAt?, callAt?_eq_none hword hrest hcall]

/-- `text` stays wherever it stands, whatever is written for clocks and calls. -/
def Quiet (text : List Char) : Prop :=
  ∀ rewriteAt?, Selective rewriteAt? → Rewrites rewriteAt? text text

theorem Quiet.append {front back : List Char} (hf : Quiet front) (hb : Quiet back)
    (hjoin : Joins front back) : Quiet (front ++ back) :=
  fun rewriteAt? h => (hf rewriteAt? h).append (hb rewriteAt? h) hjoin

theorem quiet_literal (content : List Char) :
    Quiet ('\'' :: doubled '\'' content ++ ['\'']) :=
  fun _ _ => rewrites_literal content

/-- Whether the word at the front of `text` is neither a clock keyword nor the name of a call.  A
date function may end the text. -/
def isQuietAt (text : List Char) : Bool :=
  let (word, rest) := word text
  (clockKeyword? word).isNone &&
    ((DateFunction.ofName? word).isNone || rest.isEmpty || (trimStart rest).head?.any (· ≠ '('))

/-- Whether no word of a text is a clock keyword or the name of a call.  `free` says whether a word
may begin there, and `literal` whether the text begins inside a string literal. -/
def isQuietFrom (free literal : Bool) : List Char → Bool
  | [] => !literal
  | c :: cs =>
    (literal || !isWordChar c || !free || isQuietAt (c :: cs)) &&
      isQuietFrom (!isWordChar c && isAnchored (some c)) (literal != (c == '\'')) cs

/-- Whether no word of a text is a clock keyword or the name of a call. -/
def isQuiet (text : List Char) : Bool :=
  isQuietFrom true false text

theorem trimStart_append_of_head {front back : List Char} {c : Char}
    (h : (trimStart front).head? = some c) :
    trimStart (front ++ back) = trimStart front ++ back := by
  rw [trimStart, List.dropWhile_append, ← trimStart]
  cases hs : trimStart front with
  | nil => simp [hs] at h
  | cons d cs => simp

theorem rewriteAt?_eq_none_of_isQuietAt (hf : Selective rewriteAt?) (hne : text ≠ [])
    (h : isQuietAt text = true) (hapart : Apart text rest) : rewriteAt? (text ++ rest) = none := by
  simp only [isQuietAt, word, Bool.and_eq_true, Bool.or_eq_true, Option.isNone_iff_eq_none,
    List.isEmpty_iff] at h
  obtain ⟨hclock, hcall⟩ := h
  have hword : ∀ c ∈ text.takeWhile isWordChar, isWordChar c = true :=
    fun c hc => List.mem_takeWhile_imp hc
  cases hafter : text.dropWhile isWordChar with
  | nil =>
    have hall : text.takeWhile isWordChar = text := by
      simpa [hafter] using List.takeWhile_append_dropWhile (p := isWordChar) (l := text)
    rw [hall] at hword hclock
    obtain ⟨hrest, hopen⟩ := hapart _ (Option.mem_def.2 (List.getLast?_eq_some_getLast hne))
      (hword _ (List.getLast_mem hne))
    exact hf text rest hword hrest hclock (Or.inr hopen)
  | cons d after =>
    have hstop : ∀ c ∈ (d :: after ++ rest).head?, isWordChar c = false := by
      intro c hc
      obtain rfl : d = c := by simpa using hc
      have := List.head?_dropWhile_not isWordChar text
      simpa [hafter] using this
    have htext : text ++ rest = text.takeWhile isWordChar ++ (d :: after ++ rest) := by
      rw [← hafter, ← List.append_assoc, List.takeWhile_append_dropWhile]
    rw [htext]
    refine hf _ _ hword hstop hclock ?_
    rw [hafter] at hcall
    rcases hcall with (hname | hempty) | hopen
    · exact Or.inl hname
    · simp at hempty
    · obtain ⟨c, hc, hne⟩ := Option.any_eq_true _ _ |>.1 hopen
      right
      rw [trimStart_append_of_head hc, List.head?_append, hc]
      simpa using hne

theorem isQuietAt_of_isQuietFrom {free literal : Bool} {front back : List Char} {c : Char}
    (h : isQuietFrom free literal (front ++ c :: back) = true)
    (hcode : (literal != insideLiteral front) = false) (hc : isWordChar c = true)
    (hbefore : ∀ b ∈ front.getLast?, isWordChar b = false ∧ isAnchored (some b) = true)
    (hfree : front = [] → free = true) : isQuietAt (c :: back) = true := by
  induction front generalizing free literal with
  | nil =>
    rw [List.nil_append, isQuietFrom, Bool.and_eq_true] at h
    have hlit : literal = false := by simpa [insideLiteral] using hcode
    simpa [hlit, hc, hfree rfl] using h.1
  | cons d front ih =>
    rw [List.cons_append, isQuietFrom, Bool.and_eq_true] at h
    refine ih h.2 ?_ (fun b hb => hbefore b (by rw [List.getLast?_cons, Option.mem_def.1 hb]; rfl))
      fun hnil => ?_
    · rw [insideLiteral_cons] at hcode
      revert hcode
      cases literal <;> cases d == '\'' <;> cases insideLiteral front <;> simp
    · obtain ⟨hd, ha⟩ := hbefore d (by simp [hnil])
      simp [hd, ha]

theorem insideLiteral_of_isQuietFrom {free literal : Bool}
    (h : isQuietFrom free literal text = true) : (literal != insideLiteral text) = false := by
  induction text generalizing free literal with
  | nil => simpa [isQuietFrom, insideLiteral] using h
  | cons c text ih =>
    rw [isQuietFrom, Bool.and_eq_true] at h
    have hrest := ih h.2
    rw [insideLiteral_cons]
    revert hrest
    cases literal <;> cases c == '\'' <;> cases insideLiteral text <;> simp

theorem quiet_of_isQuiet (h : isQuiet text = true) : Quiet text := by
  intro rewriteAt? hf before rest hfree hapart
  have hself := @rewriteWordsFrom_self rewriteAt? before text rest false
    fun front c back htext hcode hbegins hanchored => by
      subst htext
      simp only [beginsWord, Bool.and_eq_true, Bool.not_eq_true'] at hbegins
      refine rewriteAt?_eq_none_of_isQuietAt hf (by simp)
        (isQuietAt_of_isQuietFrom h hcode hbegins.1 (fun b hb => ?_) fun _ => rfl) fun d hd => ?_
      · rw [Option.mem_def.1 hb, Option.some_or] at hbegins hanchored
        exact ⟨by simpa using hbegins.2, hanchored⟩
      · exact hapart d (by rw [List.getLast?_append, Option.mem_def.1 hd]; rfl)
  rw [hself, insideLiteral_of_isQuietFrom h]

/-- The word at the end of a text ends there. -/
theorem Apart.mem_of_mem_word {rest : List Char} (h : Apart text rest) (hne : text ≠ []) {c : Char}
    (hc : c ∈ (word (text ++ rest)).1) : c ∈ text := by
  by_cases hall : ∀ d ∈ text, isWordChar d = true
  · have hstop := (h _ (List.getLast?_eq_some_getLast hne) (hall _ (List.getLast_mem hne))).1
    rwa [word_append hall hstop] at hc
  · obtain ⟨d, hd, hdw⟩ : ∃ d ∈ text, ¬isWordChar d = true := by simpa using hall
    rw [word, List.takeWhile_append] at hc
    split at hc
    · rename_i hlen
      have heq := (List.takeWhile_prefix (l := text) isWordChar).eq_of_length hlen
      rw [← heq] at hd
      exact absurd (List.mem_takeWhile_imp hd) hdw
    · exact (List.takeWhile_prefix isWordChar).mem hc

/-- A text is quiet if no word over its characters is a clock keyword or names a function. -/
theorem quiet_of_forall (hquotes : insideLiteral text = false)
    (h : ∀ word : List Char, (∀ c ∈ word, c ∈ text) →
      clockKeyword? word = none ∧ DateFunction.ofName? word = none) : Quiet text := by
  intro rewriteAt? hf before rest _ hapart
  have hself := @rewriteWordsFrom_self _ before text _ false fun front c back htext _ _ _ => by
      have hapartBack : Apart (c :: back) rest := by
        intro d hd
        exact hapart d (by rw [htext, List.getLast?_append, Option.mem_def.1 hd]; rfl)
      obtain ⟨hclock, hname⟩ := h (word (c :: back ++ rest)).1 fun d hd =>
        htext ▸ List.mem_append_right _ (hapartBack.mem_of_mem_word (by simp) hd)
      have hnone := hf (word (c :: back ++ rest)).1 (word (c :: back ++ rest)).2
        (fun d hd => List.mem_takeWhile_imp hd) head_dropWhile hclock (Or.inl hname)
      rwa [word, List.takeWhile_append_dropWhile] at hnone
  rw [hself, hquotes]
  rfl

/-! ### Signs -/

/-- Whether every sign outside the literals of a text comes before a character that begins no
interval.  `literal` says whether the text begins inside a literal. -/
def isCalmFrom (literal : Bool) : List Char → Bool
  | [] => true
  | c :: cs =>
    (literal || !(c == '+' || c == '-') || (trimStart cs).head?.any (fold · != 'i')) &&
      isCalmFrom (literal != (c == '\'')) cs

/-- No interval is added to or subtracted from anything in `text`. -/
structure Calm (text : List Char) : Prop where
  signs : isCalmFrom false text = true
  quotes : insideLiteral text = false

instance (text : List Char) : Decidable (Calm text) :=
  decidable_of_iff (isCalmFrom false text = true ∧ insideLiteral text = false)
    ⟨fun h => ⟨h.1, h.2⟩, fun h => ⟨h.signs, h.quotes⟩⟩

theorem isCalmFrom_append {literal : Bool} {front back : List Char}
    (hf : isCalmFrom literal front = true)
    (hb : isCalmFrom (literal != insideLiteral front) back = true) :
    isCalmFrom literal (front ++ back) = true := by
  induction front generalizing literal with
  | nil => simpa [insideLiteral] using hb
  | cons c front ih =>
    rw [isCalmFrom, Bool.and_eq_true] at hf
    rw [List.cons_append, isCalmFrom, Bool.and_eq_true]
    refine ⟨?_, ih hf.2 ?_⟩
    · simp only [Bool.or_eq_true] at hf ⊢
      refine hf.1.imp_right fun hany => ?_
      cases hs : (trimStart front).head? with
      | none => simp [hs] at hany
      | some d =>
        rw [hs] at hany
        rwa [trimStart_append_of_head hs, List.head?_append, hs]
    · rw [insideLiteral_cons] at hb
      revert hb
      cases literal <;> cases c == '\'' <;> cases insideLiteral front <;> simp

theorem insideLiteral_append (front back : List Char) :
    insideLiteral (front ++ back) = (insideLiteral front != insideLiteral back) := by
  induction front with
  | nil => simp [insideLiteral]
  | cons c front ih =>
    rw [List.cons_append, insideLiteral_cons, insideLiteral_cons, ih]
    cases insideLiteral front <;> cases insideLiteral back <;> cases c == '\'' <;> rfl

theorem Calm.append {front back : List Char} (hf : Calm front) (hb : Calm back) :
    Calm (front ++ back) where
  signs := isCalmFrom_append hf.signs (by simpa [hf.quotes] using hb.signs)
  quotes := by simp [insideLiteral_append, hf.quotes, hb.quotes]

theorem calm_of_forall (h : ∀ c ∈ text, c ≠ '+' ∧ c ≠ '-' ∧ c ≠ '\'') : Calm text := by
  induction text with
  | nil => exact ⟨rfl, rfl⟩
  | cons c text ih =>
    obtain ⟨hplus, hminus, hquote⟩ := h c (by simp)
    obtain ⟨hsigns, hquotes⟩ := ih fun d hd => h d (List.mem_cons_of_mem _ hd)
    refine ⟨?_, ?_⟩
    · simpa [isCalmFrom, hplus, hminus, beq_eq_false_iff_ne.2 hquote] using hsigns
    · simp [insideLiteral_cons, hquote, hquotes]

/-- A sign may stand before a character that begins no interval. -/
theorem Calm.sign {sign c : Char} {cs : List Char} (h : Calm (c :: cs)) (hsign : sign ≠ '\'')
    (hblank : isBlank c = false) (hfold : fold c ≠ 'i') : Calm (sign :: c :: cs) where
  signs := by
    have hstart : trimStart (c :: cs) = c :: cs := trimStart_of_head ⟨c, by simp, hblank⟩
    simpa [isCalmFrom, hstart, beq_eq_false_iff_ne.2 hsign, hfold] using h.signs
  quotes := by rw [insideLiteral_cons, h.quotes, beq_eq_false_iff_ne.2 hsign]; rfl

theorem insideLiteral_doubled (content : List Char) :
    insideLiteral (doubled '\'' content) = false := by
  induction content with
  | nil => rfl
  | cons c content ih =>
    simp only [doubled, List.flatMap_cons, insideLiteral_append] at ih ⊢
    rw [ih]
    by_cases hc : c = '\''
    · simp [hc, insideLiteral]
    · simp [hc, insideLiteral]

theorem isCalmFrom_literal (content rest : List Char) :
    isCalmFrom true (doubled '\'' content ++ '\'' :: rest) = isCalmFrom false rest := by
  induction content with
  | nil => simp [doubled, isCalmFrom]
  | cons c content ih =>
    simp only [doubled] at ih
    by_cases hc : c = '\''
    · simp [doubled, hc, isCalmFrom, ih]
    · simp [doubled, hc, isCalmFrom, beq_eq_false_iff_ne.2 hc, ih]

theorem calm_literal (content : List Char) : Calm ('\'' :: doubled '\'' content ++ ['\'']) where
  signs := by
    have h := isCalmFrom_literal content []
    simpa [isCalmFrom] using h
  quotes := by
    rw [List.cons_append, insideLiteral_cons, insideLiteral_append, insideLiteral_doubled]
    rfl

/-- A sign before anything but an interval shifts nothing. -/
theorem shiftAt?_eq_none {write : Idiom → Option (List Char)} {before cs : List Char} {sign : Char}
    (h : insideLiteral before = true ∨ (trimStart cs).head?.any (fold · != 'i') = true) :
    shiftAt? write before sign cs = none := by
  rcases h with h | h
  · simp [shiftAt?, h]
  · have hnone : scanInterval? (trimStart cs) = none := by
      cases hs : trimStart cs with
      | nil => simp [hs] at h
      | cons d ds =>
        have hd : fold d ≠ 'i' := by simpa [hs] using h
        simp [scanInterval?, keyword?, keywordChars?, hd]
    simp [shiftAt?, hnone]

/-- A text is passed over, whatever follows it, if none of its signs shifts anything. -/
theorem rewriteIntervalsFrom_pass {write : Idiom → Option (List Char)} {before : List Char}
    (h : ∀ front sign back, text = front ++ sign :: back → sign = '+' ∨ sign = '-' →
      shiftAt? write (front.reverse ++ before) sign (back ++ rest) = none) :
    rewriteIntervalsFrom write before 0 (text ++ rest) =
      rewriteIntervalsFrom write (text.reverse ++ before) 0 rest := by
  induction text generalizing before with
  | nil => rfl
  | cons c text ih =>
    have hrest := @ih (c :: before) fun front sign back htext hsign => by
      have hshift := h (c :: front) sign back (by rw [htext]; rfl) hsign
      rwa [List.reverse_cons, List.append_assoc] at hshift
    rw [List.reverse_cons, List.append_assoc, List.singleton_append, ← hrest, List.cons_append,
      rewriteIntervalsFrom]
    split
    · rename_i hsign
      have hnone : shiftAt? write before c (text ++ rest) = none := h [] c text rfl hsign
      rw [hnone]
    · rfl

theorem rewriteIntervalsFrom_skip (write : Idiom → Option (List Char))
    (before front rest : List Char) :
    rewriteIntervalsFrom write before front.length (front ++ rest) =
      rewriteIntervalsFrom write before 0 rest := by
  induction front with
  | nil => rfl
  | cons c front ih => simpa [rewriteIntervalsFrom] using ih

/-- A sign of a calm text stands in a literal or before anything but an interval. -/
theorem calm_at_sign {before front back : List Char} {sign : Char}
    (h : isCalmFrom (insideLiteral before) (front ++ sign :: back) = true)
    (hsign : sign = '+' ∨ sign = '-') :
    insideLiteral (front.reverse ++ before) = true ∨
      (trimStart back).head?.any (fold · != 'i') = true := by
  induction front generalizing before with
  | nil =>
    have hmark : (sign == '+' || sign == '-') = true := by simpa using hsign
    rw [List.nil_append, isCalmFrom, Bool.and_eq_true] at h
    simpa [hmark] using h.1
  | cons c front ih =>
    rw [List.cons_append, isCalmFrom, Bool.and_eq_true, ← insideLiteral_cons] at h
    rw [List.reverse_cons, List.append_assoc]
    exact ih h.2

/-- Such a sign shifts nothing, whatever follows the text. -/
theorem shiftAt?_append_eq_none {write : Idiom → Option (List Char)} {before back : List Char}
    {sign : Char}
    (h : insideLiteral before = true ∨ (trimStart back).head?.any (fold · != 'i') = true)
    (rest : List Char) : shiftAt? write before sign (back ++ rest) = none := by
  refine shiftAt?_eq_none (h.imp_right fun hi => ?_)
  cases hs : (trimStart back).head? with
  | none => simp [hs] at hi
  | some d =>
    rw [trimStart_append_of_head hs, List.head?_append, hs]
    rwa [hs] at hi

/-- A text with no sign before an interval is passed over, whatever follows it. -/
theorem rewriteIntervalsFrom_append (write : Idiom → Option (List Char)) {before : List Char}
    (h : isCalmFrom (insideLiteral before) text = true) (rest : List Char) :
    rewriteIntervalsFrom write before 0 (text ++ rest) =
      rewriteIntervalsFrom write (text.reverse ++ before) 0 rest :=
  rewriteIntervalsFrom_pass fun _ _ _ htext hsign =>
    shiftAt?_append_eq_none (calm_at_sign (htext ▸ h) hsign) rest

theorem Calm.rewriteIntervalsFrom_eq (h : Calm text) (write : Idiom → Option (List Char))
    (rest : List Char) :
    rewriteIntervalsFrom write [] 0 (text ++ rest) =
      rewriteIntervalsFrom write text.reverse 0 rest := by
  simpa using @rewriteIntervalsFrom_append _ write [] h.signs rest

theorem insideLiteral_reverse (text : List Char) :
    insideLiteral text.reverse = insideLiteral text := by
  simp [insideLiteral]

/-- `text` is passed over outside literals, whatever stands around it.  A calm text is one, and so
is a quoted name whose signs stand before no interval. -/
structure Idle (text : List Char) : Prop where
  passes : ∀ write before rest, insideLiteral before = false →
    rewriteIntervalsFrom write before 0 (text ++ rest) =
      rewriteIntervalsFrom write (text.reverse ++ before) 0 rest
  quotes : insideLiteral text = false

theorem Calm.idle (h : Calm text) : Idle text where
  passes write _ rest hbefore := rewriteIntervalsFrom_append write (hbefore ▸ h.signs) rest
  quotes := h.quotes

theorem Idle.append {front back : List Char} (hf : Idle front) (hb : Idle back) :
    Idle (front ++ back) where
  passes write before rest hbefore := by
    have hinside : insideLiteral (front.reverse ++ before) = false := by
      rw [insideLiteral_append, insideLiteral_reverse, hf.quotes, hbefore]
      rfl
    rw [List.append_assoc, hf.passes write before _ hbefore, hb.passes write _ rest hinside,
      List.reverse_append, List.append_assoc]
  quotes := by rw [insideLiteral_append, hf.quotes, hb.quotes]; rfl

theorem Idle.rewriteIntervalsFrom_eq (h : Idle text) (write : Idiom → Option (List Char))
    (rest : List Char) :
    rewriteIntervalsFrom write [] 0 (text ++ rest) =
      rewriteIntervalsFrom write text.reverse 0 rest := by
  simpa using h.passes write [] rest rfl

theorem Idle.rewriteIntervals_eq (h : Idle text) (write : Idiom → Option (List Char)) :
    rewriteIntervals write text = text := by
  simpa [rewriteIntervals, rewriteIntervalsFrom] using h.rewriteIntervalsFrom_eq write []

theorem Calm.rewriteIntervals_eq (h : Calm text) (write : Idiom → Option (List Char)) :
    rewriteIntervals write text = text :=
  h.idle.rewriteIntervals_eq write

/-- A text that is quiet and idle is rewritten to itself, however deep. -/
theorem rewriteWithin_of_quiet (hquiet : Quiet text) (hidle : Idle text) (dialect : Dialect)
    (depth : Nat) : rewriteWithin dialect depth text = text := by
  cases depth with
  | zero => rfl
  | succ depth =>
    have hclocks := (hquiet _ (selective_rewriteClockAt? (renderClock dialect))).rewriteWords_eq
    have hcalls := (hquiet _ (selective_rewriteCallAt?
      (render dialect (operandText dialect (rewriteWithin dialect depth))))).rewriteWords_eq
    rw [rewriteWithin, rewriteClocks, hclocks, rewriteCalls, hcalls]
    exact hidle.rewriteIntervals_eq _

end AskSql.Idiom
