import AskSql.Proofs.Idiom.Normal
import AskSql.Sql.Identifier

/-! What becomes of a name in a statement.  A name is made of words and of alphanumeric characters
that stand in no word, such as a superscript.  Each of its words that is a clock keyword is written
out, and all else of it stays. -/

namespace AskSql.Idiom

open Text Sql

variable {dialect : Dialect} {text new : List Char}

/-! ### Characters -/

/-- Whether `c` can stand in a name that needs no quotes. -/
def isPlainChar (c : Char) : Bool :=
  isAlphanumeric c || c == '_'

theorem isBlank_of_isPlainChar {c : Char} (h : isPlainChar c = true) : isBlank c = false := by
  cases hb : isBlank c with
  | false => rfl
  | true =>
    have hplain : isPlainChar c = false := by
      refine of_isBlank hb ?_
      decide +kernel
    rw [hplain] at h
    contradiction

theorem ne_of_isPlainChar {c x : Char} (h : isPlainChar c = true) (hx : isPlainChar x = false) :
    c ≠ x := by
  rintro rfl
  simp [hx] at h

/-- The punctuation of statements stands in no name. -/
theorem not_punctuation_of_isPlainChar {c : Char} (h : isPlainChar c = true) :
    c ∉ ['\'', '(', ')', ',', ';', '.', '[', '"', '`', '@', '+', '-'] := by
  have hall : ∀ x ∈ ['\'', '(', ')', ',', ';', '.', '[', '"', '`', '@', '+', '-'],
      isPlainChar x = false := by decide +kernel
  exact fun hmem => ne_of_isPlainChar h (hall c hmem) rfl

theorem isAnchored_of_isPlainChar {c : Char} (h : isPlainChar c = true) :
    isAnchored (some c) = true := by
  have hmem := not_punctuation_of_isPlainChar h
  simp only [isAnchored, Bool.not_eq_true', Bool.or_eq_false_iff, beq_eq_false_iff_ne]
  refine ⟨⟨⟨⟨?_, ?_⟩, ?_⟩, ?_⟩, ?_⟩ <;> (rintro rfl; simp at hmem)

/-! ### Clocks -/

theorem isCall_empty {name : String} (h : IsName name.toList) :
    IsCall name.toList [] (call name []) :=
  ⟨h, ⟨[], rfl, by simp [call]⟩, fun _ => rfl⟩

theorem written_empty (name : String) : Written name.toList [] (call name []) := by
  simpa [call] using Written.intro [] [] rfl .nil

theorem rewrites_empty {write : Idiom → Option (List Char)} {name : String}
    {function : DateFunction} (hname : DateFunction.ofName? name.toList = some function)
    (hwrite : ∀ idiom, recognise function [] = some idiom → write idiom = some (call name [])) :
    Rewrites (rewriteCallAt? write) (call name []) (call name []) :=
  rewrites_written (written_empty name) (isName_of_ofName? hname)
    (fun _ h => absurd h (List.not_mem_nil))
    (rewriteCallAt?_eq_none_of_isCall (isCall_empty (isName_of_ofName? hname)) hname hwrite)

/-- The form of a clock stays. -/
theorem rewrites_renderClock (dialect : Dialect) (clock : Clock) (operand : List Char → List Char) :
    Rewrites (rewriteCallAt? (render dialect operand)) (renderClock dialect clock)
      (renderClock dialect clock) := by
  have hwrite : ∀ {idiom : Idiom} {found : Option Idiom}, found = some (.clock clock) →
      found = some idiom → render dialect operand idiom = some (renderClock dialect clock) := by
    rintro idiom found rfl h
    rw [← Option.some.inj h]
    rfl
  cases dialect with
  | sqlite =>
    have harg : ∀ a ∈ ["'now'".toList], IsArg a := by
      simpa using (⟨by decide, by decide⟩ : IsArg "'now'".toList)
    cases clock with
    | date =>
      exact rewrites_call (by decide) (by simpa using rewrites_fixed (by decide))
        (rewriteCallAt?_eq_none rfl harg fun _ => hwrite rfl)
    | now =>
      exact rewrites_call (by decide) (by simpa using rewrites_fixed (by decide))
        (rewriteCallAt?_eq_none rfl harg fun _ => hwrite rfl)
  | sqlServer =>
    cases clock with
    | date =>
      have harg : ∀ a ∈ [call "GETDATE" [] ++ " AS DATE".toList], IsArg a := by
        simpa using (⟨by decide, by decide⟩ : IsArg (call "GETDATE" [] ++ " AS DATE".toList))
      have hmoment := @rewrites_empty (render .sqlServer operand) "GETDATE" _
        rfl fun idiom h => by
          rw [← Option.some.inj (show some (.clock .now) = some idiom from h)]
          rfl
      have hjoin : Joins (call "GETDATE" []) " AS DATE".toList :=
        joins_of_head ⟨' ', by decide, by decide⟩ ⟨'A', by decide, by decide⟩
      exact rewrites_call (by decide)
        (by simpa using hmoment.append (rewrites_fixed (by decide)) hjoin)
        (rewriteCallAt?_eq_none rfl harg fun _ => hwrite (by decide +kernel))
    | now => exact rewrites_empty rfl fun _ => hwrite rfl
  | mySql =>
    cases clock with
    | date => exact rewrites_empty rfl fun _ => hwrite rfl
    | now => exact rewrites_empty rfl fun _ => hwrite rfl

/-- The form of a clock is a call that is recognised as the clock. -/
theorem isCall_renderClock (dialect : Dialect) (clock : Clock) :
    ∃ name inner function, IsCall name inner (renderClock dialect clock) ∧
      DateFunction.ofName? name = some function ∧ (function = .datetime → clock = .now) ∧
      ∀ clockOf, recogniseWith clockOf function (splitArgs inner) = some (.clock clock) := by
  have hone : ∀ {name : String} {arg : List Char}, IsName name.toList → IsArg arg →
      ∃ inner, IsCall name.toList inner (call name [arg]) ∧ splitArgs inner = [arg] :=
    fun {name arg} hname harg => by
      obtain ⟨inner, hcall, hsplit, -⟩ :=
        (written_call name arg []).isCall hname (by simpa) (by simp)
      exact ⟨inner, hcall, hsplit⟩
  cases dialect with
  | sqlite =>
    have hnow : IsArg "'now'".toList := ⟨by decide, by decide⟩
    cases clock with
    | date =>
      obtain ⟨inner, hcall, hsplit⟩ := @hone "date" _ (by decide) hnow
      exact ⟨_, inner, .date, hcall, rfl, by simp, fun _ => by rw [hsplit]; rfl⟩
    | now =>
      obtain ⟨inner, hcall, hsplit⟩ := @hone "datetime" _ (by decide) hnow
      exact ⟨_, inner, .datetime, hcall, rfl, by simp, fun _ => by rw [hsplit]; rfl⟩
  | sqlServer =>
    cases clock with
    | date =>
      have hbody : IsArg (call "GETDATE" [] ++ " AS DATE".toList) := ⟨by decide, by decide⟩
      have hcast : castToDate? (call "GETDATE" [] ++ " AS DATE".toList) =
          some (call "GETDATE" []) := by
        decide +kernel
      have hmoment : isNowClock (trim (call "GETDATE" [])) = true := by decide +kernel
      obtain ⟨inner, hcall, hsplit⟩ := @hone "CAST" _ (by decide) hbody
      refine ⟨_, inner, .cast, hcall, rfl, by simp, fun _ => ?_⟩
      rw [hsplit]
      simp only [recogniseWith, hcast, hmoment, if_true]
    | now => exact ⟨_, [], .moment, isCall_empty (by decide), rfl, by simp, fun _ => rfl⟩
  | mySql =>
    cases clock with
    | date => exact ⟨_, [], .today, isCall_empty (by decide), rfl, by simp, fun _ => rfl⟩
    | now => exact ⟨_, [], .moment, isCall_empty (by decide), rfl, by simp, fun _ => rfl⟩

/-- The form of a clock has no underscore, no semicolon and no sign, and ends with a parenthesis. -/
theorem renderClock_chars (dialect : Dialect) (clock : Clock) :
    '_' ∉ renderClock dialect clock ∧ ';' ∉ renderClock dialect clock ∧
      insideLiteral (renderClock dialect clock) = false ∧ Calm (renderClock dialect clock) ∧
      (renderClock dialect clock).getLast? = some ')' := by
  cases dialect <;> cases clock <;> decide

/-! ### Names -/

/-- `new` is the name `text` with its clock keywords written out, of which it has some if `busy`. -/
inductive WritesOut (dialect : Dialect) : Bool → List Char → List Char → Prop
  | nil : WritesOut dialect false [] []
  | mark {busy : Bool} {c : Char} {text new : List Char} (hplain : isPlainChar c = true)
      (hmark : isWordChar c = false) (h : WritesOut dialect busy text new) :
      WritesOut dialect busy (c :: text) (c :: new)
  | word {busy : Bool} {word text new : List Char} (hne : word ≠ [])
      (hword : ∀ c ∈ word, isWordChar c = true) (hplain : ∀ c ∈ word, isPlainChar c = true)
      (hstop : ∀ c ∈ text.head?, isWordChar c = false) (hclock : clockKeyword? word = none)
      (h : WritesOut dialect busy text new) : WritesOut dialect busy (word ++ text) (word ++ new)
  | clock {busy : Bool} {clock : Clock} {word text new : List Char}
      (hword : ∀ c ∈ word, isWordChar c = true) (hplain : ∀ c ∈ word, isPlainChar c = true)
      (hstop : ∀ c ∈ text.head?, isWordChar c = false) (hclock : clockKeyword? word = some clock)
      (h : WritesOut dialect busy text new) :
      WritesOut dialect true (word ++ text) (renderClock dialect clock ++ new)

/-- Every name can be written out. -/
theorem exists_writesOut (dialect : Dialect) (text : List Char)
    (hplain : ∀ c ∈ text, isPlainChar c = true) :
    ∃ busy new, WritesOut dialect busy text new := by
  induction hlength : text.length using Nat.strongRecOn generalizing text with
  | ind length ih =>
    cases text with
    | nil => exact ⟨false, [], .nil⟩
    | cons c text =>
      by_cases hc : isWordChar c = true
      · have hsplit : (c :: text).takeWhile isWordChar ++ (c :: text).dropWhile isWordChar =
            c :: text :=
          List.takeWhile_append_dropWhile
        have hword : ∀ d ∈ (c :: text).takeWhile isWordChar, isWordChar d = true :=
          fun d hd => List.mem_takeWhile_imp hd
        have hwordPlain : ∀ d ∈ (c :: text).takeWhile isWordChar, isPlainChar d = true :=
          fun d hd => hplain d ((List.takeWhile_prefix _).mem hd)
        have hshort : ((c :: text).dropWhile isWordChar).length < length := by
          rw [← hlength, List.dropWhile_cons_of_pos hc]
          exact Nat.lt_succ_of_le (List.dropWhile_suffix _).length_le
        obtain ⟨busy, new, h⟩ := ih _ hshort ((c :: text).dropWhile isWordChar)
          (fun d hd => hplain d ((List.dropWhile_suffix _).mem hd)) rfl
        rw [← hsplit]
        cases hclock : clockKeyword? ((c :: text).takeWhile isWordChar) with
        | none =>
          exact ⟨busy, _, .word (by simp [hc]) hword hwordPlain head_dropWhile hclock h⟩
        | some clock => exact ⟨true, _, .clock hword hwordPlain head_dropWhile hclock h⟩
      · obtain ⟨busy, new, h⟩ := ih text.length (by simp [← hlength]) text
          (fun d hd => hplain d (List.mem_cons_of_mem c hd)) rfl
        exact ⟨busy, c :: new, .mark (hplain c (by simp)) (by simpa using hc) h⟩

theorem quiet_word {word : List Char} (hne : word ≠ []) (hword : ∀ c ∈ word, isWordChar c = true)
    (hclock : clockKeyword? word = none) : Quiet word := by
  intro rewriteAt? hf
  obtain ⟨c, cs, rfl⟩ := List.exists_cons_of_ne_nil hne
  refine rewrites_dotted ⟨c, rfl, hword c (by simp)⟩ (fun d hd => Or.inl (hword d hd))
    fun rest hapart => ?_
  obtain ⟨hstop, hopen⟩ :=
    hapart _ (List.getLast?_eq_some_getLast hne) (hword _ (List.getLast_mem hne))
  exact hf _ rest hword hstop hclock (Or.inr hopen)

theorem quiet_mark {c : Char} (hmark : isWordChar c = false) (hquote : c ≠ '\'') : Quiet [c] :=
  fun _ _ _ rest _ _ => rewriteWordsFrom_between (by simpa using ⟨hmark, hquote⟩) rest

/-- A clock keyword is written out wherever it stands as a word. -/
theorem rewrites_clock {write : Clock → List Char} {word : List Char} {clock : Clock}
    (hword : ∀ c ∈ word, isWordChar c = true) (hclock : clockKeyword? word = some clock) :
    Rewrites (rewriteClockAt? write) word (write clock) := by
  have hne : word ≠ [] := by
    rintro rfl
    contradiction
  have hquotes : insideLiteral word = false :=
    insideLiteral_of_not_mem fun c hc => beq_quote_of_isWordChar (hword c hc)
  refine rewrites_whole ⟨_, List.head?_eq_some_head hne, hword _ (List.head_mem hne)⟩ hquotes
    fun rest hapart => ?_
  obtain ⟨hstop, hopen⟩ :=
    hapart _ (List.getLast?_eq_some_getLast hne) (hword _ (List.getLast_mem hne))
  have hparens : emptyParens? rest = none := by
    simp only [emptyParens?, char?_eq_none hopen, Option.bind_eq_bind, Option.bind_none]
  simp [rewriteClockAt?, clockAt?, word_append hword hstop, hclock, hparens]

namespace WritesOut

variable {busy : Bool}

theorem plain (h : WritesOut dialect busy text new) : ∀ c ∈ text, isPlainChar c = true := by
  induction h with
  | nil => simp
  | mark hplain _ _ ih => simpa using ⟨hplain, ih⟩
  | word _ _ hplain _ _ _ ih | clock _ hplain _ _ _ ih =>
    intro c hc
    rcases List.mem_append.1 hc with hc | hc
    · exact hplain c hc
    · exact ih c hc

/-- A name that begins with no word keeps its first character. -/
theorem head?_eq (h : WritesOut dialect busy text new)
    (hstop : ∀ c ∈ text.head?, isWordChar c = false) : new.head? = text.head? := by
  cases h with
  | nil => rfl
  | mark => rfl
  | @word busy word text new hne hword =>
    obtain ⟨c, cs, rfl⟩ := List.exists_cons_of_ne_nil hne
    have hc := hword c (by simp)
    simp [hc] at hstop
  | @clock busy clock word text new hword _ _ hclock =>
    cases word with
    | nil => contradiction
    | cons c cs =>
      have hc := hword c (by simp)
      simp [hc] at hstop

/-- What follows a word of a name may follow the word, and its new text may follow its new text. -/
theorem joins (h : WritesOut dialect busy text new)
    (hstop : ∀ c ∈ text.head?, isWordChar c = false) (hne : text ≠ []) (front : List Char) :
    Joins front text ∧ Joins front new := by
  have hhead := h.head?_eq hstop
  obtain ⟨c, cs, rfl⟩ := List.exists_cons_of_ne_nil hne
  have hplain := h.plain c (by simp)
  have hopen : c ≠ '(' := by
    rintro rfl
    exact not_punctuation_of_isPlainChar hplain (by simp)
  have hjoins : ∀ cs : List Char, cs.head? = some c → Joins front cs := fun cs hcs =>
    joins_of_head ⟨c, hcs, hstop c (by simp)⟩
      ⟨c, by rw [trimStart_of_head ⟨c, hcs, isBlank_of_isPlainChar hplain⟩]; exact hcs, hopen⟩
  exact ⟨hjoins _ rfl, hjoins _ hhead⟩

theorem new_eq_nil (h : WritesOut dialect busy [] new) : new = [] := by
  generalize htext : [] = text at h
  cases h with
  | nil => rfl
  | mark => contradiction
  | word hne => exact absurd (List.append_eq_nil_iff.1 htext.symm).1 hne
  | clock _ _ _ hclock =>
    obtain rfl := (List.append_eq_nil_iff.1 htext.symm).1
    contradiction

/-- The clock keywords of a name are written out wherever the name stands. -/
theorem clocks (h : WritesOut dialect busy text new) :
    Rewrites (rewriteClockAt? (renderClock dialect)) text new := by
  have hselective := selective_rewriteClockAt? (renderClock dialect)
  induction h with
  | nil => exact .nil
  | @mark busy c text new hplain hmark h ih =>
    have hquote : c ≠ '\'' := by
      rintro rfl
      exact not_punctuation_of_isPlainChar hplain (by simp)
    exact (quiet_mark hmark hquote _ hselective).append ih
      (joins_of_last ⟨c, rfl, hmark, isAnchored_of_isPlainChar hplain⟩)
  | @word busy word text new hne hword hplain hstop hclock h ih =>
    have hquiet := quiet_word hne hword hclock _ hselective
    cases text with
    | nil => simpa [h.new_eq_nil] using hquiet
    | cons c text => exact hquiet.append ih (h.joins hstop (by simp) word).1
  | @clock busy clock word text new hword hplain hstop hclock h ih =>
    have hwrite := @rewrites_clock (renderClock dialect) _ _ hword hclock
    cases text with
    | nil => simpa [h.new_eq_nil] using hwrite
    | cons c text => exact hwrite.append ih (h.joins hstop (by simp) word).1

theorem joins_renderClock (clock : Clock) (back : List Char) :
    Joins (renderClock dialect clock) back := by
  obtain ⟨-, -, -, -, hlast⟩ := renderClock_chars dialect clock
  exact joins_of_last ⟨')', hlast, by decide, by decide⟩

/-- A name that has been written out stays. -/
theorem stays {rewriteAt? : List Char → Option (List Char × Nat)}
    (h : WritesOut dialect busy text new) (hselective : Selective rewriteAt?)
    (hclocks :
      ∀ clock, Rewrites rewriteAt? (renderClock dialect clock) (renderClock dialect clock)) :
    Rewrites rewriteAt? new new := by
  induction h with
  | nil => exact .nil
  | @mark busy c text new hplain hmark h ih =>
    have hquote : c ≠ '\'' := by
      rintro rfl
      exact not_punctuation_of_isPlainChar hplain (by simp)
    exact (quiet_mark hmark hquote _ hselective).append ih
      (joins_of_last ⟨c, rfl, hmark, isAnchored_of_isPlainChar hplain⟩)
  | @word busy word text new hne hword hplain hstop hclock h ih =>
    have hquiet := quiet_word hne hword hclock _ hselective
    cases text with
    | nil => simpa [h.new_eq_nil] using hquiet
    | cons c text => exact hquiet.append ih (h.joins hstop (by simp) word).2
  | @clock busy clock word text new hword hplain hstop hclock h ih =>
    exact (hclocks clock).append ih (joins_renderClock clock new)

theorem clocks_self (h : WritesOut dialect busy text new) :
    Rewrites (rewriteClockAt? (renderClock dialect)) new new :=
  h.stays (selective_rewriteClockAt? _) fun clock => by
    obtain ⟨hplain, -, hquotes, -, -⟩ := renderClock_chars dialect clock
    exact clockFree_of_not_mem hplain hquotes _

theorem calls_self (h : WritesOut dialect busy text new) (operand : List Char → List Char) :
    Rewrites (rewriteCallAt? (render dialect operand)) new new :=
  h.stays (selective_rewriteCallAt? _) fun clock => rewrites_renderClock dialect clock operand

theorem calm_plain (hplain : ∀ c ∈ text, isPlainChar c = true) : Calm text :=
  calm_of_forall fun c hc => by
    have hmem := not_punctuation_of_isPlainChar (hplain c hc)
    refine ⟨?_, ?_, ?_⟩ <;> (rintro rfl; simp at hmem)

theorem calm (h : WritesOut dialect busy text new) : Calm new := by
  induction h with
  | nil => exact ⟨rfl, rfl⟩
  | @mark busy c text new hplain _ _ ih => exact (@calm_plain [c] (by simpa using hplain)).append ih
  | word _ _ hplain _ _ _ ih => exact (calm_plain hplain).append ih
  | @clock busy clock word text new _ _ _ _ _ ih =>
    obtain ⟨-, -, -, hcalm, -⟩ := renderClock_chars dialect clock
    exact hcalm.append ih

theorem eq_of_not_busy (h : WritesOut dialect busy text new) (hbusy : busy = false) :
    new = text := by
  induction h with
  | nil => rfl
  | mark _ _ _ ih => rw [ih hbusy]
  | word _ _ _ _ _ _ ih => rw [ih hbusy]
  | clock => contradiction

/-- Each clock keyword that is written out takes an underscore with it. -/
theorem count_le (h : WritesOut dialect busy text new) :
    new.count '_' ≤ text.count '_' ∧ (busy = true → new.count '_' < text.count '_') := by
  induction h with
  | nil => simp
  | mark _ _ _ ih =>
    simp only [List.count_cons]
    exact ⟨by omega, fun hbusy => by have := ih.2 hbusy; omega⟩
  | word _ _ _ _ _ _ ih =>
    simp only [List.count_append]
    exact ⟨by omega, fun hbusy => by have := ih.2 hbusy; omega⟩
  | @clock busy clock word text new _ _ _ hclock _ ih =>
    obtain ⟨hplain, -⟩ := renderClock_chars dialect clock
    have hzero : (renderClock dialect clock).count '_' = 0 := List.count_eq_zero.2 hplain
    have hmem : '_' ∈ word := by
      by_contra hmem
      rw [clockKeyword?_of_not_mem hmem] at hclock
      contradiction
    have hpos : 0 < word.count '_' := List.count_pos_iff.2 hmem
    simp only [List.count_append, hzero]
    exact ⟨by omega, fun _ => by omega⟩

end WritesOut

/-! ### Names with a clock keyword -/

/-- Whether a word of `text` is a clock keyword.  `before` precedes it. -/
def hasClockFrom (before : Option Char) (text : List Char) : Bool :=
  hasWordFrom "current_date".toList before text ||
    hasWordFrom "current_timestamp".toList before text

/-- Whether a word of `text` is a clock keyword. -/
def hasClock (text : List Char) : Bool :=
  hasWord "current_date" text || hasWord "current_timestamp" text

theorem isSome_clockKeyword? (word : List Char) :
    (clockKeyword? word).isSome =
      (word.map fold == "current_date".toList || word.map fold == "current_timestamp".toList) := by
  have hbeq : ∀ key : String, (String.ofList (word.map fold) == key) =
      (word.map fold == key.toList) := by
    intro key
    rw [Bool.eq_iff_iff, beq_iff_eq, beq_iff_eq, ← String.toList_inj, String.toList_ofList]
  simp only [clockKeyword?, List.lookup_cons, List.lookup_nil, hbeq]
  cases word.map fold == "current_date".toList <;>
    cases word.map fold == "current_timestamp".toList <;> rfl

/-- No word begins inside another. -/
theorem hasWordFrom_inside (key : List Char) {b : Char} {word : List Char}
    (hb : isWordChar b = true) (hword : ∀ c ∈ word, isWordChar c = true) (text : List Char) :
    hasWordFrom key (some b) (word ++ text) = hasWordFrom key ((b :: word).getLast?) text := by
  induction word generalizing b with
  | nil => rfl
  | cons c word ih =>
    have hno : beginsWord (some b) c = false := by simp [beginsWord, hb]
    rw [List.cons_append, hasWordFrom, hno, Bool.false_and, Bool.false_or,
      ih (hword c (by simp)) fun d hd => hword d (List.mem_cons_of_mem c hd),
      List.getLast?_cons_cons]

theorem hasWordFrom_append (key : List Char) {before : Option Char} {word text : List Char}
    (hne : word ≠ []) (hword : ∀ c ∈ word, isWordChar c = true)
    (hbefore : ∀ b ∈ before, isWordChar b = false)
      (hstop : ∀ c ∈ text.head?, isWordChar c = false) :
    hasWordFrom key before (word ++ text) =
      (word.map fold == key || hasWordFrom key word.getLast? text) := by
  obtain ⟨c, cs, rfl⟩ := List.exists_cons_of_ne_nil hne
  have hbegins : beginsWord before c = true := by
    cases before with
    | none => simp [beginsWord, hword c (by simp)]
    | some b => simp [beginsWord, hword c (by simp), hbefore b rfl]
  have htaken : (Text.word (c :: (cs ++ text))).1 = c :: cs :=
    congrArg Prod.fst (word_append hword hstop)
  rw [List.cons_append, hasWordFrom, hbegins, htaken, Bool.true_and,
    hasWordFrom_inside key (hword c (by simp)) fun d hd => hword d (List.mem_cons_of_mem c hd)]

theorem hasClockFrom_append {before : Option Char} {word text : List Char} (hne : word ≠ [])
    (hword : ∀ c ∈ word, isWordChar c = true) (hbefore : ∀ b ∈ before, isWordChar b = false)
    (hstop : ∀ c ∈ text.head?, isWordChar c = false) :
    hasClockFrom before (word ++ text) =
      ((clockKeyword? word).isSome || hasClockFrom word.getLast? text) := by
  simp only [hasClockFrom, hasWordFrom_append _ hne hword hbefore hstop, isSome_clockKeyword?]
  cases word.map fold == "current_date".toList <;>
    cases word.map fold == "current_timestamp".toList <;>
    cases hasWordFrom "current_date".toList word.getLast? text <;> rfl

/-- A name has clock keywords to write out exactly when one of its words is one. -/
theorem WritesOut.busy_eq {busy : Bool} {before : Option Char} (h : WritesOut dialect busy text new)
    (hbefore : (∀ c ∈ text.head?, isWordChar c = false) ∨ ∀ b ∈ before, isWordChar b = false) :
    busy = hasClockFrom before text := by
  induction h generalizing before with
  | nil => rfl
  | @mark busy c text new _ hmark _ ih =>
    have hno : beginsWord before c = false := by simp [beginsWord, hmark]
    rw [@ih (some c) (Or.inr (by simpa using hmark))]
    simp only [hasClockFrom, hasWordFrom, hno, Bool.false_and, Bool.false_or]
  | @word busy word text new hne hword _ hstop hclock _ ih =>
    have hstart : ∀ b ∈ before, isWordChar b = false := by
      rcases hbefore with hhead | hbefore
      · obtain ⟨c, cs, rfl⟩ := List.exists_cons_of_ne_nil hne
        have hc := hword c (by simp)
        simp [hc] at hhead
      · exact hbefore
    rw [hasClockFrom_append hne hword hstart hstop, hclock, ih (Or.inl hstop)]
    rfl
  | @clock busy clock word text new hword _ hstop hclock _ ih =>
    have hne : word ≠ [] := by
      rintro rfl
      contradiction
    have hstart : ∀ b ∈ before, isWordChar b = false := by
      rcases hbefore with hhead | hbefore
      · obtain ⟨c, cs, rfl⟩ := List.exists_cons_of_ne_nil hne
        have hc := hword c (by simp)
        simp [hc] at hhead
      · exact hbefore
    rw [hasClockFrom_append hne hword hstart hstop, hclock]
    rfl

end AskSql.Idiom
