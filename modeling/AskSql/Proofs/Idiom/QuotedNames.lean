import AskSql.Proofs.Idiom.QuotedArguments

/-! Rewriting keeps quoted names.  A name is passed over by every scan, whatever stands around it,
and whatever a scan rewrites has the names afterwards that it had before. -/

namespace AskSql.Idiom

open Text Sql

variable {text rest : List Char} {names more : List QuotedName} {dialect : Dialect}

/-! ### Writing -/

/-- `f` leaves each text with the quoted names it has. -/
def KeepsNames (f : List Char → List Char) : Prop :=
  ∀ text names, NamesIn text names → Carries names (f text)

theorem KeepsNames.carries {f : List Char → List Char} (h : KeepsNames f)
    (htext : Carries names text) :
    Carries names (f text) := by
  obtain ⟨found, hfound, hnames⟩ := htext
  exact (h text found hfound).mono hnames

/-- Whether a text has no quoted name.  `literal` says whether it begins inside a literal. -/
def isNamelessFrom (literal : Bool) : List Char → Bool
  | [] => !literal
  | c :: cs =>
    if literal then isNamelessFrom (c != '\'') cs
    else if c = '\'' then isNamelessFrom true cs
    else isBare c && isNamelessFrom false cs

theorem namesIn_of_isNamelessFrom (h : isNamelessFrom false text = true) : NamesIn text [] := by
  have hboth : ∀ text, (isNamelessFrom false text = true → NamesIn text []) ∧
      (isNamelessFrom true text = true →
        ∃ content rest, text = content ++ '\'' :: rest ∧ '\'' ∉ content ∧ NamesIn rest []) := by
    intro text
    induction text with
    | nil => exact ⟨fun _ => .nil, fun h => by contradiction⟩
    | cons c cs ih =>
      obtain ⟨hcode, hliteral⟩ := ih
      constructor
      · intro h
        rw [isNamelessFrom, if_neg (by decide)] at h
        split at h
        · rename_i hquote
          obtain ⟨content, rest, rfl, hcontent, hrest⟩ := hliteral h
          rw [hquote, ← quoted_append]
          exact hrest.literal hcontent
        · rw [Bool.and_eq_true] at h
          exact (hcode h.2).bare h.1
      · intro h
        rw [isNamelessFrom, if_pos rfl] at h
        by_cases hquote : c = '\''
        · subst hquote
          exact ⟨[], cs, rfl, by simp, hcode h⟩
        · rw [bne_iff_ne.2 hquote] at h
          obtain ⟨content, rest, rfl, hcontent, hrest⟩ := hliteral h
          exact ⟨c :: content, rest, rfl, by simp [hcontent, Ne.symm hquote], hrest⟩
  exact (hboth text).1 h

theorem carries_of_isNameless (h : isNamelessFrom false text = true) : Carries [] text :=
  (namesIn_of_isNamelessFrom h).carries

theorem carries_intercalate {args : List (List Char)} {parts : List (List QuotedName)}
    (h : List.Forall₂ (fun arg names => Carries names arg) args parts) :
    Carries parts.flatten (", ".toList.intercalate args) := by
  induction h with
  | nil => exact NamesIn.nil.carries
  | @cons arg names args parts harg hargs ih =>
    cases hargs with
    | nil => simpa using harg
    | cons hnext hmore =>
      rw [List.intercalate_cons_of_ne_nil (by simp), List.append_assoc]
      have hcomma : Carries [] ", ".toList := carries_of_bare (by decide)
      exact harg.append (hcomma.append ih)

/-- A call has the quoted names of its arguments. -/
theorem carries_call {name : String} {args : List (List Char)} {parts : List (List QuotedName)}
    (hname : ∀ c ∈ name.toList, isBare c = true)
    (h : List.Forall₂ (fun arg names => Carries names arg) args parts) :
    Carries parts.flatten (call name args) := by
  have hopen : Carries [] ['('] := carries_of_bare (by decide)
  have hclose : Carries [] [')'] := carries_of_bare (by decide)
  have hcall :=
    (((carries_of_bare hname).append hopen).append (carries_intercalate h)).append hclose
  simpa [call] using hcall

theorem carries_castToDate (h : Carries names text) : Carries names (castToDate text) := by
  have hdate : Carries [] " AS DATE".toList := carries_of_bare (by decide)
  exact (carries_call (by decide) (.cons (h.append hdate) .nil)).mono (by simp)

theorem carries_renderExtract (h : Carries names text) (part : DatePart) :
    Carries names (renderExtract dialect part text) := by
  have hname : ∀ {name : String}, (∀ c ∈ name.toList, isBare c = true) →
      Carries names (call name [text]) :=
    fun hname => (carries_call hname (.cons h .nil)).mono (by simp)
  have hpart : ∀ {name : String} {part : List Char}, (∀ c ∈ name.toList, isBare c = true) →
      isNamelessFrom false part = true → Carries names (call name [part, text]) :=
    fun hname hpart =>
      (carries_call hname (.cons (carries_of_isNameless hpart) (.cons h .nil))).mono (by simp)
  cases dialect with
  | sqlite => cases part <;> exact hpart (by decide) (by decide)
  | sqlServer =>
    cases part with
    | week => exact hpart (by decide) (by decide)
    | _ => exact hname (by decide)
  | mySql => cases part <;> exact hname (by decide)

theorem namesIn_renderClock (dialect : Dialect) (clock : Clock) :
    NamesIn (renderClock dialect clock) [] := by
  cases dialect <;> cases clock <;> exact namesIn_of_isNamelessFrom (by decide)

theorem bare_amountText (n : Int) : ∀ c ∈ amountText n, isBare c = true := by
  have hdigits : ∀ n : Nat, ∀ c ∈ Nat.toDigits 10 n, isBare c = true := fun n c hc =>
    isBare_of_isWordChar (isWordChar_of_isDigit ((digits_of_natural? (natural?_toDigits n)).2 c hc))
  cases n with
  | ofNat n =>
    rw [Int.ofNat_eq_natCast, amountText_natCast]
    exact hdigits n
  | negSucc n =>
    rw [amountText_negSucc, List.forall_mem_cons]
    exact ⟨by decide, hdigits (n + 1)⟩

theorem bare_signedText (n : Int) : ∀ c ∈ signedText n, isBare c = true := by
  rw [signedText]
  split
  · rw [List.forall_mem_cons]
    exact ⟨by decide, bare_amountText n⟩
  · exact bare_amountText n

theorem bare_unit (unit : TimeUnit) : (∀ c ∈ unit.keyword.toList, isBare c = true) ∧
    ∀ c ∈ unit.capitals, isBare c = true := by
  cases unit <;> decide

/-- The modifier of a shift is a literal of characters outside quotes. -/
theorem carries_modifier (n : Int) (unit : TimeUnit) :
    Carries [] ('\'' :: signedText n ++ ' ' :: unit.keyword.toList ++ "s'".toList) := by
  have hbare : ∀ c ∈ signedText n ++ ' ' :: unit.keyword.toList ++ ['s'], isBare c = true := by
    simp only [List.forall_mem_append, List.forall_mem_cons]
    exact ⟨⟨bare_signedText n, by decide, (bare_unit unit).1⟩, by decide, by simp⟩
  have hquote : '\'' ∉ signedText n ++ ' ' :: unit.keyword.toList ++ ['s'] :=
    fun hmem => absurd (hbare _ hmem) (by decide)
  simpa [quoted] using (NamesIn.nil.literal hquote).carries

theorem carries_renderShift {new : List Char} {unit : TimeUnit} {amount : Int} {clock : Clock}
    (h : Carries names text) (hnew : renderShift dialect unit amount text clock = some new) :
    Carries names new := by
  cases dialect with
  | sqlite =>
    obtain ⟨⟨unit, amount⟩, -, rfl⟩ := Option.map_eq_some_iff.1 hnew
    refine (carries_call ?_ (.cons h (.cons (carries_modifier amount unit) .nil))).mono (by simp)
    split <;> decide
  | sqlServer =>
    obtain rfl := Option.some.inj hnew
    exact (carries_call (by decide) (.cons (carries_of_bare (bare_unit unit).1)
      (.cons (carries_of_bare (bare_amountText amount)) (.cons h .nil)))).mono (by simp)
  | mySql =>
    obtain rfl := Option.some.inj hnew
    have hinterval :
        Carries [] ("INTERVAL ".toList ++ amountText amount ++ ' ' :: unit.capitals) := by
      refine carries_of_bare ?_
      simp only [List.forall_mem_append, List.forall_mem_cons]
      exact ⟨⟨by decide, bare_amountText amount⟩, by decide, (bare_unit unit).2⟩
    exact (carries_call (by decide) (.cons h (.cons hinterval .nil))).mono (by simp)

theorem carries_renderTruncate (h : Carries names text) (part : DatePart) :
    Carries names (renderTruncate dialect part text) := by
  have hname : ∀ {name : String}, (∀ c ∈ name.toList, isBare c = true) →
      Carries names (call name [text]) :=
    fun hname => (carries_call hname (.cons h .nil)).mono (by simp)
  have hformat : ∀ {name : String} {format : List Char}, (∀ c ∈ name.toList, isBare c = true) →
      isNamelessFrom false format = true → Carries names (call name [text, format]) :=
    fun hname hformat =>
      (carries_call hname (.cons h (.cons (carries_of_isNameless hformat) .nil))).mono (by simp)
  have hfixed : ∀ {fixed : List Char}, isNamelessFrom false fixed = true → Carries [] fixed :=
    carries_of_isNameless
  cases dialect with
  | sqlite =>
    cases part with
    | day => exact hname (by decide)
    | week =>
      exact (carries_call (by decide) (.cons h (.cons (hfixed (by decide))
        (.cons (hfixed (by decide)) .nil)))).mono (by simp)
    | month => exact hformat (by decide) (by decide)
    | year => exact hformat (by decide) (by decide)
  | sqlServer =>
    have hfloored : ∀ unit : List Char, isNamelessFrom false unit = true →
        Carries names
          (call "DATEADD" [unit, call "DATEDIFF" [unit, "0".toList, text], "0".toList]) := by
      intro unit hunit
      have hdiff := carries_call (by decide : ∀ c ∈ "DATEDIFF".toList, isBare c = true)
        (.cons (hfixed hunit) (.cons (hfixed (by decide : isNamelessFrom false "0".toList = true))
          (.cons h .nil)))
      exact (carries_call (by decide) (.cons (hfixed hunit) (.cons hdiff
        (.cons (hfixed (by decide)) .nil)))).mono (by simp)
    cases part with
    | week =>
      have hpart := carries_call (by decide : ∀ c ∈ "DATEPART".toList, isBare c = true)
        (.cons (hfixed (by decide : isNamelessFrom false "weekday".toList = true)) (.cons h .nil))
      have hoffset := ((hfixed (by decide : isNamelessFrom false "-((".toList = true)).append
        hpart).append (hfixed (by decide : isNamelessFrom false
          " + @@DATEFIRST - 2) % 7)".toList = true))
      exact (carries_call (by decide) (.cons (hfixed (by decide)) (.cons hoffset
        (.cons (carries_castToDate h) .nil)))).mono (by simp)
    | day => exact hfloored _ (by decide)
    | month => exact hfloored _ (by decide)
    | year => exact hfloored _ (by decide)
  | mySql =>
    cases part with
    | day => exact hname (by decide)
    | month => exact hformat (by decide) (by decide)
    | year => exact hformat (by decide) (by decide)
    | week =>
      have hweekday := hname (by decide : ∀ c ∈ "WEEKDAY".toList, isBare c = true)
      have hinterval :=
        ((hfixed (by decide : isNamelessFrom false "INTERVAL ".toList = true)).append
        hweekday).append (hfixed (by decide : isNamelessFrom false " DAY".toList = true))
      exact (carries_call (by decide) (.cons (hname (by decide)) (.cons hinterval .nil))).mono
        (by simp)

/-- What is written for an idiom has the quoted names of the expression inside it. -/
theorem carries_render {f : List Char → List Char} (hf : KeepsNames f) {idiom : Idiom}
    {new : List Char} (h : Carries names (operand idiom))
    (hnew : render dialect f idiom = some new) : Carries names new := by
  cases idiom with
  | extract part arg =>
    obtain rfl := Option.some.inj hnew
    exact carries_renderExtract (hf.carries h) part
  | clock value =>
    obtain rfl := Option.some.inj hnew
    obtain rfl := h.eq_nil (by simp [operand])
    exact (namesIn_renderClock dialect value).carries
  | shift unit amount base value => exact carries_renderShift (hf.carries h) hnew
  | truncate part arg =>
    obtain rfl := Option.some.inj hnew
    exact carries_renderTruncate (hf.carries h) part

/-- An argument of an idiom keeps its quoted names if rewriting does. -/
theorem keepsNames_operandText {rewrite : List Char → List Char} (h : KeepsNames rewrite) :
    KeepsNames (operandText dialect rewrite) := by
  intro text names hnames
  unfold operandText
  dsimp only
  split
  · rename_i hnow
    obtain rfl := eq_nil_of_isNowLiteral hnow hnames.trim
    cases dialect with
    | sqlite => exact carries_of_isNameless (by decide)
    | sqlServer | mySql => exact (namesIn_renderClock _ _).carries
  · have hnew := h _ _ hnames.trim
    split
    · rename_i hsame
      have hopens : ∀ c ∈ rewrite (trim text), opensName c = false := by
        rcases hsame.2 with hdate | hmoment
        · exact opensName_of_sameAscii hdate (by decide)
        · exact opensName_of_sameAscii hmoment (by decide)
      obtain rfl := hnew.eq_nil hopens
      exact carries_of_isNameless (by decide)
    · exact hnew

/-! ### Words -/

/-- A text that can be read ends outside its literals. -/
theorem insideLiteral_of_namesIn (h : NamesIn text names) : insideLiteral text = false := by
  induction h with
  | nil => rfl
  | bare hc _ ih =>
    rw [insideLiteral_cons, ih, beq_eq_false_iff_ne.2 (ne_of_class hc (by decide))]
    rfl
  | literal hcontent _ ih => rw [insideLiteral_append, (calm_quoted hcontent).quotes, ih]; rfl
  | @name name text names hname _ ih =>
    have hends : ∀ kind ∈ [('[', ']'), ('"', '"'), ('`', '`')], kind.1 ≠ '\'' ∧ kind.2 ≠ '\'' := by
      decide
    obtain ⟨hopening, hclosing⟩ := hends _ hname.kind
    have hquotes : insideLiteral name.text = false := by
      refine insideLiteral_of_not_mem fun c hc => beq_eq_false_iff_ne.2 ?_
      rintro rfl
      simp [QuotedName.text, Ne.symm hopening, Ne.symm hclosing, hname.quotes] at hc
    rw [insideLiteral_append, hquotes, ih]
    rfl

theorem insideLiteral_of_reverse {before : List Char} (h : NamesIn before.reverse names) :
    insideLiteral before = false := by
  have hinside := insideLiteral_of_namesIn h
  rwa [insideLiteral, List.count_reverse, ← insideLiteral] at hinside

/-- What `rewriteAt?` gives for the front of a text has the quoted names of that front. -/
def KeepsNamesAt (rewriteAt? : List Char → Option (List Char × Nat)) : Prop :=
  ∀ {text names new length}, NamesIn text names → rewriteAt? text = some (new, length) →
    ∃ front rest before after, text = front ++ rest ∧ front.length = length ∧ front ≠ [] ∧
      NamesIn front before ∧ NamesIn rest after ∧ names = before ++ after ∧ Carries before new

theorem free_of_head {before : Option Char} (h : ∀ c ∈ text.head?, isWordChar c = false) :
    Free before text := by
  intro b _ c hc hword
  rw [h c hc] at hword
  contradiction

theorem apart_concat {c : Char} (h : isWordChar c = false) : Apart (text ++ [c]) rest :=
  apart_of_last
    (by simpa only [List.getLast?_concat, Option.mem_def, Option.some.injEq, forall_eq'] using h)

/-- A scan over the words of a text keeps its quoted names. -/
theorem carries_rewriteWordsFrom {rewriteAt? : List Char → Option (List Char × Nat)}
    (hselective : Selective rewriteAt?) (hkeeps : KeepsNamesAt rewriteAt?) (h : NamesIn text names)
    (before : Option Char) : Carries names (rewriteWordsFrom rewriteAt? before false 0 text) := by
  induction hlength : text.length using Nat.strong_induction_on generalizing text names before with
  | _ n ih =>
    subst hlength
    cases h with
    | nil => exact NamesIn.nil.carries
    | @bare c text names hc h =>
      have hquote : (c == '\'') = false := beq_eq_false_iff_ne.2 (ne_of_class hc (by decide))
      have hcopy : Carries names
          (c :: rewriteWordsFrom rewriteAt? (some c) (c == '\'') 0 text) := by
        rw [hquote]
        have hfirst : Carries [] [c] := (NamesIn.nil.bare hc).carries
        exact hfirst.append (ih _ (by simp) h (some c) rfl)
      cases hat : rewriteAt? (c :: text) with
      | none =>
        rw [rewriteWordsFrom_pass (Or.inr (Or.inr hat))]
        exact hcopy
      | some found =>
        obtain ⟨new, length⟩ := found
        rw [rewriteWordsFrom, Bool.false_bne, hat]
        split
        · exact hcopy
        · obtain ⟨front, rest, namesBefore, namesAfter, htext, rfl, hne, hfront, hrest, rfl,
              hnew⟩ :=
            hkeeps (h.bare hc) hat
          obtain ⟨d, front, rfl⟩ := List.exists_cons_of_ne_nil hne
          obtain ⟨rfl, rfl⟩ : c = d ∧ text = front ++ rest := by simpa using htext
          have hinside : insideLiteral front = false := insideLiteral_of_namesIn (hfront.tail hc)
          dsimp only
          rw [List.length_cons, Nat.add_sub_cancel, rewriteWordsFrom_skip, hquote, hinside]
          have hshorter : rest.length < (c :: (front ++ rest)).length := by
            simp only [List.length_cons, List.length_append]
            omega
          exact hnew.append (ih _ hshorter hrest _ rfl)
    | @literal content text names hcontent h =>
      have hpass := @rewrites_literal rewriteAt? content before text
      rw [doubled_of_not_mem hcontent] at hpass
      have hword : isWordChar '\'' = false := by decide
      rw [quoted, hpass (free_of_head (by simpa using hword)) (apart_concat hword)]
      have hfirst : Carries [] (quoted content) := by
        simpa using (NamesIn.nil.literal hcontent).carries
      exact hfirst.append (ih _ (by simp [quoted]; omega) h _ rfl)
    | @name name text names hname h =>
      have hends : ∀ kind ∈ [('[', ']'), ('"', '"'), ('`', '`')],
          isWordChar kind.1 = false ∧ isWordChar kind.2 = false := by decide
      obtain ⟨hopening, hclosing⟩ := hends _ hname.kind
      rw [quiet_of_isQuiet hname.quiet rewriteAt? hselective before text
        (free_of_head (by simpa [QuotedName.text] using hopening))
        (apart_concat hclosing)]
      have hfirst : Carries [name] name.text := by
        simpa using (NamesIn.nil.name hname).carries
      exact hfirst.append (ih _ (by simp [QuotedName.text]; omega) h _ rfl)

theorem keepsNames_rewriteWords {rewriteAt? : List Char → Option (List Char × Nat)}
    (hselective : Selective rewriteAt?) (hkeeps : KeepsNamesAt rewriteAt?) :
    KeepsNames (rewriteWords rewriteAt?) :=
  fun _ _ h => carries_rewriteWordsFrom hselective hkeeps h none

/-- Empty parentheses behind a clock keyword have no names. -/
theorem sheds_emptyParens? (text : List Char) : Sheds text ((emptyParens? text).getD text) := by
  cases h : emptyParens? text with
  | none => exact ⟨[], rfl, by simp⟩
  | some rest =>
    simp only [emptyParens?, Option.bind_eq_bind, Option.bind_eq_some_iff] at h
    obtain ⟨inner, hopen, hclose⟩ := h
    exact (((sheds_trimStart _).trans (sheds_char? (by decide) hopen)).trans
      (sheds_trimStart _)).trans (sheds_char? (by decide) hclose)

/-- A clock keyword is written anew without a name. -/
theorem keepsNamesAt_clock (dialect : Dialect) :
    KeepsNamesAt (rewriteClockAt? (renderClock dialect)) := by
  intro text names new length h hat
  obtain ⟨⟨clock, rest⟩, hclock, heq⟩ := Option.map_eq_some_iff.1 hat
  obtain ⟨rfl, rfl⟩ := Prod.mk.inj heq
  obtain ⟨clock', hkeyword, heq⟩ := Option.map_eq_some_iff.1 hclock
  obtain ⟨rfl, rfl⟩ := Prod.mk.inj heq
  obtain ⟨parens, hparens, hbare⟩ := sheds_emptyParens? (text.dropWhile isWordChar)
  generalize (emptyParens? (text.dropWhile isWordChar)).getD (text.dropWhile isWordChar) = rest
    at hparens
  have htext : text = (text.takeWhile isWordChar ++ parens) ++ rest := by
    rw [List.append_assoc, ← hparens, List.takeWhile_append_dropWhile]
  have hfront : ∀ c ∈ text.takeWhile isWordChar ++ parens, isBare c = true := by
    intro c hc
    rcases List.mem_append.1 hc with hc | hc
    · exact isBare_of_isWordChar (List.mem_takeWhile_imp hc)
    · exact hbare c hc
  refine ⟨text.takeWhile isWordChar ++ parens, rest, [], names, htext, ?_, ?_, .of_bare hfront,
    (htext ▸ h).drop hfront, rfl, (namesIn_renderClock dialect clock').carries⟩
  · have hlength := congrArg List.length htext
    rw [List.length_append] at hlength
    omega
  · intro hnil
    rw [(List.append_eq_nil_iff.1 hnil).1] at hkeyword
    contradiction

/-- A call that spells an idiom is written anew with the names of its arguments. -/
theorem keepsNamesAt_call {f : List Char → List Char} (hf : KeepsNames f) :
    KeepsNamesAt (rewriteCallAt? (render dialect f)) := by
  intro text names new length h hat
  simp only [rewriteCallAt?, Option.bind_eq_bind, Option.bind_eq_some_iff] at hat
  obtain ⟨⟨function, inner, rest⟩, hcall, idiom, hidiom, new', hnew, hat⟩ := hat
  simp only [callAt?, Option.bind_eq_bind, Option.bind_eq_some_iff, Option.pure_def,
    Option.some.injEq, Prod.mk.injEq] at hcall
  obtain ⟨function', hname, cs, hopen, ⟨inner', rest'⟩, hclose, rfl, rfl, rfl⟩ := hcall
  split at hat
  · contradiction
  · obtain ⟨rfl, rfl⟩ := Prod.mk.inj (Option.some.inj hat)
    obtain ⟨start, hstart, hbare⟩ := ((sheds_word text).trans (sheds_trimStart _)).trans
      (sheds_char? (by decide) hopen)
    have hinside := (hstart ▸ h).drop hbare
    obtain ⟨before, after, hinner, hrest, rfl⟩ := hinside.closeCallFrom hclose
    have htext : text = (start ++ (inner' ++ [')'])) ++ rest' := by
      rw [hstart, closeCallFrom_split hclose]
      simp
    have hfront : NamesIn (start ++ (inner' ++ [')'])) before := by
      simpa using (NamesIn.of_bare hbare).append
        (hinner.append (.of_bare (by decide : ∀ c ∈ [')'], isBare c = true)))
    obtain ⟨parts, hparts, rfl⟩ := hinner.splitArgs
    refine ⟨_, rest', _, after, htext, ?_, by simp, hfront, hrest, rfl,
      carries_render hf (carries_recogniseWith hparts hidiom) hnew⟩
    have hlength := congrArg List.length htext
    rw [List.length_append] at hlength
    dsimp only
    omega

/-! ### Intervals -/

/-- A keyword that a text stops is not read on behind the text. -/
theorem keywordChars?_append_of_mem {key : List Char} (h : ∃ c ∈ text, fold c ∉ key) :
    keywordChars? key (text ++ rest) = (keywordChars? key text).map (· ++ rest) := by
  induction key generalizing text with
  | nil => rfl
  | cons k key ih =>
    cases text with
    | nil => simp at h
    | cons c cs =>
      rw [List.cons_append, keywordChars?, keywordChars?]
      split
      · rename_i hfold
        refine ih ?_
        obtain ⟨d, hd, hnot⟩ := h
        simp only [List.mem_cons, not_or] at hd hnot
        rcases hd with rfl | hd
        · exact absurd hfold hnot.1
        · exact ⟨d, hd, hnot.2⟩
      · rfl

theorem keyword?_of_addsInterval {front back : List Char} {sign : Char}
    (h : addsInterval (front ++ sign :: back) = false) (hsign : sign = '+' ∨ sign = '-') :
    keyword? "interval" (trimStart back) = none := by
  induction front with
  | nil =>
    have hmark : (sign == '+' || sign == '-') = true := by simpa using hsign
    rw [List.nil_append, addsInterval, hmark, Bool.true_and, Bool.or_eq_false_iff,
      Option.isSome_eq_false_iff, Option.isNone_iff_eq_none] at h
    exact h.1
  | cons c front ih =>
    rw [List.cons_append, addsInterval, Bool.or_eq_false_iff] at h
    exact ih h.2

/-- In a harmless name no sign adds an interval, whatever follows the name. -/
theorem scanInterval?_of_harmless {name : QuotedName} {front back : List Char} {sign : Char}
    (hname : Harmless name) (htext : name.text = front ++ sign :: back)
    (hsign : sign = '+' ∨ sign = '-') (rest : List Char) :
    scanInterval? (trimStart (back ++ rest)) = none := by
  have hends : ∀ kind ∈ [('[', ']'), ('"', '"'), ('`', '`')],
      kind.2 ≠ '+' ∧ kind.2 ≠ '-' ∧ isBlank kind.2 = false ∧ fold kind.2 ∉ "interval".toList := by
    decide
  obtain ⟨hplus, hminus, hblank, hfold⟩ := hends _ hname.kind
  have hlast : (sign :: back).getLast? = some name.closing := by
    have hlast := congrArg List.getLast? htext
    rw [QuotedName.text, List.getLast?_concat, List.getLast?_append,
      List.getLast?_eq_some_getLast (List.cons_ne_nil _ _), Option.some_or] at hlast
    rw [List.getLast?_eq_some_getLast (List.cons_ne_nil _ _), hlast]
  have hmem : name.closing ∈ trimStart back := by
    refine mem_dropWhile_of_mem ?_ hblank
    rcases List.mem_cons.1 (List.mem_of_getLast? hlast) with heq | hmem
    · rcases hsign with rfl | rfl
      · exact absurd heq hplus
      · exact absurd heq hminus
    · exact hmem
  obtain ⟨c, cs, hcs⟩ := List.exists_cons_of_ne_nil (List.ne_nil_of_mem hmem)
  have hkeyword := keyword?_of_addsInterval (htext ▸ hname.calm) hsign
  rw [trimStart_append_of_head (by rw [hcs]; rfl), scanInterval?, keyword?,
    keywordChars?_append_of_mem ⟨_, hmem, hfold⟩, ← keyword?, hkeyword]
  rfl

/-- What an interval shifts is written anew with its names, and the interval has none. -/
theorem exists_of_shiftAt? {f : List Char → List Char} (hf : KeepsNames f)
    {before new start : List Char} {sign : Char} (hbefore : NamesIn before.reverse names)
    (h : shiftAt? (render dialect f) before sign text = some (new, start, rest)) :
    (∃ front, text = front ++ rest ∧ NamesIn front []) ∧
      ∃ found, NamesIn (new.reverse ++ start).reverse found ∧ names ⊆ found := by
  rw [shiftAt?, insideLiteral_of_reverse hbefore] at h
  simp only [Bool.false_eq_true, if_false, Option.bind_eq_bind, Option.bind_eq_some_iff,
    Option.pure_def] at h
  obtain ⟨interval, hscan, ⟨amount, unit⟩, -, ⟨operand, left⟩, hoperand, h⟩ := h
  obtain ⟨n, new', hnew, hsplit⟩ : ∃ n new', render dialect f (.shift unit n (trimEnd operand)
      (clockOf (trimEnd operand) unit)) = some new' ∧
      some (new', left, interval.rest) = some (new, start, rest) := by
    split at h
    · obtain ⟨n, -, new', hnew, hsplit⟩ := by
        simpa only [Option.bind_eq_some_iff] using h
      exact ⟨n, new', hnew, hsplit⟩
    · obtain ⟨n, -, new', hnew, hsplit⟩ := by
        simpa only [Option.bind_eq_some_iff] using h
      exact ⟨n, new', hnew, hsplit⟩
  simp only [Option.some.injEq, Prod.mk.injEq] at hsplit
  obtain ⟨rfl, rfl, rfl⟩ := hsplit
  obtain ⟨blanks, hblanks, hspace⟩ := exists_trimStart text
  obtain ⟨front, hfront, hnone⟩ := namesIn_of_scanInterval? hscan
  refine ⟨⟨blanks ++ front, by rw [List.append_assoc, ← hfront, ← hblanks],
    (NamesIn.of_bare (bare_of_blank hspace)).append hnone⟩, ?_⟩
  rw [← List.reverse_reverse before] at hoperand
  obtain ⟨gap, namesBefore, namesAfter, -, hleft, hafter, rfl⟩ := hbefore.operandBefore hoperand
  obtain ⟨gap', hgap', hblank⟩ := exists_trimEnd operand
  have hbase : NamesIn (trimEnd operand) namesAfter := by
    rw [hgap'] at hafter
    exact hafter.take (bare_of_blank hblank)
  have hfound := hleft.carries.append (@carries_render _ _ _ hf
    (.shift unit n (trimEnd operand) (clockOf (trimEnd operand) unit)) _ hbase.carries hnew)
  simpa [Carries] using hfound

/-- A scan over the intervals of a text keeps its quoted names. -/
theorem carries_rewriteIntervalsFrom {f : List Char → List Char} (hf : KeepsNames f)
    {before : List Char} (hbefore : NamesIn before.reverse names) (h : NamesIn text more) :
    Carries (names ++ more) (rewriteIntervalsFrom (render dialect f) before 0 text) := by
  induction hlength : text.length using Nat.strong_induction_on
    generalizing text names more before with
  | _ n ih =>
    subst hlength
    cases h with
    | nil => simpa [rewriteIntervalsFrom] using hbefore.carries
    | @bare c text more hc h =>
      have hcopy : Carries (names ++ more)
          (rewriteIntervalsFrom (render dialect f) (c :: before) 0 text) := by
        refine ih _ (by simp) ?_ h rfl
        rw [List.reverse_cons]
        simpa using hbefore.append (NamesIn.nil.bare hc)
      rw [rewriteIntervalsFrom]
      split
      · cases hshift : shiftAt? (render dialect f) before c text with
        | none => exact hcopy
        | some found =>
          obtain ⟨new, start, rest⟩ := found
          obtain ⟨⟨front, rfl, hfront⟩, found, hfound, hnames⟩ :=
            exists_of_shiftAt? hf hbefore hshift
          obtain ⟨later, rfl, hrest⟩ := hfront.of_append h
          dsimp only
          rw [List.length_append, Nat.add_sub_cancel, rewriteIntervalsFrom_skip]
          have hshorter : rest.length < (c :: (front ++ rest)).length := by
            simp only [List.length_cons, List.length_append]
            omega
          refine (ih _ hshorter hfound hrest rfl).mono (List.append_subset.2
            ⟨List.Subset.trans hnames (List.subset_append_left _ _), List.subset_append_right _ _⟩)
      · exact hcopy
    | @literal content text more hcontent h =>
      have hcalm : isCalmFrom (insideLiteral before) (quoted content) = true := by
        rw [insideLiteral_of_reverse hbefore]
        exact (calm_quoted hcontent).signs
      rw [rewriteIntervalsFrom_append _ hcalm]
      refine ih _ (by simp [quoted]; omega) ?_ h rfl
      rw [List.reverse_append, List.reverse_reverse]
      simpa using hbefore.append (NamesIn.nil.literal hcontent)
    | @name name text more hname h =>
      rw [rewriteIntervalsFrom_pass fun front sign back htext hsign => by
        rw [shiftAt?, scanInterval?_of_harmless hname htext hsign]
        simp]
      have hpassed : NamesIn (name.text.reverse ++ before).reverse (names ++ [name]) := by
        rw [List.reverse_append, List.reverse_reverse]
        simpa using hbefore.append (NamesIn.nil.name hname)
      simpa using ih _ (by simp [QuotedName.text]; omega) hpassed h rfl

theorem keepsNames_rewriteIntervals {f : List Char → List Char} (hf : KeepsNames f) :
    KeepsNames (rewriteIntervals (render dialect f)) := by
  intro text names h
  have hscan := @carries_rewriteIntervalsFrom text [] names dialect f hf [] .nil h
  rwa [List.nil_append] at hscan

theorem KeepsNames.comp {f g : List Char → List Char} (hg : KeepsNames g) (hf : KeepsNames f) :
    KeepsNames fun text => g (f text) :=
  fun _ _ h => hg.carries (hf _ _ h)

/-- Rewriting keeps the quoted names of a text, however deep in its arguments it works. -/
theorem keepsNames_rewriteWithin (dialect : Dialect) (depth : Nat) :
    KeepsNames (rewriteWithin dialect depth) := by
  induction depth with
  | zero => exact fun _ _ h => h.carries
  | succ depth ih =>
    have hargs : KeepsNames (operandText dialect (rewriteWithin dialect depth)) :=
      keepsNames_operandText ih
    have hclocks : KeepsNames (rewriteClocks (renderClock dialect)) :=
      keepsNames_rewriteWords (selective_rewriteClockAt? _) (keepsNamesAt_clock dialect)
    have hcalls : KeepsNames (rewriteCalls (render dialect
        (operandText dialect (rewriteWithin dialect depth)))) :=
      keepsNames_rewriteWords (selective_rewriteCallAt? _) (keepsNamesAt_call hargs)
    exact (keepsNames_rewriteIntervals hargs).comp (hcalls.comp hclocks)

theorem keepsNames_rewrite (dialect : Dialect) : KeepsNames (Idiom.rewrite dialect) :=
  fun text _ h => keepsNames_rewriteWithin dialect (depthFor text) _ _ h

end AskSql.Idiom
