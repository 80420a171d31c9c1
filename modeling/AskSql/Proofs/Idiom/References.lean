import AskSql.Proofs.Idiom.QuotedNames
import AskSql.Proofs.Idiom.Shifts

/-! References to columns: names joined by dots, plain or quoted.  Read backwards from a sign, a
reference is not always one operand.  The scan ends where a quoted name opens, and it takes plain
names together with the dots before them, so that it leaves the names behind which a quote
closes. -/

namespace AskSql.Idiom

open Text Sql

/-- A name in a reference. -/
inductive NamePart
  | plain (name : List Char)
  | quoted (name : QuotedName)
deriving Repr, DecidableEq

namespace NamePart

def text : NamePart → List Char
  | plain name => name
  | quoted name => name.text

def isPlain : NamePart → Bool
  | plain _ => true
  | quoted _ => false

/-- A plain name is a word, and a quoted one looks like nothing that is rewritten. -/
def Proper : NamePart → Prop
  | plain name => name ≠ [] ∧ ∀ c ∈ name, isWordChar c = true
  | quoted name => Harmless name

instance : (part : NamePart) → Decidable part.Proper
  | plain _ => inferInstanceAs (Decidable (_ ∧ _))
  | quoted name => inferInstanceAs (Decidable (Harmless name))

/-- Names with a dot before each. -/
def dotted (parts : List NamePart) : List Char :=
  parts.flatMap fun part => '.' :: part.text

/-- What stands before the operand that `part` and the names behind it end with. -/
def outside (part : NamePart) : List NamePart → List Char
  | [] => []
  | next :: parts =>
    if (next :: parts).all isPlain then
      if part.isPlain then [] else part.text
    else part.text ++ '.' :: outside next parts

/-- The operand that `part` and the names behind it end with: the last name if it is quoted, and
else the plain names at the end, with the dot before them if a quoted name comes before it. -/
def operand (part : NamePart) : List NamePart → List Char
  | [] => part.text
  | next :: parts =>
    if (next :: parts).all isPlain then
      if part.isPlain then part.text ++ dotted (next :: parts) else dotted (next :: parts)
    else operand next parts

end NamePart

/-- A reference to a column.  Its first name is no clock keyword, unless it is quoted. -/
structure Reference where
  first : NamePart
  more : List NamePart
  proper : ∀ part ∈ first :: more, part.Proper
  notClock : first.isPlain = true → clockKeyword? first.text = none

namespace Reference

variable (c : Reference)

def text : List Char :=
  c.first.text ++ NamePart.dotted c.more

def outside : List Char :=
  c.first.outside c.more

def operand : List Char :=
  c.first.operand c.more

/-- Whether a reference is one name, or all its names are plain. -/
def isWhole : Bool :=
  c.more.isEmpty || (c.first :: c.more).all NamePart.isPlain

end Reference

/-! ### Where a reference is cut -/

namespace NamePart

variable {part : NamePart} {parts : List NamePart}

@[simp] theorem dotted_nil : dotted [] = [] := rfl

@[simp] theorem dotted_cons (part : NamePart) (parts : List NamePart) :
    dotted (part :: parts) = '.' :: (part.text ++ dotted parts) := rfl

theorem outside_append_operand (part : NamePart) (parts : List NamePart) :
    part.outside parts ++ part.operand parts = part.text ++ dotted parts := by
  induction parts generalizing part with
  | nil => simp [outside, operand]
  | cons next parts ih =>
    unfold outside operand
    split
    · split <;> rfl
    · simp [ih next]

theorem ne_nil_of_not_isPlain (h : part.isPlain = false) : part.text ≠ [] := by
  cases part with
  | plain => contradiction
  | quoted name => exact List.cons_ne_nil _ _

theorem outside_eq_nil_iff (part : NamePart) (parts : List NamePart) :
    part.outside parts = [] ↔ parts = [] ∨ (part :: parts).all isPlain = true := by
  cases parts with
  | nil => simp [outside]
  | cons next parts =>
    have hcons : (part :: next :: parts).all isPlain =
        (part.isPlain && (next :: parts).all isPlain) := List.all_cons
    rw [hcons]
    unfold outside
    split
    · rename_i hall
      cases hplain : part.isPlain with
      | true => simp [hall]
      | false => simpa using ne_nil_of_not_isPlain hplain
    · rename_i hall
      simp [hall]

/-- A reference with a quoted name is cut before its last name, or behind the last one that is
quoted. -/
theorem cut_cases (h : (part :: parts).all isPlain = false) :
    (∃ name, quoted name ∈ part :: parts ∧ part.operand parts = name.text ∧
      (part.outside parts = [] ∨
        ∃ front ⊆ parts, part.outside parts = part.text ++ dotted front ++ ['.'])) ∨
    ∃ name plains, quoted name ∈ part :: parts ∧ plains ⊆ parts ∧ plains ≠ [] ∧
      plains.all isPlain = true ∧ part.operand parts = dotted plains ∧
      (∃ before, part.outside parts = before ++ name.text) ∧
      ∃ front ⊆ parts, part.outside parts = part.text ++ dotted front ∧
        (part.isPlain = true → front ≠ []) := by
  induction parts generalizing part with
  | nil =>
    cases part with
    | plain name => contradiction
    | quoted name => exact Or.inl ⟨name, by simp, rfl, Or.inl rfl⟩
  | cons next parts ih =>
    unfold outside operand
    split
    · rename_i hall
      have hquoted : part.isPlain = false := by simpa [List.all_cons, hall] using h
      cases part with
      | plain name => contradiction
      | quoted name =>
        exact Or.inr ⟨name, next :: parts, by simp, by simp, by simp, hall, rfl, ⟨[], rfl⟩,
          ⟨[], by simp, by simp [isPlain], by simp [isPlain]⟩⟩
    · rename_i hall
      rcases ih (by simpa using hall) with ⟨name, hname, hop, hout⟩ |
        ⟨name, plains, hname, hplains, hne, hplain, hop, ⟨before, hlast⟩, front, hfront, hout, -⟩
      · refine Or.inl ⟨name, List.mem_cons_of_mem part hname, hop, Or.inr ?_⟩
        rcases hout with hout | ⟨front, hfront, hout⟩
        · exact ⟨[], by simp, by simp [hout]⟩
        · exact ⟨next :: front, List.cons_subset_cons next hfront, by simp [hout]⟩
      · exact Or.inr ⟨name, plains, List.mem_cons_of_mem part hname,
          List.subset_cons_of_subset next hplains, hne, hplain, hop,
          ⟨part.text ++ '.' :: before, by simp [hlast]⟩,
          next :: front, List.cons_subset_cons next hfront, by simp [hout], by simp⟩

/-! ### Characters -/

theorem chars_dotted (hproper : ∀ part ∈ parts, part.Proper) (hplain : parts.all isPlain = true) :
    ∀ c ∈ dotted parts, isWordChar c = true ∨ c = '.' := by
  intro c hc
  obtain ⟨part, hpart, hmem⟩ := List.mem_flatMap.1 hc
  rcases List.mem_cons.1 hmem with rfl | hmem
  · exact Or.inr rfl
  · have hword := hproper part hpart
    have hkind := List.all_eq_true.1 hplain part hpart
    cases part with
    | plain name => exact Or.inl (hword.2 c hmem)
    | quoted name => contradiction

end NamePart

theorem ends_of_harmless {name : QuotedName} (h : Harmless name) :
    isWordChar name.opening = false ∧ isWordChar name.closing = false ∧
      isOperandChar name.closing = false ∧ isBlank name.closing = false := by
  have hends : ∀ kind ∈ [('[', ']'), ('"', '"'), ('`', '`')], isWordChar kind.1 = false ∧
      isWordChar kind.2 = false ∧ isOperandChar kind.2 = false ∧ isBlank kind.2 = false := by
    decide
  exact hends _ h.kind

/-! ### Texts that stay wherever they stand -/

section Stays

variable {rewriteAt? : List Char → Option (List Char × Nat)} {before : Option Char}
  {text front back : List Char}

/-- `text` stays behind `before`, whether or not a word may be rewritten there. -/
def StaysBehind (rewriteAt? : List Char → Option (List Char × Nat)) (before : Option Char)
    (text : List Char) : Prop :=
  ∀ rest, Apart text rest →
    rewriteWordsFrom rewriteAt? before false 0 (text ++ rest) =
      text ++ rewriteWordsFrom rewriteAt? (text.getLast?.or before) false 0 rest

theorem Rewrites.staysBehind (h : Rewrites rewriteAt? text text) (hfree : Free before text) :
    StaysBehind rewriteAt? before text :=
  fun rest hapart => h before rest hfree hapart

/-- If the first word of a text is not rewritten anyway, it does not matter what comes before it. -/
theorem Rewrites.staysBehind_of_none (h : Rewrites rewriteAt? text text) (hne : text ≠ [])
    (hnone : ∀ rest, Apart text rest → rewriteAt? (text ++ rest) = none) (before : Option Char) :
    StaysBehind rewriteAt? before text := by
  intro rest hapart
  obtain ⟨c, cs, rfl⟩ := List.exists_cons_of_ne_nil hne
  have hpass := hnone rest hapart
  rw [List.cons_append] at hpass
  have hany : ∀ before, rewriteWordsFrom rewriteAt? before false 0 (c :: (cs ++ rest)) =
      c :: rewriteWordsFrom rewriteAt? (some c) (c == '\'') 0 (cs ++ rest) :=
    fun _ => rewriteWordsFrom_pass (Or.inr (Or.inr hpass))
  have hself := h none rest free_none hapart
  have hlast : ∀ before : Option Char, (c :: cs).getLast?.or before = (c :: cs).getLast? := by
    intro before
    rw [List.getLast?_cons]
    rfl
  rw [List.cons_append, hany, hlast] at hself ⊢
  exact hself

theorem StaysBehind.append (hf : StaysBehind rewriteAt? before front)
    (hb : StaysBehind rewriteAt? (front.getLast?.or before) back)
    (hapart : ∀ rest, Apart (front ++ back) rest → Apart front (back ++ rest)) :
    StaysBehind rewriteAt? before (front ++ back) := by
  intro rest hrest
  have hback : Apart back rest := by
    intro c hc
    exact hrest c (by simp [List.getLast?_append, Option.mem_def.1 hc])
  rw [List.append_assoc, hf _ (hapart rest hrest), hb rest hback, List.getLast?_append,
    Option.or_assoc, List.append_assoc]

theorem StaysBehind.rewriteWords_eq (h : StaysBehind rewriteAt? none text) :
    rewriteWords rewriteAt? text = text := by
  have hall := h [] apart_nil
  simpa [rewriteWords, rewriteWordsFrom] using hall

theorem staysBehind_nil : StaysBehind rewriteAt? before [] := by
  intro rest _
  simp

theorem staysBehind_dot : StaysBehind rewriteAt? before ['.'] :=
  fun rest _ => rewriteWordsFrom_between (by decide) rest

theorem apart_dot (front rest : List Char) : Apart front ('.' :: rest) := by
  intro _ _ _
  refine ⟨by simpa using (by decide : isWordChar '.' = false), ?_⟩
  rw [trimStart_of_head ⟨'.', by simp, by decide⟩]
  simp

theorem apart_of_getLast? (h : ∀ c ∈ front.getLast?, isWordChar c = false) (rest : List Char) :
    Apart front rest := by
  intro c hc hword
  rw [h c hc] at hword
  contradiction

end Stays

namespace NamePart

variable {rewriteAt? : List Char → Option (List Char × Nat)} {before : Option Char}
  {part : NamePart} {parts : List NamePart}

/-- A name stays behind a dot, and elsewhere unless it is a clock keyword. -/
theorem Proper.staysBehind (hf : Selective rewriteAt?) (h : part.Proper)
    (hguard : part.isPlain = true → before = some '.' ∨ clockKeyword? part.text = none) :
    StaysBehind rewriteAt? before part.text := by
  intro rest hapart
  cases part with
  | quoted name =>
    obtain ⟨hopening, -⟩ := ends_of_harmless h
    refine quiet_of_isQuiet h.quiet rewriteAt? hf before rest (free_of_head ?_) hapart
    simpa [text, QuotedName.text] using hopening
  | plain name =>
    obtain ⟨hne, hword⟩ := h
    rcases hguard rfl with rfl | hclock
    · exact rewriteWordsFrom_dotted ⟨'.', rfl, Or.inr rfl⟩ (fun c hc => Or.inl (hword c hc)) rest
    · have hnone : ∀ rest, Apart name rest → rewriteAt? (name ++ rest) = none := by
        intro rest hapart
        obtain ⟨hstop, hopen⟩ :=
          hapart _ (List.getLast?_eq_some_getLast hne) (hword _ (List.getLast_mem hne))
        exact hf name rest hword hstop hclock (Or.inr hopen)
      have hstart : ∃ c ∈ name.head?, isWordChar c = true := by
        obtain ⟨c, cs, rfl⟩ := List.exists_cons_of_ne_nil hne
        exact ⟨c, rfl, hword c (by simp)⟩
      exact (rewrites_dotted hstart (fun c hc => Or.inl (hword c hc)) hnone).staysBehind_of_none hne
        hnone before rest hapart

theorem staysBehind_append_dotted (hf : Selective rewriteAt?)
    (hproper : ∀ p ∈ part :: parts, p.Proper)
    (hguard : part.isPlain = true → before = some '.' ∨ clockKeyword? part.text = none) :
    StaysBehind rewriteAt? before (part.text ++ dotted parts) := by
  induction parts generalizing part before with
  | nil => simpa using (hproper part (by simp)).staysBehind hf hguard
  | cons next parts ih =>
    have hmore := ih (fun p hp => hproper p (List.mem_cons_of_mem _ hp))
      fun _ => Or.inl rfl
    have hdot : StaysBehind rewriteAt? (part.text.getLast?.or before) (dotted (next :: parts)) := by
      rw [dotted_cons, ← List.singleton_append]
      refine StaysBehind.append staysBehind_dot hmore fun rest _ => ?_
      exact apart_of_getLast? (by simpa using (by decide : isWordChar '.' = false)) _
    exact ((hproper part (by simp)).staysBehind hf hguard).append hdot fun rest _ => apart_dot _ _

theorem staysBehind_dotted (hf : Selective rewriteAt?) (hproper : ∀ part ∈ parts, part.Proper) :
    StaysBehind rewriteAt? before (dotted parts) := by
  cases parts with
  | nil => exact staysBehind_nil
  | cons part parts =>
    rw [dotted_cons, ← List.singleton_append]
    refine StaysBehind.append staysBehind_dot
      (staysBehind_append_dotted hf hproper fun _ => Or.inl rfl) fun rest _ => ?_
    exact apart_of_getLast? (by simpa using (by decide : isWordChar '.' = false)) _

/-! ### Signs -/

theorem Proper.idle (h : part.Proper) : Idle part.text := by
  cases part with
  | plain name =>
    refine (calm_of_forall fun c hc => ?_).idle
    have hword := h.2 c hc
    refine ⟨?_, ?_, ?_⟩ <;> (rintro rfl; exact absurd hword (by decide))
  | quoted name =>
    refine ⟨fun write before rest hbefore => ?_, ?_⟩
    · refine rewriteIntervalsFrom_pass fun front sign back htext hsign => ?_
      rw [shiftAt?, scanInterval?_of_harmless h htext hsign]
      simp
    · have hnames := NamesIn.nil.name h
      rw [List.append_nil] at hnames
      exact insideLiteral_of_namesIn hnames

theorem idle_dotted (hproper : ∀ part ∈ parts, part.Proper) : Idle (dotted parts) := by
  have hdot : Idle ['.'] := Calm.idle (by decide)
  induction parts with
  | nil => exact Calm.idle (by decide)
  | cons part parts ih =>
    have hmore := ih fun p hp => hproper p (List.mem_cons_of_mem _ hp)
    exact hdot.append ((hproper part (by simp)).idle.append hmore)

/-! ### Operands -/

/-- The operand of a reference is read backwards from its end. -/
theorem operandBehind (hproper : ∀ p ∈ part :: parts, p.Proper)
    (h : (part :: parts).all isPlain = false) :
    OperandBehind (part.outside parts) (part.operand parts) := by
  rcases cut_cases h with ⟨name, hmem, hop, -⟩ |
    ⟨name, plains, hmem, hplains, hne, hplain, hop, ⟨before, hout⟩, -⟩
  · have hname : Harmless name := hproper _ hmem
    obtain ⟨-, -, -, hblank⟩ := ends_of_harmless hname
    rw [hop]
    refine ⟨?_, name.closing, by rw [QuotedName.text, List.getLast?_concat]; rfl, hblank⟩
    rw [List.reverse_append]
    exact hname.operandBackwards_eq _
  · have hname : Harmless name := hproper _ hmem
    obtain ⟨-, -, hstop, -⟩ := ends_of_harmless hname
    have hchars :=
      chars_dotted (fun p hp => hproper p (List.mem_cons_of_mem part (hplains hp))) hplain
    have hoperand : ∀ c ∈ dotted plains, isOperandChar c = true := by
      intro c hc
      rcases hchars c hc with hword | rfl
      · exact isOperandChar_of_isWordChar hword
      · decide
    obtain ⟨c, hlast⟩ : ∃ c, (dotted plains).getLast? = some c := by
      obtain ⟨next, plains, rfl⟩ := List.exists_cons_of_ne_nil hne
      exact ⟨_, List.getLast?_eq_some_getLast (List.cons_ne_nil _ _)⟩
    rw [hop]
    refine ⟨?_, c, hlast, ?_⟩
    · rw [List.reverse_append]
      refine operandBackwards_append ?_ (by simpa using hoperand) ?_
      · simpa using List.ne_nil_of_mem (List.mem_of_getLast? hlast)
      · simpa [hout, QuotedName.text] using hstop
    · rcases hchars c (List.mem_of_getLast? hlast) with hword | rfl
      · exact isBlank_of_isWordChar hword
      · decide

end NamePart

/-! ### Operands inside forms -/

/-- A text that stays as the argument of a form, whatever is written for calls. -/
structure Inert (text : List Char) : Prop extends Clean text where
  calls : ∀ write, Rewrites (rewriteCallAt? write) text text
  idle : Idle text

/-- The characters that an operand begins with if it is no plain name. -/
def operandMarks : List Char := ['[', '"', '`', '.']

section Marks

variable {text : List Char} {dialect : Dialect}

theorem Inert.rewriteWithin_eq (h : Inert text) (depth : Nat) :
    rewriteWithin dialect depth text = text := by
  cases depth with
  | zero => rfl
  | succ depth =>
    rw [rewriteWithin, rewriteClocks, (h.clockFree _).rewriteWords_eq, rewriteCalls,
      (h.calls _).rewriteWords_eq, h.idle.rewriteIntervals_eq]

variable (hmark : ∃ c ∈ text.head?, c ∈ operandMarks)
include hmark

theorem sameAscii_of_mark {key : List Char} {k : Char} (hkey : key.head? = some k)
    (hk : k.isAlpha = true ∨ k = '\'') : sameAscii text key = false := by
  obtain ⟨c, hc, hmem⟩ := hmark
  obtain ⟨cs, rfl⟩ := List.head?_eq_some_iff.1 hc
  obtain ⟨ks, rfl⟩ := List.head?_eq_some_iff.1 hkey
  rw [sameAscii, List.map_cons, List.map_cons, beq_eq_false_iff_ne]
  intro heq
  have hlower := (List.cons.inj heq).1
  have hmarks : ∀ c ∈ operandMarks, c.toLower.isAlpha = false ∧ c.toLower ≠ '\'' := by decide
  obtain ⟨halpha, hquote⟩ := hmarks c hmem
  rw [hlower] at halpha hquote
  rcases hk with hk | rfl
  · rw [isAlpha_toLower, hk] at halpha
    contradiction
  · exact absurd rfl hquote

theorem callParts_of_mark : callParts text = none := by
  obtain ⟨c, hc, hmem⟩ := hmark
  have hmarks : ∀ c ∈ operandMarks, isBlank c = false ∧ isNameStart c = false := by decide
  refine callParts_eq_none fun d hd => ?_
  obtain rfl : c = d := Option.mem_unique hc hd
  exact hmarks c hmem

/-- The clock of a shift of an operand that is no call. -/
theorem clockOf_of_mark (htrim : Trimmed text) (unit : TimeUnit) :
    clockOf text unit = if unit.isSubDay then .now else .date := by
  have hparts := callParts_of_mark hmark
  have hmoment : isNowClock text = false := by
    rw [isNowClock, hparts, sameAscii_of_mark hmark rfl (by decide)]
    rfl
  rw [clockOf, clockWithin]
  simp only [htrim.trim_eq, hmoment, hparts, Bool.or_false]

theorem isNowLiteral_of_mark (htrim : Trimmed text) : isNowLiteral text = false := by
  rw [isNowLiteral, htrim.trim_eq]
  exact sameAscii_of_mark hmark rfl (by decide)

/-- An operand that stays is written inside a form as it is. -/
theorem Inert.operandText_eq (h : Inert text) (depth : Nat) :
    operandText dialect (rewriteWithin dialect depth) text = text := by
  have htrim := h.isArg.trimmed
  have hdate := @sameAscii_of_mark text hmark "date('now')".toList 'd' rfl (by decide)
  have hmoment := @sameAscii_of_mark text hmark "datetime('now')".toList 'd' rfl (by decide)
  rw [operandText_of_rewrite htrim (isNowLiteral_of_mark hmark htrim) (h.rewriteWithin_eq depth),
    argumentText, hdate, hmoment]
  simp

end Marks

theorem closed_of_enclosed {token : List Char} (h : Enclosed token) : Closed token := by
  obtain ⟨region, opening, content, closing, rfl, hregion, hopening, hinside, hclosing⟩ := h
  have hstep : ∀ c, nestStep (region, 0) c = some (region.next c, 0) := by
    cases region with
    | code => contradiction
    | quoted quote => exact fun _ => rfl
    | bracketed => exact fun _ => rfl
  have hcontent : nest (region, 0) content = some (region, 0) := by
    induction content with
    | nil => rfl
    | cons c content ih =>
      rw [nest_cons, hstep, hinside c (by simp), Option.bind_some]
      exact ih fun d hd => hinside d (List.mem_cons_of_mem c hd)
  have hfirst : nestStep (.code, 0) opening = some (region, 0) := by
    have hmark := not_mem_of_next (hopening.symm ▸ hregion)
    simp only [List.mem_cons, List.not_mem_nil, or_false, not_or] at hmark
    simp [nestStep, hmark, hopening]
  rw [Closed, List.cons_append, nest_cons, hfirst, Option.bind_some, nest_append, hcontent,
    Option.bind_some, nest_cons, hstep, hclosing]
  rfl

namespace NamePart

variable {part : NamePart} {parts : List NamePart}

/-- The operand of a reference with a quoted name stays as the argument of a form. -/
theorem inert_operand (hproper : ∀ p ∈ part :: parts, p.Proper)
    (h : (part :: parts).all isPlain = false) :
    Inert (part.operand parts) ∧ ∃ c ∈ (part.operand parts).head?, c ∈ operandMarks := by
  rcases cut_cases h with ⟨name, hmem, hop, -⟩ |
    ⟨name, plains, hmem, hplains, hne, hplain, hop, -, -⟩
  · have hname : Harmless name := hproper _ hmem
    have hquiet := quiet_of_isQuiet hname.quiet
    have hopening : ∀ kind ∈ [('[', ']'), ('"', '"'), ('`', '`')],
        kind.1 ∈ operandMarks ∧ isBlank kind.1 = false := by decide
    obtain ⟨hmark, hblank⟩ := hopening _ hname.kind
    obtain ⟨-, -, -, hlast⟩ := ends_of_harmless hname
    rw [hop]
    refine ⟨⟨⟨⟨?_, ?_⟩, fun write => hquiet _ (selective_rewriteClockAt? write)⟩,
      fun write => hquiet _ (selective_rewriteCallAt? write), (hproper _ hmem).idle⟩,
      name.opening, rfl, hmark⟩
    · exact closed_of_enclosed hname.enclosed
    · exact ⟨⟨name.opening, rfl, hblank⟩, name.closing,
        by rw [QuotedName.text, List.getLast?_concat]; rfl, hlast⟩
  · have hall : ∀ p ∈ plains, p.Proper :=
      fun p hp => hproper p (List.mem_cons_of_mem part (hplains hp))
    have hchars := chars_dotted hall hplain
    obtain ⟨next, plains, rfl⟩ := List.exists_cons_of_ne_nil hne
    have hblank : ∀ c ∈ dotted (next :: plains), isBlank c = false := by
      intro c hc
      rcases hchars c hc with hword | rfl
      · exact isBlank_of_isWordChar hword
      · decide
    rw [hop]
    refine ⟨⟨⟨⟨?_, trimmed_of_forall (by simp) hblank⟩, fun write before rest _ => ?_⟩,
      fun write before rest _ => ?_, idle_dotted hall⟩, '.', rfl, by decide⟩
    · refine closed_of_not_isMark fun c hc => ?_
      rcases hchars c hc with hword | rfl
      · exact isMark_of_isWordChar hword
      · decide
    · exact staysBehind_dotted (selective_rewriteClockAt? write) hall rest
    · exact staysBehind_dotted (selective_rewriteCallAt? write) hall rest

/-- What a reference leaves before its operand stays at the front of a text, and ends with a dot or
with what closes a name. -/
theorem outside_stays (hproper : ∀ p ∈ part :: parts, p.Proper)
    (hclock : part.isPlain = true → clockKeyword? part.text = none)
    (h : (part :: parts).all isPlain = false) :
    (∀ rewriteAt?, Selective rewriteAt? → StaysBehind rewriteAt? none (part.outside parts)) ∧
      Idle (part.outside parts) ∧ ∀ c ∈ (part.outside parts).getLast?,
      c ∈ ['.', ']', '"', '`'] := by
  have hdot : Idle ['.'] := Calm.idle (by decide)
  have hnames : ∀ front ⊆ parts, (∀ rewriteAt?, Selective rewriteAt? →
      StaysBehind rewriteAt? none (part.text ++ dotted front)) ∧
      Idle (part.text ++ dotted front) := by
    intro front hfront
    have hall : ∀ p ∈ part :: front, p.Proper := fun p hp =>
      hproper p (List.cons_subset_cons part hfront hp)
    refine ⟨fun rewriteAt? hf => staysBehind_append_dotted hf hall fun hplain =>
      Or.inr (hclock hplain),
      (hall part (by simp)).idle.append
      (idle_dotted fun p hp => hall p (List.mem_cons_of_mem _ hp))⟩
  rcases cut_cases h with ⟨name, -, -, hout | ⟨front, hfront, hout⟩⟩ |
    ⟨name, plains, hmem, -, -, -, -, ⟨before, hlast⟩, front, hfront, hout, -⟩
  · rw [hout]
    exact ⟨fun _ _ => staysBehind_nil, Calm.idle (by decide), by simp⟩
  · obtain ⟨hstays, hidle⟩ := hnames front hfront
    rw [hout]
    exact ⟨fun rewriteAt? hf => (hstays rewriteAt? hf).append staysBehind_dot fun _ _ =>
      apart_dot _ _, hidle.append hdot, by simp⟩
  · obtain ⟨hstays, hidle⟩ := hnames front hfront
    have hname : Harmless name := hproper _ hmem
    have hclosing : ∀ kind ∈ [('[', ']'), ('"', '"'), ('`', '`')],
        kind.2 ∈ ['.', ']', '"', '`'] := by
      decide
    refine ⟨fun rewriteAt? hf => hout ▸ hstays rewriteAt? hf, hout ▸ hidle, ?_⟩
    rw [hlast, QuotedName.text, ← List.append_assoc, List.getLast?_concat]
    simpa using hclosing _ hname.kind

end NamePart

end AskSql.Idiom
