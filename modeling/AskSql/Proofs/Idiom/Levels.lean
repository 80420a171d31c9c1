import AskSql.Idiom.Rewrite

/-! The levels of rewriting.  A scan over a text tries to rewrite it at some places, and at each of
them asks for an idiom to be written anew, which rewrites the operand of the idiom one level down.
Rewriting comes to its result within so many levels if every operand that is asked for does so
within one less.  Below its last level nothing is asked for, so from there on more levels make no
difference. -/

namespace AskSql.Idiom

open Text Sql

variable {dialect : Dialect} {f g : List Char → List Char} {text : List Char}

/-! ### Idioms that are asked for -/

/-- The expression inside an idiom. -/
def operand? : Idiom → Option (List Char)
  | .extract _ arg => some arg
  | .clock _ => none
  | .shift _ _ base _ => some base
  | .truncate _ arg => some arg

/-- What is rewritten of an argument, one level down.  The time value `'now'` is not. -/
def below? (arg : List Char) : Option (List Char) :=
  if isNowLiteral (trim arg) then none else some (trim arg)

/-- The idiom that the call at the front of a text spells, and the rest after the call. -/
def askedCall? (cs : List Char) : Option (Idiom × List Char) := do
  let (function, inner, rest) ← callAt? cs
  let idiom ← recognise function (splitArgs inner)
  return (idiom, rest)

/-- The shift that the interval at the front of `cs` makes of the operand before it, what comes
before the operand, read backwards, and what comes after the interval. -/
def askedShift? (before : List Char) (sign : Char) (cs : List Char) :
    Option (Idiom × List Char × List Char) := do
  if insideLiteral before then none
  let interval ← scanInterval? (trimStart cs)
  let (amount, unit) ← interval.value?
  let (operand, start) ← operandBefore before
  let amount ← if sign = '-' then negate? amount else some amount
  let base := trimEnd operand
  return (.shift unit amount base (clockOf base unit), start, interval.rest)

theorem rewriteCallAt?_eq (write : Idiom → Option (List Char)) (cs : List Char) :
    rewriteCallAt? write cs = (askedCall? cs).bind fun (idiom, rest) =>
      (write idiom).bind fun text =>
        if text = cs.take (cs.length - rest.length) then none
        else some (text, cs.length - rest.length) := by
  rw [rewriteCallAt?, askedCall?]
  cases callAt? cs with
  | none => rfl
  | some call =>
    obtain ⟨function, inner, rest⟩ := call
    simp only [Option.bind_eq_bind, Option.bind_some, Option.pure_def]
    cases recognise function (splitArgs inner) <;> rfl

theorem shiftAt?_eq (write : Idiom → Option (List Char)) (before : List Char) (sign : Char)
    (cs : List Char) :
    shiftAt? write before sign cs = (askedShift? before sign cs).bind fun (idiom, start, rest) =>
      (write idiom).map fun text => (text, start, rest) := by
  rw [shiftAt?, askedShift?]
  cases insideLiteral before with
  | true => rfl
  | false =>
    cases scanInterval? (trimStart cs) with
    | none => rfl
    | some interval =>
      simp only [Option.bind_eq_bind, Option.bind_some, Option.pure_def]
      cases interval.value? with
      | none => rfl
      | some value =>
        obtain ⟨amount, unit⟩ := value
        cases operandBefore before with
        | none => rfl
        | some read =>
          obtain ⟨operand, start⟩ := read
          have hwrite : ∀ amount, ((write (.shift unit amount (trimEnd operand)
              (clockOf (trimEnd operand) unit))).bind fun text =>
                some (text, start, interval.rest)) =
              (write (.shift unit amount (trimEnd operand) (clockOf (trimEnd operand) unit))).map
                fun text => (text, start, interval.rest) := fun _ => Option.map_eq_bind.symm
          by_cases hsign : sign = '-'
          · cases hamount : negate? amount <;> simp [hsign, hamount, hwrite]
          · simp [hsign, hwrite]

/-- A shift that is asked for is one of the operand before the sign, by the interval behind it. -/
theorem exists_of_askedShift? {before cs start rest : List Char} {sign : Char} {idiom : Idiom}
    (h : askedShift? before sign cs = some (idiom, start, rest)) :
    ∃ interval operand unit amount, insideLiteral before = false ∧
      scanInterval? (trimStart cs) = some interval ∧
      operandBefore before = some (operand, start) ∧ rest = interval.rest ∧
      idiom = .shift unit amount (trimEnd operand) (clockOf (trimEnd operand) unit) := by
  rw [askedShift?] at h
  split at h
  · contradiction
  · rename_i houtside
    simp only [Option.bind_eq_bind, Option.bind_eq_some_iff, Option.pure_def] at h
    obtain ⟨interval, hscan, ⟨amount, unit⟩, -, ⟨operand, front⟩, hoperand, h⟩ := h
    obtain ⟨signed, hshift⟩ : ∃ signed, (Idiom.shift unit signed (trimEnd operand)
        (clockOf (trimEnd operand) unit), front, interval.rest) = (idiom, start, rest) := by
      split at h
      · obtain ⟨signed, -, hshift⟩ := Option.bind_eq_some_iff.1 h
        exact ⟨signed, Option.some.inj hshift⟩
      · exact ⟨amount, Option.some.inj h⟩
    simp only [Prod.mk.injEq] at hshift
    obtain ⟨rfl, rfl, rfl⟩ := hshift
    exact ⟨interval, operand, unit, signed, by simpa using houtside, hscan, hoperand, rfl, rfl⟩

/-! ### Places that a scan tries -/

/-- The texts from the words on that a scan tries to rewrite. -/
def wordsTriedFrom (rewriteAt? : List Char → Option (List Char × Nat)) (before : Option Char)
    (literal : Bool) (skip : Nat) : List Char → List (List Char)
  | [] => []
  | c :: cs =>
    let inside := literal != (c == '\'')
    match skip with
    | skip + 1 => wordsTriedFrom rewriteAt? (some c) inside skip cs
    | 0 =>
      if literal || !beginsWord before c || !isAnchored before then
        wordsTriedFrom rewriteAt? (some c) inside 0 cs
      else
        match rewriteAt? (c :: cs) with
        | some (_, length) =>
          (c :: cs) :: wordsTriedFrom rewriteAt? (some c) inside (length - 1) cs
        | none => (c :: cs) :: wordsTriedFrom rewriteAt? (some c) inside 0 cs

/-- The signs behind which a scan tries to find an interval, each with the text so far, read
backwards, and the text from there on. -/
def signsTriedFrom (write : Idiom → Option (List Char)) (before : List Char) (skip : Nat) :
    List Char → List (List Char × Char × List Char)
  | [] => []
  | c :: cs =>
    match skip with
    | skip + 1 => signsTriedFrom write before skip cs
    | 0 =>
      if c = '+' ∨ c = '-' then
        match shiftAt? write before c cs with
        | some (text, start, rest) =>
          (before, c, cs) ::
            signsTriedFrom write (text.reverse ++ start) (cs.length - rest.length) cs
        | none => (before, c, cs) :: signsTriedFrom write (c :: before) 0 cs
      else signsTriedFrom write (c :: before) 0 cs

/-- The idioms that the scan over the calls of a text asks for. -/
def callsAsked (write : Idiom → Option (List Char)) (text : List Char) : List Idiom :=
  (wordsTriedFrom (rewriteCallAt? write) none false 0 text).filterMap fun cs =>
    (askedCall? cs).map Prod.fst

/-- The shifts that the scan over the intervals of a text asks for. -/
def shiftsAsked (write : Idiom → Option (List Char)) (text : List Char) : List Idiom :=
  (signsTriedFrom write [] 0 text).filterMap fun (before, sign, cs) =>
    (askedShift? before sign cs).map Prod.fst

/-- The scan over words tries no more places than its text has characters. -/
theorem length_wordsTriedFrom_le (rewriteAt? : List Char → Option (List Char × Nat))
    (before : Option Char) (literal : Bool) (skip : Nat) (text : List Char) :
    (wordsTriedFrom rewriteAt? before literal skip text).length ≤ text.length := by
  induction text generalizing before literal skip with
  | nil => simp [wordsTriedFrom]
  | cons c cs ih =>
    have hrest := fun literal skip => ih (some c) literal skip
    cases skip with
    | succ skip => exact Nat.le_succ_of_le (hrest _ skip)
    | zero =>
      rw [wordsTriedFrom]
      split
      · exact Nat.le_succ_of_le (hrest _ 0)
      · split
        · exact Nat.succ_le_succ (hrest _ _)
        · exact Nat.succ_le_succ (hrest _ 0)

/-- The scan over intervals tries no more signs than its text has characters. -/
theorem length_signsTriedFrom_le (write : Idiom → Option (List Char)) (before : List Char)
    (skip : Nat) (text : List Char) :
    (signsTriedFrom write before skip text).length ≤ text.length := by
  induction text generalizing before skip with
  | nil => simp [signsTriedFrom]
  | cons c cs ih =>
    cases skip with
    | succ skip => exact Nat.le_succ_of_le (ih _ _)
    | zero =>
      rw [signsTriedFrom]
      split
      · split
        · exact Nat.succ_le_succ (ih _ _)
        · exact Nat.succ_le_succ (ih _ _)
      · exact Nat.le_succ_of_le (ih _ _)

/-! ### One level -/

/-- One level of rewriting, where `f` rewrites the operands. -/
def rewriteLevel (dialect : Dialect) (f : List Char → List Char) (text : List Char) : List Char :=
  let write := render dialect (operandText dialect f)
  rewriteIntervals write (rewriteCalls write (rewriteClocks (renderClock dialect) text))

/-- The idioms that one level of rewriting asks for. -/
def idiomsAsked (dialect : Dialect) (f : List Char → List Char) (text : List Char) : List Idiom :=
  let write := render dialect (operandText dialect f)
  let clocks := rewriteClocks (renderClock dialect) text
  callsAsked write clocks ++ shiftsAsked write (rewriteCalls write clocks)

/-- The texts that one level of rewriting has rewritten one level down. -/
def asked (dialect : Dialect) (f : List Char → List Char) (text : List Char) : List (List Char) :=
  (idiomsAsked dialect f text).filterMap fun idiom => (operand? idiom).bind below?

theorem mem_asked {arg : List Char} (idiom : Idiom) (h : idiom ∈ idiomsAsked dialect f text)
    (harg : operand? idiom = some arg) (htrim : trim arg = arg) (hnow : isNowLiteral arg = false) :
    arg ∈ asked dialect f text := by
  refine List.mem_filterMap.2 ⟨idiom, h, ?_⟩
  rw [harg, Option.bind_some, below?, htrim, hnow]
  rfl

theorem exists_of_mem_asked {arg : List Char} (h : arg ∈ asked dialect f text) :
    ∃ idiom ∈ idiomsAsked dialect f text, ∃ expr ∈ operand? idiom, arg = trim expr := by
  obtain ⟨idiom, hidiom, hbelow⟩ := List.mem_filterMap.1 h
  obtain ⟨expr, hexpr, hbelow⟩ := Option.bind_eq_some_iff.1 hbelow
  rw [below?] at hbelow
  split at hbelow
  · contradiction
  · exact ⟨idiom, hidiom, expr, hexpr, (Option.some.inj hbelow).symm⟩

theorem rewriteWithin_succ (dialect : Dialect) (depth : Nat) (text : List Char) :
    rewriteWithin dialect (depth + 1) text =
      rewriteLevel dialect (rewriteWithin dialect depth) text := rfl

theorem render_congr {idiom : Idiom} (h : ∀ arg ∈ operand? idiom, f arg = g arg) :
    render dialect f idiom = render dialect g idiom := by
  cases idiom <;> simp only [operand?, Option.mem_some, forall_eq', render] at h ⊢ <;> rw [h]

theorem operandText_congr {arg : List Char} (h : ∀ text ∈ below? arg, f text = g text) :
    operandText dialect f arg = operandText dialect g arg := by
  unfold operandText
  by_cases hnow : isNowLiteral (trim arg) = true
  · simp only [hnow, if_true]
  · have htrim : f (trim arg) = g (trim arg) := h (trim arg) (by simp [below?, hnow])
    simp only [htrim]

theorem rewriteWordsFrom_congr {rewriteAt? rewriteAt?' : List Char → Option (List Char × Nat)}
    {before : Option Char} {literal : Bool} {skip : Nat}
    (h : ∀ cs ∈ wordsTriedFrom rewriteAt? before literal skip text, rewriteAt? cs =
      rewriteAt?' cs) :
    rewriteWordsFrom rewriteAt? before literal skip text =
        rewriteWordsFrom rewriteAt?' before literal skip text ∧
      wordsTriedFrom rewriteAt? before literal skip text =
        wordsTriedFrom rewriteAt?' before literal skip text := by
  induction text generalizing before literal skip with
  | nil => exact ⟨rfl, rfl⟩
  | cons c cs ih =>
    cases skip with
    | succ skip => exact ih h
    | zero =>
      simp only [rewriteWordsFrom, wordsTriedFrom] at h ⊢
      split at h
      · rename_i hpass
        obtain ⟨hnew, htried⟩ := ih h
        simp [hpass, hnew, htried]
      · rename_i htry
        cases hat : rewriteAt? (c :: cs) with
        | none =>
          simp only [hat, List.mem_cons, forall_eq_or_imp] at h
          obtain ⟨hnew, htried⟩ := ih h.2
          simp [htry, ← h.1, hnew, htried]
        | some found =>
          obtain ⟨new, length⟩ := found
          simp only [hat, List.mem_cons, forall_eq_or_imp] at h
          obtain ⟨hnew, htried⟩ := ih h.2
          simp [htry, ← h.1, hnew, htried]

theorem rewriteIntervalsFrom_congr {write write' : Idiom → Option (List Char)} {before : List Char}
    {skip : Nat}
    (h : ∀ tried ∈ signsTriedFrom write before skip text,
      shiftAt? write tried.1 tried.2.1 tried.2.2 = shiftAt? write' tried.1 tried.2.1 tried.2.2) :
    rewriteIntervalsFrom write before skip text = rewriteIntervalsFrom write' before skip text ∧
      signsTriedFrom write before skip text = signsTriedFrom write' before skip text := by
  induction text generalizing before skip with
  | nil => exact ⟨rfl, rfl⟩
  | cons c cs ih =>
    cases skip with
    | succ skip => exact ih h
    | zero =>
      simp only [rewriteIntervalsFrom, signsTriedFrom] at h ⊢
      split at h
      · rename_i hsign
        cases hat : shiftAt? write before c cs with
        | none =>
          simp only [hat, List.mem_cons, forall_eq_or_imp] at h
          obtain ⟨hnew, htried⟩ := ih h.2
          simp [hsign, ← h.1, hnew, htried]
        | some found =>
          obtain ⟨new, start, rest⟩ := found
          simp only [hat, List.mem_cons, forall_eq_or_imp] at h
          obtain ⟨hnew, htried⟩ := ih h.2
          simp [hsign, ← h.1, hnew, htried]
      · rename_i hsign
        obtain ⟨hnew, htried⟩ := ih h
        simp [hsign, hnew, htried]

/-- Writers that agree on the idioms asked for make the same of the calls of a text. -/
theorem rewriteCalls_congr {write write' : Idiom → Option (List Char)}
    (h : ∀ idiom ∈ callsAsked write text, write idiom = write' idiom) :
    rewriteCalls write text = rewriteCalls write' text ∧
      callsAsked write text = callsAsked write' text := by
  have hcongr :=
    @rewriteWordsFrom_congr text (rewriteCallAt? write) (rewriteCallAt? write') none false 0
    fun cs hcs => by
      rw [rewriteCallAt?_eq, rewriteCallAt?_eq]
      cases hcall : askedCall? cs with
      | none => rfl
      | some call =>
        have hsame := h call.1 (List.mem_filterMap.2 ⟨cs, hcs, by rw [hcall]; rfl⟩)
        simp only [Option.bind_some, hsame]
  exact ⟨hcongr.1, by rw [callsAsked, callsAsked, hcongr.2]⟩

/-- Writers that agree on the shifts asked for make the same of the intervals of a text. -/
theorem rewriteIntervals_congr {write write' : Idiom → Option (List Char)}
    (h : ∀ idiom ∈ shiftsAsked write text, write idiom = write' idiom) :
    rewriteIntervals write text = rewriteIntervals write' text ∧
      shiftsAsked write text = shiftsAsked write' text := by
  have hcongr := @rewriteIntervalsFrom_congr text write write' [] 0 fun tried htried => by
      rw [shiftAt?_eq, shiftAt?_eq]
      cases hshift : askedShift? tried.1 tried.2.1 tried.2.2 with
      | none => rfl
      | some shift =>
        have hsame := h shift.1 (List.mem_filterMap.2 ⟨tried, htried, by simp [hshift]⟩)
        simp only [Option.bind_some, hsame]
  exact ⟨hcongr.1, by rw [shiftsAsked, shiftsAsked, hcongr.2]⟩

/-- A level of rewriting depends on what becomes of the texts that it asks for alone. -/
theorem rewriteLevel_congr (h : ∀ arg ∈ asked dialect f text, f arg = g arg) :
    rewriteLevel dialect f text = rewriteLevel dialect g text ∧
      asked dialect f text = asked dialect g text := by
  have hsame : ∀ idiom ∈ idiomsAsked dialect f text,
      render dialect (operandText dialect f) idiom =
        render dialect (operandText dialect g) idiom := by
    intro idiom hidiom
    refine render_congr fun arg harg => operandText_congr fun below hbelow => h below ?_
    exact List.mem_filterMap.2 ⟨idiom, hidiom, by rw [Option.mem_def.1 harg]; exact hbelow⟩
  rw [asked, asked, idiomsAsked, idiomsAsked, rewriteLevel, rewriteLevel]
  simp only [idiomsAsked, List.mem_append] at hsame
  obtain ⟨hcalls, hcallsAsked⟩ := rewriteCalls_congr fun idiom hidiom => hsame idiom (.inl hidiom)
  obtain ⟨hshifts, hshiftsAsked⟩ := rewriteIntervals_congr fun idiom hidiom =>
    hsame idiom (.inr hidiom)
  exact ⟨by rw [hshifts, hcalls], by rw [hshiftsAsked, hcallsAsked, hcalls]⟩

/-! ### Levels below levels -/

/-- Whether rewriting a text comes to its result within `depth` levels. -/
def endsWithin (dialect : Dialect) : Nat → List Char → Bool
  | 0, _ => false
  | depth + 1, text =>
    (asked dialect (rewriteWithin dialect depth) text).all (endsWithin dialect depth)

/-- Once rewriting has come to its result, more levels make no difference. -/
theorem endsWithin_mono {depth more : Nat} (h : endsWithin dialect depth text = true)
    (hle : depth ≤ more) :
    endsWithin dialect more text = true ∧
      rewriteWithin dialect more text = rewriteWithin dialect depth text := by
  induction depth generalizing text more with
  | zero => contradiction
  | succ depth ih =>
    obtain ⟨more, rfl⟩ : ∃ m, more = m + 1 := ⟨more - 1, by omega⟩
    rw [endsWithin, List.all_eq_true] at h
    have hbelow := fun arg harg => ih (h arg harg) (Nat.le_of_succ_le_succ hle)
    obtain ⟨hsame, hasked⟩ := rewriteLevel_congr fun arg harg => (hbelow arg harg).2.symm
    refine ⟨?_, hsame.symm⟩
    rw [endsWithin, List.all_eq_true, ← hasked]
    exact fun arg harg => (hbelow arg harg).1

end AskSql.Idiom
