import AskSql.Proofs.Idiom.Inside
import AskSql.Proofs.Idiom.Names
import AskSql.Proofs.Idiom.Ordered

/-! Rewriting into SQLite's idioms ends on every text.  A text is as heavy as its parentheses, its
clock keywords and its intervals.  A clock keyword weighs what its longest form does, and the form
of an idiom in SQLite weighs no more than a call of its argument, so rewriting makes no text
heavier.  Each text that is asked for lacks the parentheses of the call, or the interval, for which
it is asked for. -/

namespace AskSql.Idiom

open Text Sql

variable {dialect : Dialect} {f : List Char → List Char} {text rest arg new : List Char}

/-! ### Weights -/

/-- The weight of a character.  Each clock keyword has an underscore, each interval a `v`. -/
def charWeight (c : Char) : Nat :=
  if c = '_' then 2 else if c = '(' ∨ fold c = 'v' then 1 else 0

/-- The weight of a text. -/
def weight : List Char → Nat
  | [] => 0
  | c :: text => charWeight c + weight text

@[simp] theorem weight_nil : weight [] = 0 := rfl

@[simp] theorem weight_cons (c : Char) (text : List Char) :
    weight (c :: text) = charWeight c + weight text := rfl

@[simp] theorem weight_append (front back : List Char) :
    weight (front ++ back) = weight front + weight back := by
  induction front with
  | nil => simp
  | cons c front ih => rw [List.cons_append, weight_cons, weight_cons, ih, Nat.add_assoc]

theorem weight_le_of_within (h : arg <:+: text) : weight arg ≤ weight text := by
  obtain ⟨front, back, rfl⟩ := h
  simp only [weight_append]
  omega

theorem charWeight_le_of_mem {c : Char} (h : c ∈ text) : charWeight c ≤ weight text := by
  obtain ⟨front, back, rfl⟩ := List.append_of_mem h
  simp only [weight_append, weight_cons]
  omega

theorem weight_eq_zero (h : ∀ c ∈ text, charWeight c = 0) : weight text = 0 := by
  induction text with
  | nil => rfl
  | cons c text ih =>
    obtain ⟨hc, hrest⟩ := List.forall_mem_cons.1 h
    rw [weight_cons, hc, ih hrest]

theorem weighing : TextOrder fun _ new old => weight new ≤ weight old where
  refl _ _ := Nat.le_refl _
  trans := Nat.le_trans
  append hfront hback := by
    simp only [weight_append]
    exact Nat.add_le_add hfront hback

theorem weight_keyword (h : text.map fold = "interval".toList) : 0 < weight text := by
  have hmem : 'v' ∈ text.map fold := by
    rw [h]
    decide
  obtain ⟨c, hc, hfold⟩ := List.mem_map.1 hmem
  have hle := charWeight_le_of_mem hc
  have hpos : 0 < charWeight c := by
    rw [charWeight]
    split <;> simp [hfold]
  omega

/-! ### Clocks -/

theorem weight_renderClock_le (dialect : Dialect) (clock : Clock) :
    weight (renderClock dialect clock) ≤ 2 := by
  cases dialect <;> cases clock <;> decide

theorem weight_rewriteClocks_le (dialect : Dialect) (text : List Char) :
    weight (rewriteClocks (renderClock dialect) text) ≤ weight text := by
  refine weighing.rewriteWords_le fun cs new length _ h => ?_
  obtain ⟨clock, word, parens, rfl, htake, hpos, hmem, -⟩ := exists_of_rewriteClockAt? h
  have hword := charWeight_le_of_mem hmem
  have hclock := weight_renderClock_le dialect clock
  rw [htake, weight_append]
  exact ⟨hpos, (hclock.trans hword).trans (Nat.le_add_right _ _)⟩

/-! ### Calls -/

/-- The expression inside a call that is asked for lacks the parenthesis of the call. -/
theorem weight_lt_of_mem_callsAsked {write : Idiom → Option (List Char)} {idiom : Idiom}
    (h : idiom ∈ callsAsked write text) (harg : arg ∈ operand? idiom) :
    weight arg < weight text ∨ ∃ clock, arg = clockWord clock := by
  obtain ⟨front, name, gap, inner, rest, rfl, -, hcall⟩ := exists_of_mem_callsAsked h
  refine (hcall.operand harg).imp_left fun hstretch => ?_
  have hle := weight_le_of_within hstretch.within
  have hparen : charWeight '(' = 1 := by decide
  simp only [weight_append, weight_cons, hparen]
  omega

/-- The operand of a shift that is asked for lacks the interval behind it. -/
theorem weight_lt_of_askedShift? {before cs start : List Char} {sign : Char} {idiom : Idiom}
    (h : askedShift? before sign cs = some (idiom, start, rest)) :
    ∃ piece base, rest <:+ cs ∧ before.reverse ++ sign :: cs = start.reverse ++ (piece ++ rest) ∧
      operand? idiom = some base ∧ weight base < weight piece := by
  obtain ⟨operand, gap, space, keyword, more, unit, amount, hsplit, hsuffix, -, -, -, -,
      hkeyword, -, rfl⟩ := exists_of_shift h
  refine ⟨_, _, hsuffix, hsplit, rfl, ?_⟩
  obtain ⟨gap', hend, -⟩ := exists_trimEnd operand
  have hpos := weight_keyword hkeyword
  have hle := congrArg weight hend
  simp only [weight_append, weight_cons] at hle ⊢
  omega

/-! ### Idioms in SQLite -/

theorem weight_call (name : String) (args : List (List Char)) :
    weight (call name args) =
      weight name.toList + 1 + args.foldr (fun arg rest => weight arg + rest) 0 := by
  have hparen : charWeight '(' = 1 ∧ charWeight ')' = 0 := by decide
  have hargs : weight (", ".toList.intercalate args) =
      args.foldr (fun arg rest => weight arg + rest) 0 := by
    induction args with
    | nil => rfl
    | cons arg args ih =>
      cases args with
      | nil => simp
      | cons next args =>
        have hcomma : weight ", ".toList = 0 := by decide
        rw [List.intercalate_cons_of_ne_nil (by simp), weight_append, weight_append, ih, hcomma]
        rfl
  rw [call, weight_append, weight_append, weight_cons, weight_cons, weight_nil, hargs, hparen.1,
    hparen.2]
  omega

theorem weight_modifier (n : Int) (unit : TimeUnit) :
    weight ('\'' :: signedText n ++ ' ' :: unit.keyword.toList ++ "s'".toList) = 0 := by
  have hdigits : ∀ n : Nat, ∀ c ∈ Nat.toDigits 10 n, charWeight c = 0 := by
    intro n c hc
    have hdigit := (digits_of_natural? (natural?_toDigits n)).2 c hc
    have hnot : ∀ x ∈ ['_', '(', 'v'], x.isDigit = false := by decide
    have hne : ∀ x ∈ ['_', '(', 'v'], c ≠ x := fun x hx => ne_of_class hdigit (hnot x hx)
    rw [charWeight, fold_of_isDigit hdigit, if_neg (hne '_' (by decide)),
      if_neg (not_or.2 ⟨hne '(' (by decide), hne 'v' (by decide)⟩)]
  have hamount : ∀ c ∈ amountText n, charWeight c = 0 := by
    cases n with
    | ofNat n =>
      rw [Int.ofNat_eq_natCast, amountText_natCast]
      exact hdigits n
    | negSucc n =>
      rw [amountText_negSucc, List.forall_mem_cons]
      exact ⟨by decide, hdigits (n + 1)⟩
  have hsigned : ∀ c ∈ signedText n, charWeight c = 0 := by
    rw [signedText]
    split
    · exact List.forall_mem_cons.2 ⟨by decide, hamount⟩
    · exact hamount
  have hunit : ∀ c ∈ unit.keyword.toList, charWeight c = 0 := by cases unit <;> decide
  refine weight_eq_zero ?_
  simp only [List.cons_append, List.forall_mem_cons, List.forall_mem_append]
  exact ⟨by decide, ⟨hsigned, by decide, hunit⟩, by decide⟩

/-- In SQLite the form of an idiom is a call of its argument. -/
theorem weight_render_le {idiom : Idiom} {g : List Char → List Char}
    (h : render .sqlite g idiom = some new) :
    weight new ≤ 1 + ((operand? idiom).map fun arg => weight (g arg)).getD 0 := by
  have hcall : ∀ {name : String} {args : List (List Char)} {n : Nat}, weight name.toList = 0 →
      args.foldr (fun arg rest => weight arg + rest) 0 = n → weight (call name args) ≤ 1 + n := by
    intro name args n hname hargs
    rw [weight_call, hname, hargs]
  cases idiom with
  | extract part arg =>
    obtain rfl := Option.some.inj h
    cases part <;> exact hcall (by decide) (Nat.zero_add _)
  | clock clock =>
    obtain rfl := Option.some.inj h
    have hclock : ∀ clock, weight (renderClock .sqlite clock) ≤ 1 := by
      rintro (_ | _) <;> decide
    exact hclock clock
  | shift unit amount base clock =>
    obtain ⟨⟨unit', amount'⟩, -, rfl⟩ := Option.map_eq_some_iff.1 h
    refine hcall ?_ (by simp only [List.foldr_cons, List.foldr_nil, weight_modifier]; rfl)
    split <;> decide
  | truncate part arg =>
    obtain rfl := Option.some.inj h
    cases part <;> exact hcall (by decide) rfl

/-! ### Levels in SQLite -/

/-- No text lighter than `n` becomes heavier by `f`, and the keyword of a clock becomes the time
value of SQLite. -/
structure Light (f : List Char → List Char) (n : Nat) : Prop where
  weight_le : ∀ arg, weight arg < n → weight (f arg) ≤ weight arg
  clock : ∀ clock, operandText .sqlite f (clockWord clock) = "'now'".toList

namespace Light

variable {n : Nat} (h : Light f n)

include h

theorem operandText_le (harg : weight arg < n) :
    weight (operandText .sqlite f arg) ≤ weight arg := by
  have htrim := weight_le_of_within (stretch_trim arg).within
  have hnow : weight "'now'".toList = 0 := by decide
  simp only [operandText]
  split
  · exact hnow ▸ Nat.zero_le _
  · split
    · exact hnow ▸ Nat.zero_le _
    · exact (h.weight_le _ (by omega)).trans htrim

theorem render_le {idiom : Idiom} {m : Nat}
    (harg : ∀ arg ∈ operand? idiom, (weight arg ≤ m ∧ weight arg < n) ∨
    ∃ clock, arg = clockWord clock)
    (hnew : render .sqlite (operandText .sqlite f) idiom = some new) : weight new ≤ 1 + m := by
  refine (weight_render_le hnew).trans (Nat.add_le_add_left ?_ 1)
  cases hopen : operand? idiom with
  | none => exact Nat.zero_le m
  | some arg =>
    rcases harg arg hopen with ⟨hle, hlt⟩ | ⟨clock, rfl⟩
    · exact (h.operandText_le hlt).trans hle
    · simp only [Option.map_some, Option.getD_some, h.clock]
      exact Nat.zero_le m

theorem rewriteCalls_le (htext : weight text ≤ n) :
    weight (rewriteCalls (render .sqlite (operandText .sqlite f)) text) ≤ weight text := by
  refine weighing.rewriteWords_le fun cs new length hsuffix hcall => ?_
  obtain ⟨idiom, name, gap, inner, hnew, htake, hpos, hidiom⟩ := exists_of_rewriteCallAt? hcall
  have hcs := weight_le_of_within hsuffix.isInfix
  have hpiece := weight_le_of_within (List.take_prefix length cs).isInfix
  have hparen : charWeight '(' = 1 := by decide
  rw [htake] at hpiece ⊢
  simp only [weight_append, weight_cons, hparen] at hpiece ⊢
  have hmade : weight new ≤ 1 + weight inner := by
    refine h.render_le (fun arg harg => ?_) hnew
    rcases hidiom.operand harg with hstretch | hclock
    · have hle := weight_le_of_within hstretch.within
      exact Or.inl ⟨hle, by omega⟩
    · exact Or.inr hclock
  exact ⟨hpos, by omega⟩

theorem rewriteIntervals_le (htext : weight text ≤ n) :
    weight (rewriteIntervals (render .sqlite (operandText .sqlite f)) text) ≤ weight text ∧
      ∀ idiom ∈ shiftsAsked (render .sqlite (operandText .sqlite f)) text,
        ∀ arg ∈ operand? idiom, weight arg < weight text := by
  have hbase : ∀ {before cs start rest sign idiom}, weight (before.reverse ++ sign :: cs) ≤
    weight text →
      askedShift? before sign cs = some (idiom, start, rest) →
      ∃ piece base, rest <:+ cs ∧ before.reverse ++ sign :: cs = start.reverse ++ (piece ++ rest) ∧
        operand? idiom = some base ∧ weight base < weight piece ∧ weight piece ≤ weight text := by
    intro before cs start rest sign idiom hle hshift
    obtain ⟨piece, base, hsuffix, hsplit, hopen, hlt⟩ := weight_lt_of_askedShift? hshift
    rw [hsplit] at hle
    simp only [weight_append] at hle
    exact ⟨piece, base, hsuffix, hsplit, hopen, hlt, by omega⟩
  obtain ⟨hall, hasked⟩ := weighing.rewriteIntervals_le
    (render .sqlite (operandText .sqlite f))
    (fun before sign cs idiom start rest new _ hle hshift hnew => by
      obtain ⟨piece, base, hsuffix, hsplit, hopen, hlt, hpiece⟩ := hbase hle hshift
      have hmade : weight new ≤ 1 + weight base := by
        refine h.render_le (fun arg harg => ?_) hnew
        obtain rfl : base = arg := Option.some.inj (hopen.symm.trans harg)
        exact Or.inl ⟨Nat.le_refl _, by omega⟩
      exact ⟨piece, hsuffix, hsplit, by omega⟩) (Nat.le_refl (weight text))
  refine ⟨hall, fun idiom hidiom arg harg => ?_⟩
  obtain ⟨before, sign, cs, start, rest, -, hshift, hle⟩ := hasked idiom hidiom
  obtain ⟨piece, base, -, -, hopen, hlt, hpiece⟩ := hbase hle hshift
  obtain rfl : base = arg := Option.some.inj (hopen.symm.trans harg)
  omega

/-- What a level makes of a text is no heavier, and each text that it asks for is lighter or the
keyword of a clock. -/
theorem rewriteLevel_le (htext : weight text ≤ n) :
    weight (rewriteLevel .sqlite f text) ≤ weight text ∧
      ∀ arg ∈ asked .sqlite f text, weight arg < weight text ∨ ∃ clock, arg = clockWord clock := by
  have hclocks := weight_rewriteClocks_le .sqlite text
  have hcalls := h.rewriteCalls_le (hclocks.trans htext)
  obtain ⟨hintervals, hshifts⟩ := h.rewriteIntervals_le (hcalls.trans (hclocks.trans htext))
  refine ⟨hintervals.trans (hcalls.trans hclocks), fun arg harg => ?_⟩
  obtain ⟨idiom, hidiom, expr, hexpr, rfl⟩ := exists_of_mem_asked harg
  have hlt : weight expr < weight text ∨ ∃ clock, expr = clockWord clock := by
    rcases List.mem_append.1 hidiom with hcall | hshift
    · exact (weight_lt_of_mem_callsAsked hcall hexpr).imp_left (·.trans_le hclocks)
    · exact Or.inl ((hshifts idiom hshift expr hexpr).trans_le (hcalls.trans hclocks))
  rcases hlt with hlt | ⟨clock, rfl⟩
  · exact Or.inl ((weight_le_of_within (stretch_trim expr).within).trans_lt hlt)
  · exact Or.inr ⟨clock, by cases clock <;> decide⟩

end Light

/-! ### Every text -/

theorem endsWithin_clockWord (dialect : Dialect) (clock : Clock) :
    endsWithin dialect 1 (clockWord clock) = true := by
  cases dialect <;> cases clock <;> decide

/-- In SQLite rewriting comes to its result within two levels more than the text weighs, and makes
no text heavier. -/
theorem endsWithin_sqlite_of_weight {depth : Nat} (h : weight text + 2 ≤ depth) :
    endsWithin .sqlite depth text = true ∧ weight (rewriteWithin .sqlite depth text) ≤
      weight text := by
  induction hn : weight text using Nat.strong_induction_on generalizing text depth with
  | _ n ih =>
    subst hn
    obtain ⟨depth, rfl⟩ : ∃ d, depth = d + 1 := ⟨depth - 1, by omega⟩
    have hclock : ∀ clock, endsWithin .sqlite depth (clockWord clock) = true ∧
        rewriteWithin .sqlite depth (clockWord clock) = rewriteWithin .sqlite 1 (clockWord clock) :=
      fun clock => endsWithin_mono (endsWithin_clockWord .sqlite clock) (by omega)
    have hlight : Light (rewriteWithin .sqlite depth) (weight text) :=
      ⟨fun arg harg => (ih (weight arg) harg (by omega) rfl).2, fun clock => by
        have hbelow : below? (clockWord clock) = some (clockWord clock) := by cases clock <;> decide
        have hcongr : operandText .sqlite (rewriteWithin .sqlite depth) (clockWord clock) =
            operandText .sqlite (rewriteWithin .sqlite 1) (clockWord clock) := by
          refine operandText_congr fun word hword => ?_
          obtain rfl : clockWord clock = word := Option.some.inj (hbelow.symm.trans hword)
          exact (hclock clock).2
        rw [hcongr]
        cases clock <;> decide⟩
    obtain ⟨hle, hasked⟩ := hlight.rewriteLevel_le (Nat.le_refl _)
    refine ⟨?_, hle⟩
    rw [endsWithin, List.all_eq_true]
    intro arg harg
    rcases hasked arg harg with hlt | ⟨clock, rfl⟩
    · exact (ih (weight arg) hlt (by omega) rfl).1
    · exact (hclock clock).1

theorem weight_le_two_mul_length (text : List Char) : weight text ≤ 2 * text.length := by
  have hchar : ∀ c, charWeight c ≤ 2 := by
    intro c
    rw [charWeight]
    split
    · rfl
    · split <;> omega
  induction text with
  | nil => rfl
  | cons c text ih =>
    have hc := hchar c
    rw [weight_cons, List.length_cons]
    omega

/-- The levels that rewriting into SQLite's idioms is given are enough. -/
theorem endsWithin_sqlite (text : List Char) : endsWithin .sqlite (depthFor text) text = true := by
  have hle := weight_le_two_mul_length text
  exact (endsWithin_sqlite_of_weight (by rw [depthFor]; omega)).1

end AskSql.Idiom
