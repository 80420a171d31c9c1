import AskSql.Proofs.Idiom.CallLoad
import AskSql.Proofs.Idiom.Names
import AskSql.Proofs.Idiom.Ordered

/-! Rewriting makes no load greater.  The form of an idiom in SQL Server and in MySQL may hold the
expression of the idiom twice, but in parentheses, of which only the dearest count.  What is charged
around it is paid for by the call that spells the idiom, or by the interval. -/

namespace AskSql.Idiom

open Text Sql

open Scan (found parensCharge)

variable {dialect : Dialect} {text arg inner new old : List Char} {fresh ends : Bool}
  {frame frame' : Frame}

/-! ### What a scan finds -/

/-- A scan finds no quoted name in `text` and at most `frame` in its level.  If `fresh` says so,
then only where nothing has just been passed; if `ends` says so, then nothing has been passed
behind `text`. -/
structure Finds (dialect : Dialect) (fresh ends : Bool) (frame : Frame) (text : List Char) :
    Prop where
  quotes : insideLiteral text = false
  named_le : ∀ scan : Scan, (scan.run dialect false text).named ≤ scan.named
  paid_le : ∀ scan : Scan, (fresh = true → scan.settled.ahead ≤ .nothing) →
    (scan.run dialect false text).paid ≤ scan.paid.raise frame
  ahead_le : ends = true → ∀ scan : Scan, (scan.run dialect false text).ahead ≤ .nothing

/-- It is enough to look at scans before which all parentheses are paid for. -/
theorem paid_le_of_settled (scan : Scan)
    (h : (scan.settled.run dialect false text).paid ≤ scan.paid.raise frame) :
    (scan.run dialect false text).paid ≤ scan.paid.raise frame :=
  (@Scan.run_settled_le dialect false scan text).2.2.trans h

theorem Finds.append {last : Bool} {front back : List Char}
    (hfront : Finds dialect fresh ends frame front) (hback : Finds dialect ends last frame' back) :
    Finds dialect fresh last (frame + frame') (front ++ back) where
  quotes := by
    rw [insideLiteral_append, hfront.quotes, hback.quotes]
    rfl
  named_le scan := by
    rw [Scan.run_append, hfront.quotes]
    exact (hback.named_le _).trans (hfront.named_le scan)
  paid_le scan hscan := by
    rw [Scan.run_append, hfront.quotes, ← Stack.raise_raise]
    refine (hback.paid_le _ fun hends => ?_).trans
      (Stack.raise_mono (hfront.paid_le scan hscan) le_rfl)
    obtain ⟨hsign, hword, -⟩ := hfront.ahead_le hends scan
    exact ⟨hsign, hword, le_rfl⟩
  ahead_le hlast scan := by
    rw [Scan.run_append, hfront.quotes]
    exact hback.ahead_le hlast _

theorem Finds.mono (h : Finds dialect fresh ends frame text) (hle : frame ≤ frame') :
    Finds dialect fresh ends frame' text :=
  { h with paid_le := fun scan hscan => (h.paid_le scan hscan).trans (Stack.raise_mono le_rfl hle) }

theorem Finds.anywhere (h : Finds dialect false ends frame text) :
    Finds dialect fresh ends frame text :=
  { h with paid_le := fun scan _ => h.paid_le scan (by simp) }

theorem Finds.forget (h : Finds dialect fresh ends frame text) :
    Finds dialect fresh false frame text :=
  { h with ahead_le := by simp }

theorem Finds.run_le (h : Finds dialect false true frame text) (scan : Scan) :
    scan.run dialect false text ≤ ⟨scan.named, .nothing, scan.paid.raise frame⟩ :=
  ⟨h.named_le scan, h.ahead_le rfl scan, (Scan.le_paid _).trans (h.paid_le scan (by simp))⟩

theorem finds_of_run_le (hquotes : insideLiteral text = false)
    (h : ∀ scan : Scan,
      scan.run dialect false text ≤ ⟨scan.named, .nothing, scan.paid.raise frame⟩) :
    Finds dialect false true frame text where
  quotes := hquotes
  named_le scan := (h scan).1
  paid_le scan _ := (Scan.paid_mono (h scan)).trans_eq Stack.raise_nothing
  ahead_le _ scan := (h scan).2.1

/-- A closed text, where literals have the only quotes. -/
theorem finds_of_closed (h : ClosedBackwards text) (honly : OnlyLiterals text) :
    Finds dialect true false (found dialect text) text where
  quotes := h.quotes
  named_le scan := by
    rw [Scan.named_run, Scan.named_start_iff.2 honly, Bool.or_false]
  paid_le scan hscan := by
    refine paid_le_of_settled scan (le_of_eq ?_)
    have hahead : scan.settled.ahead = .nothing := by
      obtain ⟨hsign, hword, -⟩ := hscan rfl
      exact Ahead.ext (le_bot_iff.1 hsign) (List.prefix_nil.1 hword) rfl
    rw [Scan.run_found h hahead]
    simp [Scan.paid, Scan.opened_of_closed h, Scan.settled]
  ahead_le := by simp

/-! ### Free texts -/

/-- Whether nothing in a text is charged, if a sign may come before it only when `sign` says so. -/
def isFree (literal sign : Bool) : List Char → Bool
  | [] => !literal
  | c :: cs =>
    if c = '\'' then isFree (!literal) false cs
    else if literal || isBlank c then isFree literal sign cs
    else isBare c && !(c == '(' || c == ')' || c == ',') && !(sign && fold c == 'i') &&
      isFree false (c == '+' || c == '-') cs

theorem run_of_isFree {literal sign : Bool} (h : isFree literal sign text = true) {scan : Scan}
    (hsign : scan.ahead.sign ≤ sign) (hopened : scan.ahead.opened = 0) :
    insideLiteral text = literal ∧ (scan.run dialect literal text).named = scan.named ∧
      (scan.run dialect literal text).paid = scan.stack := by
  have hpaid : ∀ {scan : Scan}, scan.ahead.opened = 0 → scan.paid = scan.stack := fun h => by
    rw [Scan.paid, h, Frame.charge_zero, Stack.raise_nothing]
  induction text generalizing literal sign scan with
  | nil =>
    obtain rfl : literal = false := by simpa [isFree] using h
    exact ⟨rfl, rfl, hpaid hopened⟩
  | cons c cs ih =>
    rw [isFree] at h
    rw [insideLiteral_cons, Scan.run_cons]
    split at h
    · subst c
      rw [Scan.step_quote]
      obtain ⟨hquotes, hnamed, hrun⟩ := @ih _ _ h ⟨scan.named, .nothing, scan.paid⟩ le_rfl rfl
      have hflip : (literal != ('\'' == '\'')) = !literal := by cases literal <;> rfl
      rw [hflip, hquotes, hnamed, hrun, hpaid hopened]
      exact ⟨by cases literal <;> rfl, rfl, rfl⟩
    · rename_i hquote
      have hsame : (literal != (c == '\'')) = literal := by
        rw [beq_eq_false_iff_ne.2 hquote]
        cases literal <;> rfl
      rw [beq_eq_false_iff_ne.2 hquote] at hsame ⊢
      rw [hsame]
      split at h
      · rename_i hskip
        have hstep : scan.step dialect literal c = scan := by
          rw [Scan.step, if_neg hquote, if_pos hskip]
        rw [hstep]
        obtain ⟨hquotes, hrest⟩ := ih h hsign hopened
        exact ⟨by rw [hquotes]; cases literal <;> rfl, hrest⟩
      · rename_i hskip
        obtain ⟨rfl, hblank⟩ : literal = false ∧ isBlank c = false := by simpa using hskip
        simp only [Bool.and_eq_true, Bool.not_eq_true', Bool.or_eq_false_iff, beq_eq_false_iff_ne]
          at h
        obtain ⟨⟨⟨hbare, ⟨hopen, hclose⟩, hcomma⟩, hi⟩, hrest⟩ := h
        have hcharge : scan.ahead.charge dialect c = 0 := by
          have hnot : (scan.ahead.sign && fold c == 'i') = false := by
            revert hi hsign
            cases scan.ahead.sign <;> cases sign <;> simp
          simp [Ahead.charge, hopened, hcomma, hnot]
        rw [Scan.step_code hblank hquote ⟨hopen, hclose⟩, hcharge, hbare]
        have hopened' : (scan.ahead.next dialect c).opened = 0 := by simp [Ahead.next, hopen]
        have hmore := @ih _ _ hrest ⟨scan.named || !true, scan.ahead.next dialect c,
          scan.stack.raise (.charge 0)⟩ le_rfl hopened'
        simpa using hmore

theorem finds_of_isFree (h : isFree false (!fresh) text = true) :
    Finds dialect fresh false 0 text := by
  have hrun : ∀ scan : Scan, scan.settled.ahead.sign ≤ (!fresh) →
      insideLiteral text = false ∧ (scan.settled.run dialect false text).named = scan.named ∧
        (scan.settled.run dialect false text).paid = scan.paid := fun scan hsign =>
    run_of_isFree h hsign rfl
  obtain ⟨hquotes, hnamed, -⟩ := hrun Scan.start (Bool.false_le _)
  refine ⟨hquotes, fun scan => ?_, fun scan hscan => paid_le_of_settled scan ?_, by simp⟩
  · rw [Scan.named_run] at hnamed
    have hstart : (Scan.start.run dialect false text).named = false := hnamed
    rw [Scan.named_run, hstart, Bool.or_false]
  · have hsign : scan.settled.ahead.sign ≤ (!fresh) := by
      cases fresh with
      | false => exact Bool.le_true _
      | true => exact (hscan rfl).1
    rw [(hrun scan hsign).2.2, Stack.raise_nothing]

theorem finds_comma : Finds dialect false true (.charge (commaCharge dialect)) ", ".toList := by
  refine finds_of_run_le (by decide) fun scan => le_of_eq ?_
  have hcomma : isBlank ',' = false ∧ isBare ',' = true ∧ isWordChar ',' = false ∧
      (fold ',' == 'i') = false ∧ isBlank ' ' = true := by decide
  have hsplit : ", ".toList = [',', ' '] := rfl
  rw [hsplit, Scan.run_cons, Scan.step_code hcomma.1 (by decide) (by decide), Scan.run_cons,
    Scan.step_blank hcomma.2.2.2.2, Scan.run_nil]
  simp [Ahead.next, Ahead.charge, Ahead.nothing, Scan.paid, hcomma]

/-! ### Calls -/

/-- Parentheses are charged for the word before them and for what stands in them. -/
theorem Finds.run_parens_le (h : Finds dialect true ends frame inner) (scan : Scan) :
    scan.run dialect false ('(' :: inner ++ [')']) ≤ ⟨scan.named, .nothing,
      scan.paid.raise (.parens (nameCharge dialect scan.ahead.word + frame.total))⟩ := by
  have hopen : (false != ('(' == '\'')) = false := by decide
  rw [List.cons_append, Scan.run_cons, hopen, Scan.step_open, Scan.run_append, h.quotes]
  have hinside := h.paid_le ⟨scan.named, ⟨false, [], nameCharge dialect scan.ahead.word⟩,
    scan.paid.cons 0⟩ fun _ => le_rfl
  rw [Scan.run_cons, Bool.false_bne, Scan.step_close, Scan.run_nil]
  refine ⟨h.named_le _, le_rfl, (Stack.pop_mono ((Scan.le_paid _).trans hinside)).trans_eq ?_⟩
  simp [Scan.paid]

/-- A name in an idiom's form, behind which parentheses are charged `n` at most. -/
def IsCheap (dialect : Dialect) (n : Nat) (name : List Char) : Prop :=
  name ≠ [] ∧ (∀ c ∈ name, isWordChar c = true) ∧ isFree false true name = true ∧
    ChargesAtMost dialect n (upperAscii name).reverse

instance (n : Nat) (name : List Char) : Decidable (IsCheap dialect n name) :=
  inferInstanceAs (Decidable (_ ∧ _ ∧ _ ∧ _))

theorem finds_call {name : String} {args : List (List Char)} {n : Nat}
    (hname : IsCheap dialect n name.toList)
    (hargs : Finds dialect true ends frame (", ".toList.intercalate args)) :
    Finds dialect false true (.parens (n + frame.total)) (call name args) := by
  obtain ⟨hne, hword, hfree, hcheap⟩ := hname
  have hfinds : Finds dialect false false 0 name.toList := finds_of_isFree hfree
  rw [call, List.append_assoc]
  refine finds_of_run_le ?_ fun scan => ?_
  · rw [insideLiteral_append, hfinds.quotes, List.cons_append, insideLiteral_cons,
      insideLiteral_append, hargs.quotes]
    rfl
  · have hend := (@Scan.le_run_word dialect _ hword hne scan).2.1.2.1
    have hpaid := hfinds.paid_le scan (by simp)
    rw [Stack.raise_nothing] at hpaid
    rw [Scan.run_append, hfinds.quotes]
    refine (hargs.run_parens_le _).trans ⟨hfinds.named_le scan, le_rfl, Stack.raise_mono hpaid ?_⟩
    exact Frame.parens_mono (Nat.add_le_add_right (hcheap.nameCharge_le hend) _)

/-- An empty pair of parentheses is not charged. -/
theorem finds_emptyCall {name : String} (hname : isFree false true name.toList = true) :
    Finds dialect false true 0 (call name []) := by
  have hfinds : Finds dialect false false 0 name.toList := finds_of_isFree hname
  have hempty : call name [] = name.toList ++ ['(', ')'] := by simp [call]
  rw [hempty]
  refine finds_of_run_le ?_ fun scan => ?_
  · rw [insideLiteral_append, hfinds.quotes]
    rfl
  · have hopen : (false != ('(' == '\'')) = false := by decide
    have hpaid := hfinds.paid_le scan (by simp)
    rw [Scan.run_append, hfinds.quotes, Bool.bne_false, Scan.run_cons, Scan.step_open, hopen,
      Scan.run_cons, Scan.step_close, Scan.run_nil]
    refine ⟨hfinds.named_le scan, le_rfl, ?_⟩
    simpa using hpaid

/-! ### The forms of idioms -/

theorem finds_cons {next : List Char} {args : List (List Char)}
    (harg : Finds dialect true ends frame arg)
    (hargs : Finds dialect true false frame' (", ".toList.intercalate (next :: args))) :
    Finds dialect true false (frame + (.charge (commaCharge dialect) + frame'))
      (", ".toList.intercalate (arg :: next :: args)) := by
  have hwhole := harg.append (finds_comma.anywhere.append hargs)
  rwa [List.intercalate_cons_of_ne_nil (by simp), List.append_assoc]

theorem finds_pair {last : List Char} (harg : Finds dialect true ends frame arg)
    (hlast : Finds dialect true false frame' last) :
    Finds dialect true false (frame + (.charge (commaCharge dialect) + frame'))
      (", ".toList.intercalate [arg, last]) :=
  finds_cons harg (by simpa using hlast)

theorem finds_alone {name : String} {n : Nat} (hname : IsCheap dialect n name.toList)
    (h : Finds dialect true false frame arg) :
    Finds dialect false true (.parens (n + frame.total)) (call name [arg]) :=
  finds_call hname (by simpa using h)

theorem isFree_of_forall {sign : Bool}
    (h : ∀ c ∈ text, isBare c = true ∧ c ≠ '\'' ∧ c ≠ '(' ∧ c ≠ ')' ∧ c ≠ ',' ∧ fold c ≠ 'i') :
    isFree false sign text = true := by
  induction text generalizing sign with
  | nil => rfl
  | cons c text ih =>
    obtain ⟨⟨hbare, hquote, hopen, hclose, hcomma, hi⟩, hrest⟩ := List.forall_mem_cons.1 h
    rw [isFree, if_neg hquote]
    split
    · exact ih hrest
    · simp [hbare, hopen, hclose, hcomma, hi, ih hrest]

theorem finds_amountText (n : Int) : Finds dialect false false 0 (amountText n) := by
  have hdigits : ∀ n : Nat, ∀ c ∈ Nat.toDigits 10 n,
      isBare c = true ∧ c ≠ '\'' ∧ c ≠ '(' ∧ c ≠ ')' ∧ c ≠ ',' ∧ fold c ≠ 'i' := by
    intro n c hc
    have hdigit := (digits_of_natural? (natural?_toDigits n)).2 c hc
    have hne : ∀ x, x.isDigit = false → c ≠ x := fun x hx => ne_of_class hdigit hx
    rw [fold_of_isDigit hdigit]
    exact ⟨isBare_of_not_mem (by decide) hdigit, hne '\'' (by decide), hne '(' (by decide),
      hne ')' (by decide), hne ',' (by decide), hne 'i' (by decide)⟩
  refine finds_of_isFree (isFree_of_forall ?_)
  cases n with
  | ofNat n =>
    rw [Int.ofNat_eq_natCast, amountText_natCast]
    exact hdigits n
  | negSucc n =>
    rw [amountText_negSucc, List.forall_mem_cons]
    exact ⟨by decide, hdigits (n + 1)⟩

theorem finds_keyword (unit : TimeUnit) :
    Finds dialect false false 0 (' ' :: unit.capitals) := by
  cases unit <;> exact finds_of_isFree (by decide)

theorem finds_castToDate (hdialect : dialect ≠ .sqlite) (h : Finds dialect true false frame arg) :
    Finds dialect false true (.parens frame.total) (castToDate arg) := by
  have htype : Finds dialect false false 0 " AS DATE".toList := finds_of_isFree (by decide)
  have hname : IsCheap dialect 0 "CAST".toList := by
    cases dialect with
    | sqlite => contradiction
    | sqlServer | mySql => decide
  have hcast := finds_alone hname (h.append htype)
  rwa [add_zero, Nat.zero_add] at hcast

theorem finds_renderClock (hdialect : dialect ≠ .sqlite) (clock : Clock) :
    Finds dialect false true 0 (renderClock dialect clock) := by
  have hempty : ∀ {name : String}, isFree false true name.toList = true →
      Finds dialect true false 0 (call name []) := fun hname =>
    (finds_emptyCall hname).anywhere.forget
  cases dialect with
  | sqlite => contradiction
  | sqlServer =>
    cases clock with
    | date => exact finds_castToDate hdialect (hempty (by decide))
    | now => exact finds_emptyCall (by decide)
  | mySql => cases clock <;> exact finds_emptyCall (by decide)

theorem finds_renderExtract (hdialect : dialect ≠ .sqlite) (part : DatePart)
    (h : Finds dialect true false frame arg) :
    Finds dialect false true (.parens (1 + frame.total)) (renderExtract dialect part arg) := by
  cases dialect with
  | sqlite => contradiction
  | sqlServer =>
    cases part with
    | year | month | day => exact finds_alone (by decide) h
    | week =>
      have hunit : Finds .sqlServer true false 0 "week".toList := finds_of_isFree (by decide)
      exact finds_call (by decide) ((finds_pair hunit h).mono (by simp [commaCharge]))
  | mySql => cases part <;> exact finds_alone (by decide) h

theorem finds_renderShift (hdialect : dialect ≠ .sqlite) {unit : TimeUnit} {amount : Int}
    {clock : Clock} (h : Finds dialect true false frame arg)
    (hnew : renderShift dialect unit amount arg clock = some new) :
    Finds dialect false true (.parens (1 + commaCharge dialect + frame.total)) new := by
  have hamount := @finds_amountText dialect amount
  cases dialect with
  | sqlite => contradiction
  | sqlServer =>
    obtain rfl := Option.some.inj hnew
    have hunit : Finds .sqlServer true false 0 unit.keyword.toList := by
      cases unit <;> exact finds_of_isFree (by decide)
    exact finds_call (by decide)
      ((finds_cons hunit (finds_pair hamount.anywhere h)).mono (by simp [commaCharge]))
  | mySql =>
    obtain rfl := Option.some.inj hnew
    have hinterval : Finds .mySql true false 0 "INTERVAL ".toList := finds_of_isFree (by decide)
    have hlast := hinterval.append (hamount.append (finds_keyword unit))
    rw [← List.append_assoc] at hlast
    refine (finds_call (by decide : IsCheap .mySql 1 "DATE_ADD".toList) (finds_pair h hlast)).mono
      (Frame.parens_mono ?_)
    simp [commaCharge]
    omega

theorem finds_parens (h : Finds dialect true ends frame inner) :
    Finds dialect true true (.parens frame.total) ('(' :: inner ++ [')']) where
  quotes := by
    rw [List.cons_append, insideLiteral_cons, insideLiteral_append, h.quotes]
    rfl
  named_le scan := (h.run_parens_le scan).1
  paid_le scan hscan := by
    have hword : scan.ahead.word = [] := List.prefix_nil.1 (hscan rfl).2.1
    have hrun := Scan.paid_mono (h.run_parens_le scan)
    rw [hword, nameCharge_nil, Nat.zero_add] at hrun
    exact hrun.trans_eq Stack.raise_nothing
  ahead_le _ scan := (h.run_parens_le scan).2.1

theorem finds_minus (h : Finds dialect true ends frame inner) :
    Finds dialect false true (.parens frame.total) ('-' :: ('(' :: inner ++ [')'])) := by
  have hquote : (false != ('-' == '\'')) = false := by decide
  refine finds_of_run_le ?_ fun scan => ?_
  · rw [insideLiteral_cons, (finds_parens h).quotes]
    rfl
  · have hrun := h.run_parens_le ⟨scan.named, ⟨true, [], 0⟩, scan.paid⟩
    rw [nameCharge_nil, Nat.zero_add] at hrun
    rw [Scan.run_cons, hquote, Scan.step_sign (Or.inr rfl)]
    exact hrun.trans ⟨le_rfl, le_rfl, Stack.raise_mono (le_of_eq Stack.raise_nothing) le_rfl⟩

/-- The offset to the Monday of a date has the date in a call of `DATEPART`. -/
theorem finds_weekOffset (h : Finds .sqlServer true false frame arg) :
    Finds .sqlServer false true (.parens (1 + frame.total))
      ("-((".toList ++ call "DATEPART" ["weekday".toList, arg] ++
        " + @@DATEFIRST - 2) % 7)".toList) := by
  have hunit : Finds .sqlServer true false 0 "weekday".toList := finds_of_isFree (by decide)
  have hpart : Finds .sqlServer false true (.parens (1 + frame.total))
      (call "DATEPART" ["weekday".toList, arg]) :=
    finds_call (by decide) ((finds_pair hunit h).mono (by simp [commaCharge]))
  have hfirst : Finds .sqlServer true false 0 " + @@DATEFIRST - 2".toList :=
    finds_of_isFree (by decide)
  have hseven : Finds .sqlServer true false 0 " % 7".toList := finds_of_isFree (by decide)
  have hsplit : "-((".toList ++ call "DATEPART" ["weekday".toList, arg] ++
        " + @@DATEFIRST - 2) % 7)".toList =
      '-' :: ('(' :: ('(' :: (call "DATEPART" ["weekday".toList, arg] ++
        " + @@DATEFIRST - 2".toList) ++ [')'] ++ " % 7".toList) ++ [')']) := by
    simp
  rw [hsplit]
  have hwhole := finds_minus ((finds_parens (hpart.anywhere.append hfirst)).append hseven)
  simpa using hwhole

/-- SQL Server counts whole periods from its first date. -/
theorem finds_wholePeriods (part : DatePart) (h : Finds .sqlServer true false frame arg) :
    Finds .sqlServer false true (.parens (2 + frame.total))
      (call "DATEADD" [part.keyword.toList,
        call "DATEDIFF" [part.keyword.toList, "0".toList, arg], "0".toList]) := by
  have hzero : Finds .sqlServer true false 0 "0".toList := finds_of_isFree (by decide)
  have hunit : Finds .sqlServer true false 0 part.keyword.toList := by
    cases part <;> exact finds_of_isFree (by decide)
  have hdiff : Finds .sqlServer false true (.parens (1 + frame.total))
      (call "DATEDIFF" [part.keyword.toList, "0".toList, arg]) :=
    finds_call (by decide) ((finds_cons hunit (finds_pair hzero h)).mono (by simp [commaCharge]))
  refine (finds_call (by decide : IsCheap .sqlServer 1 "DATEADD".toList)
    (finds_cons hunit (finds_pair hdiff.anywhere hzero))).mono (Frame.parens_mono ?_)
  simp [commaCharge]
  omega

/-- MySQL takes the days since Monday from the date. -/
theorem finds_sinceMonday {n : Nat}
    (hdate : Finds .mySql false true (.parens n) (call "DATE" [arg]))
    (hoffset : Finds .mySql false true (.parens n) (call "WEEKDAY" [arg])) :
    Finds .mySql false true (.parens (2 + n)) (renderTruncate .mySql .week arg) := by
  have hinterval : Finds .mySql true false 0 "INTERVAL ".toList := finds_of_isFree (by decide)
  have hunit : Finds .mySql true false 0 " DAY".toList := finds_of_isFree (by decide)
  refine (finds_call (by decide : IsCheap .mySql 1 "DATE_SUB".toList)
    (finds_pair hdate.anywhere ((hinterval.forget.append hoffset).append hunit))).mono
    (Frame.parens_mono ?_)
  simp [commaCharge, Frame.total, Frame.parens, Frame.charge]
  omega

theorem finds_renderTruncate (hdialect : dialect ≠ .sqlite) (part : DatePart)
    {expr : List Char} (h : Finds dialect true false frame arg) (hnil : expr = [] → arg = []) :
    Finds dialect false true (.parens (formCharge dialect (.truncate part expr) + frame.total))
      (renderTruncate dialect part arg) := by
  cases dialect with
  | sqlite => contradiction
  | sqlServer =>
    cases part with
    | week =>
      have hday : Finds .sqlServer true false 0 "day".toList := finds_of_isFree (by decide)
      have hcast := finds_castToDate hdialect h
      refine (finds_call (by decide : IsCheap .sqlServer 1 "DATEADD".toList)
        (finds_cons hday (finds_pair (finds_weekOffset h).anywhere hcast.anywhere.forget))).mono
        (Frame.parens_mono ?_)
      simp [commaCharge, formCharge, Frame.total, Frame.parens]
      omega
    | year | month | day => exact finds_wholePeriods _ h
  | mySql =>
    cases part with
    | year | month =>
      have hformat : ∀ {format : String}, isFree false false format.toList = true →
          Finds .mySql false true (.parens (2 + frame.total))
            (call "DATE_FORMAT" [arg, format.toList]) := fun hfree => by
        refine (finds_call (by decide : IsCheap .mySql 1 "DATE_FORMAT".toList)
          (finds_pair h (finds_of_isFree hfree))).mono (Frame.parens_mono ?_)
        simp [commaCharge]
        omega
      exact hformat (by decide)
    | week =>
      by_cases hexpr : expr = []
      · -- Around nothing the inner calls are empty pairs, which are not charged.
        obtain rfl := hnil hexpr
        have hempty : ∀ {name : String}, isFree false true name.toList = true →
            Finds .mySql false true (.parens 0) (call name [[]]) := finds_emptyCall
        exact (finds_sinceMonday (hempty (by decide)) (hempty (by decide))).mono
          (Frame.parens_mono (by simp [formCharge, hexpr]))
      · have hdate := finds_alone (by decide : IsCheap .mySql 1 "DATE".toList) h
        have hoffset := finds_alone (by decide : IsCheap .mySql 1 "WEEKDAY".toList) h
        refine (finds_sinceMonday hdate hoffset).mono (Frame.parens_mono ?_)
        simp [formCharge, hexpr]
        omega
    | day => exact finds_alone (by decide : IsCheap .mySql 1 "DATE".toList) h

/-- What is loaded in the form of an idiom is loaded in the expression inside it, or paid for. -/
theorem finds_render (hdialect : dialect ≠ .sqlite) {idiom : Idiom}
    {operand : List Char → List Char} (hnil : operand [] = [])
    (harg : ∀ arg ∈ operand? idiom, Finds dialect true false (found dialect arg) (operand arg))
    (h : render dialect operand idiom = some new) :
    Finds dialect false true (.parens (formLoad dialect idiom)) new := by
  cases idiom with
  | extract part arg =>
    obtain rfl := Option.some.inj h
    exact finds_renderExtract hdialect part (harg arg rfl)
  | clock clock =>
    obtain rfl := Option.some.inj h
    exact finds_renderClock hdialect clock
  | shift unit amount base clock => exact finds_renderShift hdialect (harg base rfl) h
  | truncate part arg =>
    obtain rfl := Option.some.inj h
    exact finds_renderTruncate hdialect part (harg arg rfl) fun hempty => hempty ▸ hnil

/-! ### New texts -/

/-- A scan over `new` ends where one over `old` does and finds no more, if literals have the only
quotes in `old`. -/
def Lessens (dialect : Dialect) (literal : Bool) (new old : List Char) : Prop :=
  (Scan.start.run dialect literal old).named = false →
    insideLiteral new = insideLiteral old ∧ ∀ scan : Scan,
      scan.run dialect literal new ≤ scan.run dialect literal old

theorem lessens_order : TextOrder (Lessens dialect) where
  refl _ _ _ := ⟨rfl, fun _ => le_rfl⟩
  trans {literal first second third} h h' hthird := by
    obtain ⟨hquotes', hrun'⟩ := h' hthird
    have hsecond : (Scan.start.run dialect literal second).named = false :=
      le_bot_iff.1 ((hrun' Scan.start).1.trans_eq hthird)
    obtain ⟨hquotes, hrun⟩ := h hsecond
    exact ⟨hquotes.trans hquotes', fun scan => (hrun scan).trans (hrun' scan)⟩
  append {literal front front' back back'} hfront hback hold := by
    rw [Scan.run_append, Scan.named_run, Bool.or_eq_false_iff] at hold
    obtain ⟨hquotes, hrun⟩ := hfront hold.1
    obtain ⟨hquotes', hrun'⟩ := hback hold.2
    refine ⟨by rw [insideLiteral_append, insideLiteral_append, hquotes, hquotes'], fun scan => ?_⟩
    rw [Scan.run_append, Scan.run_append, hquotes]
    exact (Scan.run_mono (hrun scan) back).trans (hrun' _)

theorem Lessens.onlyLiterals (h : Lessens dialect false new old) (hold : OnlyLiterals old) :
    OnlyLiterals new := by
  have hnamed := (@Scan.named_start_iff dialect _).2 hold
  exact Scan.named_start_iff.1 (le_bot_iff.1 (((h hnamed).2 Scan.start).1.trans_eq hnamed))

theorem Lessens.loads {n : Nat} (h : Lessens dialect false new old) (hold : OnlyLiterals old)
    (hloads : Loads dialect n old) : Loads dialect n new :=
  hloads.of_le ((h (Scan.named_start_iff.2 hold)).2 Scan.start)

theorem onlyLiterals_of_call {name gap : List Char} (hname : ∀ c ∈ name, isWordChar c = true)
    (hgap : blank gap = true) (h : OnlyLiterals (name ++ (gap ++ ('(' :: inner ++ [')'])))) :
    OnlyLiterals inner := by
  have hquotes := insideLiteral_of_plain fun c hc => isPlain_of_isWordChar (hname c hc)
  have hparens := (h.of_append hquotes).of_append (insideLiteral_of_blank hgap)
  exact (@OnlyLiterals.of_append ['('] (inner ++ [')']) hparens (by decide)).of_front

/-- A call is written anew by what its parentheses are charged for. -/
theorem lessens_call {name gap : List Char} (hname : ∀ c ∈ name, isWordChar c = true)
    (hne : name ≠ []) (hgap : blank gap = true) (hinner : Nested true inner)
    (hnew : OnlyLiterals inner → Finds dialect false true
      (.parens (parensCharge dialect (upperAscii name).reverse inner)) new) :
    Lessens dialect false new (name ++ (gap ++ ('(' :: inner ++ [')']))) := by
  intro hold
  have hquotes := insideLiteral_of_plain fun c hc => isPlain_of_isWordChar (hname c hc)
  have honly := onlyLiterals_of_call hname hgap (Scan.named_start_iff.1 hold)
  have hclosed := closedBackwards_of_nested hinner honly
  refine ⟨?_, fun scan => ((hnew honly).run_le scan).trans ?_⟩
  · rw [(hnew honly).quotes, insideLiteral_append, hquotes, insideLiteral_append,
      insideLiteral_of_blank hgap, List.cons_append, insideLiteral_cons, insideLiteral_append,
      hclosed.quotes]
    rfl
  · refine le_trans ?_ (Scan.le_run_call hname hne hgap hclosed scan)
    exact ⟨le_sup_left, le_rfl, le_rfl⟩

theorem rewriteClocks_lessens (hdialect : dialect ≠ .sqlite) (text : List Char) :
    Lessens dialect false (rewriteClocks (renderClock dialect) text) text := by
  refine lessens_order.rewriteWords_le fun cs new length _ h => ?_
  obtain ⟨clock, word, parens, rfl, htake, hpos, hmem, hword, hparens⟩ :=
    exists_of_rewriteClockAt? h
  have hne := List.ne_nil_of_mem hmem
  have hnew := finds_renderClock hdialect clock
  refine ⟨hpos, ?_⟩
  rw [htake]
  rcases hparens with rfl | ⟨gap, gap', rfl, hgap, hgap'⟩
  · intro _
    have hquotes := insideLiteral_of_plain fun c hc => isPlain_of_isWordChar (hword c hc)
    rw [List.append_nil]
    refine ⟨hnew.quotes.trans hquotes.symm, fun scan => (hnew.run_le scan).trans ?_⟩
    refine le_trans ?_ (Scan.le_run_word hword hne scan)
    exact ⟨le_rfl, Ahead.nothing_le _, le_of_eq Stack.raise_nothing⟩
  · have hnested : Nested true gap' := (closed_iff_nested.1 (closed_of_not_isMark fun c hc =>
      isMark_of_isBlank (List.all_eq_true.1 hgap' c hc))).mono
    exact lessens_call hword hne hgap hnested fun _ => hnew.mono (Frame.zero_le _)

/-! ### Operands -/

/-- What an operand is written as finds no more than the operand does. -/
theorem finds_operandText {f : List Char → List Char} (hdialect : dialect ≠ .sqlite)
    (hf : ∀ arg, Lessens dialect false (f arg) arg) (hclosed : ClosedBackwards arg)
    (honly : OnlyLiterals arg) :
    Finds dialect true false (found dialect arg) (operandText dialect f arg) := by
  have hnow : Finds dialect true false (found dialect arg) (renderClock dialect .now) :=
    ((finds_renderClock hdialect .now).anywhere.forget).mono (Frame.zero_le _)
  simp only [operandText]
  split
  · cases dialect with
    | sqlite => contradiction
    | sqlServer | mySql => exact hnow
  · rw [if_neg fun h => hdialect h.1]
    have harg := @finds_of_closed dialect _ hclosed honly
    have honlyTrim := (stretch_trim arg).onlyLiterals honly
    obtain ⟨hquotes, hrun⟩ := hf (trim arg) (Scan.named_start_iff.2 honlyTrim)
    obtain ⟨gap, gap', hsplit, hgap, hgap'⟩ := exists_trim arg
    have heven : insideLiteral (trim arg) = false := by
      have heven := hclosed.quotes
      rw [hsplit, insideLiteral_append, insideLiteral_append, insideLiteral_of_blank hgap,
        insideLiteral_of_blank hgap'] at heven
      simpa using heven
    have hle : ∀ scan : Scan,
        scan.run dialect false (f (trim arg)) ≤ scan.run dialect false arg := fun scan => by
      refine (hrun scan).trans_eq ?_
      conv_rhs => rw [hsplit, List.append_assoc, Scan.run_of_blanks hgap hgap']
    exact {
      quotes := hquotes.trans heven
      named_le := fun scan => (hle scan).1.trans (harg.named_le scan)
      paid_le := fun scan hscan => (Scan.paid_mono (hle scan)).trans (harg.paid_le scan hscan)
      ahead_le := by simp }

/-- The expression inside a call that is asked for is closed like what stands between the
parentheses of the call. -/
theorem IdiomCall.closed {idiom : Idiom} {name gap : List Char} (h : IdiomCall idiom name gap inner)
    (honly : OnlyLiterals inner) (harg : arg ∈ operand? idiom) :
    ClosedBackwards arg ∧ OnlyLiterals arg := by
  rcases h.operand harg with hstretch | ⟨clock, rfl⟩
  · have honlyArg := hstretch.onlyLiterals honly
    exact ⟨closedBackwards_of_nested (hstretch.nested h.nested) honlyArg, honlyArg⟩
  · refine ⟨by cases clock <;> decide, (@Scan.named_start_iff .sqlServer _).1 ?_⟩
    cases clock <;> decide

theorem ClosedBackwards.trimEnd (h : ClosedBackwards text) :
    ClosedBackwards (trimEnd text) ∧ found dialect (trimEnd text) = found dialect text := by
  obtain ⟨gap, hsplit, hgap⟩ := exists_trimEnd text
  have hreverse : blank gap.reverse = true := by rwa [blank, List.all_reverse]
  rw [ClosedBackwards, hsplit, List.reverse_append, back_append, back_of_blank hreverse] at h
  refine ⟨h, ?_⟩
  conv_rhs => rw [found, hsplit, Scan.run_append, Scan.run_of_blank hgap, ← found]

/-- An interval that is added to a closed operand is charged beside it. -/
theorem le_run_added {operand gap space keyword more : List Char} {sign : Char}
    (hclosed : ClosedBackwards operand) (hgap : blank gap = true) (hsign : sign = '+' ∨ sign = '-')
    (hspace : blank space = true) (hkeyword : keyword.map fold = "interval".toList)
    (hmore : ∀ c ∈ more, c ≠ '(' ∧ c ≠ ')') (scan : Scan) :
    ⟨scan.named, .nothing,
      scan.paid.raise (found dialect operand + .charge (intervalCharge dialect))⟩ ≤
      scan.run dialect false (operand ++ gap ++ sign :: (space ++ (keyword ++ more))) := by
  have hadded := @Scan.le_run_interval dialect _ _ _ _ hsign hspace hkeyword hmore
    (scan.run dialect false operand)
  rw [List.append_assoc, Scan.run_append, hclosed.quotes, Scan.run_append,
    Scan.run_of_blank hgap, insideLiteral_of_blank hgap, Bool.bne_false, Bool.bne_false]
  refine le_trans ?_ hadded
  refine ⟨?_, le_rfl, ?_⟩
  · rw [Scan.named_run]
    exact le_sup_left
  · rw [← Stack.raise_raise]
    exact Stack.raise_mono (Scan.le_run_of_closed hclosed scan) le_rfl

/-- A shift that is asked for: its base is closed, and its form is paid for by the base with the
interval. -/
theorem exists_of_addedShift {before cs start rest : List Char} {sign : Char} {idiom : Idiom}
    (h : askedShift? before sign cs = some (idiom, start, rest)) (hsign : sign = '+' ∨ sign = '-')
    (honly : OnlyLiterals (before.reverse ++ sign :: cs)) :
    ∃ piece base, rest <:+ cs ∧ before.reverse ++ sign :: cs = start.reverse ++ (piece ++ rest) ∧
      insideLiteral start = false ∧ insideLiteral piece = false ∧ operand? idiom = some base ∧
      ClosedBackwards base ∧ OnlyLiterals base ∧
      ∀ scan : Scan, ⟨scan.named, .nothing, scan.paid.raise (.parens (formLoad dialect idiom))⟩ ≤
        scan.run dialect false piece := by
  obtain ⟨operand, gap, space, keyword, more, unit, amount, hsplit, hsuffix, heven, hoperand, hgap,
    hspace, hkeyword, ⟨hmore, hmoreEven⟩, rfl⟩ := exists_of_shift h
  have hclosed := closedBackwards_of_operandBefore hoperand heven honly.of_front
  obtain ⟨hbase, hfound⟩ := @ClosedBackwards.trimEnd dialect _ hclosed
  have hblank := blank_of_isAsciiBlank hgap
  have hstart : insideLiteral start = false := by
    obtain ⟨gap', hbefore, hgap'⟩ := operandBefore_split hoperand
    rw [← insideLiteral_reverse, hbefore, insideLiteral_append, insideLiteral_append,
      hclosed.quotes, insideLiteral_of_blank (blank_of_isAsciiBlank hgap'),
      insideLiteral_reverse] at heven
    simpa using heven
  refine ⟨_, trimEnd operand, hsuffix, hsplit, hstart, ?_, rfl, hbase, ?_, fun scan => ?_⟩
  · have hquote : (sign == '\'') = false := by rcases hsign with rfl | rfl <;> decide
    have hword : insideLiteral keyword = false := insideLiteral_of_plain fun c hc =>
      isPlain_of_isWordChar (Scan.isWordChar_of_interval hkeyword c hc)
    rw [insideLiteral_append, insideLiteral_append, insideLiteral_cons, insideLiteral_append,
      insideLiteral_append, hclosed.quotes, insideLiteral_of_blank hblank, hquote,
      insideLiteral_of_blank hspace, hword, hmoreEven]
    rfl
  · rw [hsplit] at honly
    have hoperand := (honly.of_append (by rwa [insideLiteral_reverse])).of_front.of_front.of_front
    obtain ⟨gap', hend, -⟩ := exists_trimEnd operand
    rw [hend] at hoperand
    exact hoperand.of_front
  · have hload : Frame.parens (formLoad dialect
        (.shift unit amount (trimEnd operand) (clockOf (trimEnd operand) unit))) ≤
        found dialect operand + .charge (intervalCharge dialect) := by
      rw [formLoad_of_operand? rfl, hfound, Frame.le_iff, Frame.total_add_charge,
        Frame.total_parens, Nat.add_comm]
      exact ⟨Nat.zero_le _, le_rfl⟩
    refine le_trans ?_ (le_run_added hclosed hblank hsign hspace hkeyword hmore scan)
    exact ⟨le_rfl, le_rfl, Stack.raise_mono le_rfl hload⟩

section

variable {f : List Char → List Char} (hdialect : dialect ≠ .sqlite)
  (hf : ∀ arg, Lessens dialect false (f arg) arg) (hnil : f [] = [])

include hdialect hf hnil

theorem finds_renderOperand {idiom : Idiom}
    (hclosed : ∀ arg ∈ operand? idiom, ClosedBackwards arg ∧ OnlyLiterals arg)
    (h : render dialect (operandText dialect f) idiom = some new) :
    Finds dialect false true (.parens (formLoad dialect idiom)) new := by
  refine finds_render hdialect ?_ (fun arg harg => ?_) h
  · have hempty : isNowLiteral (trim []) = false := by decide
    have htrim : f (trim []) = [] := hnil
    simp [operandText, hempty, htrim, hdialect]
  · exact finds_operandText hdialect hf (hclosed arg harg).1 (hclosed arg harg).2

theorem rewriteCalls_lessens (text : List Char) :
    Lessens dialect false (rewriteCalls (render dialect (operandText dialect f)) text) text := by
  refine lessens_order.rewriteWords_le fun cs new length _ h => ?_
  obtain ⟨idiom, name, gap, inner, hnew, htake, hpos, hcall⟩ := exists_of_rewriteCallAt? h
  refine ⟨hpos, ?_⟩
  rw [htake]
  refine lessens_call hcall.word hcall.name_ne_nil hcall.gap hcall.nested fun honly => ?_
  exact (finds_renderOperand hdialect hf hnil (fun arg => hcall.closed honly) hnew).mono
    (Frame.parens_mono (hcall.formLoad_le honly))

theorem rewriteIntervals_lessens (honly : OnlyLiterals text) :
    Lessens dialect false (rewriteIntervals (render dialect (operandText dialect f)) text) text ∧
      ∀ idiom ∈ shiftsAsked (render dialect (operandText dialect f)) text,
        ∃ before sign cs start rest, (sign = '+' ∨ sign = '-') ∧
          askedShift? before sign cs = some (idiom, start, rest) ∧
          Lessens dialect false (before.reverse ++ sign :: cs) text := by
  refine lessens_order.rewriteIntervals_le _ ?_ (lessens_order.refl _ _)
  intro before sign cs idiom start rest new hsign hle hshift hnew
  obtain ⟨piece, base, hsuffix, hsplit, hstart, hpiece, hbase, hclosed, honlyBase, hrun⟩ :=
    exists_of_addedShift hshift hsign (hle.onlyLiterals honly)
  refine ⟨piece, hsuffix, hsplit, ?_⟩
  rw [hstart]
  have hform := finds_renderOperand hdialect hf hnil (by simpa [hbase] using ⟨hclosed, honlyBase⟩)
    hnew
  exact fun _ => ⟨hform.quotes.trans hpiece.symm, fun scan => (hform.run_le scan).trans (hrun scan)⟩

end

end AskSql.Idiom
