import Mathlib.Algebra.Order.BigOperators.Group.List
import AskSql.Proofs.Idiom.Load

/-! The load of a call.  What its arguments have in their levels adds up, and the commas between
them with it.  So a call that spells an idiom is loaded enough to pay for the form of the idiom:
with what its expression is loaded, and with the calls around the expression. -/

namespace AskSql.Idiom

open Text Sql

open Scan (found parensCharge)

variable {dialect : Dialect} {text arg inner name : List Char} {n : Nat}

/-! ### What stands in a text -/

/-- A call in a text, outside of literals. -/
theorem Loads.call {front gap back : List Char}
    (h : Loads dialect n (front ++ (name ++ (gap ++ ('(' :: inner ++ [')']))) ++ back))
    (hfront : insideLiteral front = false) (hname : ∀ c ∈ name, isWordChar c = true)
    (hne : name ≠ []) (hgap : blank gap = true) (hinner : ClosedBackwards inner) :
    parensCharge dialect (upperAscii name).reverse inner ≤ n := by
  have hrun := @Scan.le_run_call dialect _ _ _ hname hne hgap hinner Scan.start
  have htotal := (h.of_front.of_append hfront).anti hrun.2.2 0
  simpa [Scan.start, Scan.paid, Ahead.nothing] using htotal

theorem found_le_of_within {front back : List Char}
    (h : ClosedBackwards (front ++ (arg ++ back))) (hfront : insideLiteral front = false)
    (harg : ClosedBackwards arg) :
    (found dialect arg).total ≤ (found dialect (front ++ (arg ++ back))).total := by
  have hloads := (@loads_iff_of_closed dialect _ _ h).2 le_rfl
  exact (loads_iff_of_closed harg).1 (hloads.of_append hfront).of_front

theorem found_le_of_stretch (h : Stretch text arg) (hnested : Nested true text)
    (honly : OnlyLiterals text) : (found dialect arg).total ≤ (found dialect text).total := by
  have hclosed := closedBackwards_of_nested hnested honly
  have harg := closedBackwards_of_nested (h.nested hnested) (h.onlyLiterals honly)
  obtain ⟨front, back, rfl, -, hfront⟩ := h
  exact found_le_of_within hclosed (hfront honly) harg

/-- A text that is one call is loaded with its parentheses. -/
theorem parensCharge_le_of_callParts (h : callParts text = some (name, inner)) (hne : name ≠ [])
    (hnested : Nested true text) (honly : OnlyLiterals text) :
    parensCharge dialect (upperAscii name).reverse inner ≤ (found dialect text).total := by
  have hstretch := stretch_callParts h
  have hclosed :=
    closedBackwards_of_nested (hstretch.nested hnested) (hstretch.onlyLiterals honly)
  have hloads := (loads_iff_of_closed (closedBackwards_of_nested hnested honly)).2
    (le_refl (found dialect text).total)
  obtain ⟨before, gap, after, hsplit, hbefore, hname, hgap, -⟩ := callParts_split h
  rw [hsplit] at hloads
  have hcall := hloads.call (insideLiteral_of_blank hbefore)
    (fun c hc => isWordChar_of_isNameChar (hname c hc)) hne hgap hclosed
  rwa [← hsplit] at hcall

/-! ### Arguments -/

/-- What two closed texts have in their levels adds up, and the comma between them with it. -/
theorem found_comma {front back : List Char} (hfront : ClosedBackwards front)
    (hback : ClosedBackwards back) :
    found dialect (front ++ ',' :: back) =
      found dialect front + .charge (commaCharge dialect) + found dialect back := by
  have hcomma : isBlank ',' = false ∧ isBare ',' = true ∧ isWordChar ',' = false ∧
      (fold ',' == 'i') = false := by decide
  have hquote : (false != (',' == '\'')) = false := by decide
  have hopened := @Scan.opened_of_closed dialect _ hfront
  have hzero : Scan.start.stack 0 = 0 := rfl
  rw [found, Scan.run_append, hfront.quotes, Bool.bne_false, Scan.run_cons, hquote,
    Scan.step_code hcomma.1 (by decide) (by decide), Scan.run_found hback (by
      simp [Ahead.next, Ahead.nothing, hcomma]), @Scan.run_found dialect _ Scan.start hfront rfl]
  simp [Ahead.charge, hcomma, hopened, hzero]

theorem closedBackwards_intercalate {pieces : List (List Char)}
    (h : ∀ piece ∈ pieces, ClosedBackwards piece) :
    ClosedBackwards ([','].intercalate pieces) := by
  simp only [closedBackwards_iff_passedOver] at h ⊢
  exact passedOver_intercalate (passedOver_of_forall (by decide)) h

theorem found_intercalate {piece : List Char} {pieces : List (List Char)}
    (h : ∀ p ∈ piece :: pieces, ClosedBackwards p) :
    found dialect ([','].intercalate (piece :: pieces)) =
      .charge (pieces.length * commaCharge dialect) +
        ((piece :: pieces).map (found dialect)).sum := by
  induction pieces generalizing piece with
  | nil => simp
  | cons next pieces ih =>
    obtain ⟨hpiece, hrest⟩ := List.forall_mem_cons.1 h
    have hcomma := @found_comma dialect _ _ hpiece (closedBackwards_intercalate hrest)
    rw [intercalate_cons piece (by simp), hcomma, ih hrest, List.length_cons, Nat.succ_mul,
      ← Frame.charge_add_charge]
    simp only [List.map_cons, List.sum_cons]
    ac_rfl

theorem closedBackwards_of_trim (h : ClosedBackwards (trim text)) : ClosedBackwards text := by
  obtain ⟨gap, gap', hsplit, hgap, hgap'⟩ := exists_trim text
  have hblank : ∀ {gap : List Char}, blank gap = true → blank gap.reverse = true := fun h => by
    rwa [blank, List.all_reverse]
  rw [ClosedBackwards] at h ⊢
  rw [hsplit, List.reverse_append, List.reverse_append, back_append, back_of_blank (hblank hgap'),
    Option.bind_some, back_append, h, Option.bind_some, back_of_blank (hblank hgap)]

theorem ink_of_mem_splitArgs (h : arg ∈ splitArgs inner) : blank inner = false := by
  cases hblank : blank inner with
  | false => rfl
  | true => simp [splitArgs, hblank] at h

/-- An argument is loaded no more than the call of which it is one, less the commas. -/
theorem found_add_commas_le (hnested : Nested true inner) (honly : OnlyLiterals inner)
    (harg : arg ∈ splitArgs inner) :
    (found dialect arg).total + ((splitArgs inner).length - 1) * commaCharge dialect ≤
      (found dialect inner).total := by
  obtain ⟨piece, pieces, hinner, hpieces⟩ := hnested.exists_pieces
  have hargs : splitArgs inner = (piece :: pieces).map trim := by
    have hsplit := splitArgsFrom_intercalate (List.cons_ne_nil piece pieces) fun p hp =>
      closed_iff_nested.2 (hpieces p hp)
    rw [splitArgs, ink_of_mem_splitArgs harg, if_neg (by decide), ← hsplit, ← hinner]
  rw [hargs, List.length_map, List.length_cons, Nat.add_sub_cancel]
  obtain ⟨p, hp, rfl⟩ := List.mem_map.1 (hargs ▸ harg)
  have htrim : found dialect (trim p) = found dialect p := by
    obtain ⟨gap, gap', hsplit, hgap, hgap'⟩ := exists_trim p
    conv_rhs => rw [found, hsplit, List.append_assoc, Scan.run_of_blanks hgap hgap', ← found]
  have hclosed : ∀ p ∈ piece :: pieces, ClosedBackwards p := fun p hp => by
    have hstretch := stretch_splitArgs (hargs ▸ List.mem_map_of_mem hp : trim p ∈ splitArgs inner)
    exact closedBackwards_of_trim
      (closedBackwards_of_nested (hstretch.nested hnested) (hstretch.onlyLiterals honly))
  have hle : found dialect p ≤ ((piece :: pieces).map (found dialect)).sum :=
    List.single_le_sum (fun _ h => by
      obtain ⟨q, -, rfl⟩ := List.mem_map.1 h
      exact Frame.zero_le _) _ (List.mem_map_of_mem hp)
  have htotal := Frame.total_mono hle
  rw [hinner, found_intercalate hclosed, Frame.total_charge_add, htrim]
  omega

/-! ### Forms -/

/-- What the form of an idiom has been charged around the expression inside it. -/
def formCharge (dialect : Dialect) : Idiom → Nat
  | .extract _ _ => 1
  | .clock _ => 0
  | .shift _ _ _ _ => 1 + commaCharge dialect
  | .truncate part arg =>
    match dialect, part with
    | .mySql, .day => 1
    | .mySql, .week => if arg = [] then 2 else 3
    | _, _ => 2

/-- The load of the form of an idiom, if its expression is written with the load that it has. -/
def formLoad (dialect : Dialect) (idiom : Idiom) : Nat :=
  match operand? idiom with
  | some arg => formCharge dialect idiom + (found dialect arg).total
  | none => 0

theorem formLoad_of_operand? {idiom : Idiom} (h : operand? idiom = some arg) :
    formLoad dialect idiom = formCharge dialect idiom + (found dialect arg).total := by
  rw [formLoad, h]

theorem formCharge_truncate (part : DatePart) (arg : List Char) :
    1 ≤ formCharge dialect (.truncate part arg) ∧
      formCharge dialect (.truncate part arg) ≤ 2 + commaCharge dialect := by
  unfold formCharge
  dsimp only
  split
  · decide
  · split <;> decide
  · exact ⟨by decide, Nat.le_add_right 2 _⟩

theorem one_le_formCharge {idiom : Idiom} (h : operand? idiom = some arg) :
    1 ≤ formCharge dialect idiom := by
  cases idiom with
  | clock => contradiction
  | extract => exact le_rfl
  | shift => exact Nat.le_add_right 1 _
  | truncate part arg => exact (formCharge_truncate part arg).1

/-! ### Forms in calls -/

theorem found_clockWord (dialect : Dialect) (clock : Clock) :
    (found dialect (clockWord clock)).total = 0 := by
  cases dialect <;> cases clock <;> decide

/-- A text that is one call is loaded with what its name is charged. -/
theorem found_add_nameCharge_le (h : callParts text = some (name, inner)) (hne : name ≠ [])
    (hink : blank inner = false) (hstretch : Stretch inner arg) (hnested : Nested true text)
    (honly : OnlyLiterals text) :
    (found dialect arg).total + nameCharge dialect (upperAscii name).reverse ≤
      (found dialect text).total := by
  have hinner := stretch_callParts h
  have hle := @found_le_of_stretch dialect _ _ hstretch (hinner.nested hnested)
    (hinner.onlyLiterals honly)
  have hparens := @parensCharge_le_of_callParts dialect _ _ _ h hne hnested honly
  rw [parensCharge, hink, if_neg (by decide)] at hparens
  omega

/-- The call of `DATEPART` in the offset to a Monday is charged. -/
theorem succ_found_le_of_weekdayOffset? (h : weekdayOffset? text = some arg)
    (hnested : Nested true text) (honly : OnlyLiterals text) (harg : ClosedBackwards arg) :
    (found dialect arg).total + 1 ≤ (found dialect text).total := by
  have hloads := (@loads_iff_of_closed dialect _ _ (closedBackwards_of_nested hnested honly)).2
    le_rfl
  obtain ⟨front, name, gap, before, after, back, rfl, hfront, hfold, hgap, hbefore, hink, hafter⟩ :=
    exists_of_weekdayOffset? h
  have hname : ∀ c ∈ name, isWordChar c = true := fun c hc => by
    have hletters : ∀ x ∈ "datepart".toList, x.isAlpha = true := by decide
    exact isWordChar_of_foldsToLetter (hletters _ (hfold ▸ List.mem_map_of_mem hc))
  have hne : name ≠ [] := by
    rintro rfl
    contradiction
  have hinner : ClosedBackwards (before ++ (arg ++ after)) := by
    rw [closedBackwards_iff_passedOver] at harg ⊢
    refine (passedOver_of_forall hbefore).append (harg.append (passedOver_of_forall fun c hc => ?_))
    have hblank := List.all_eq_true.1 hafter c hc
    exact ⟨ne_of_class hblank (by decide), ne_of_class hblank (by decide),
      ne_of_class hblank (by decide)⟩
  have hcall := hloads.call hfront hname hne hgap hinner
  have hle := @found_le_of_within dialect _ _ _ hinner
    (insideLiteral_of_not_mem fun c hc => beq_eq_false_iff_ne.2 (hbefore c hc).1) harg
  have hcharge : 1 ≤ nameCharge dialect (upperAscii name).reverse := by
    refine @one_le_nameCharge_of_sameAscii dialect _ name "DATEPART" (by cases dialect <;> decide)
      ?_ List.prefix_rfl
    rw [sameAscii, map_toLower_of_map_fold hfold (by decide)]
    rfl
  have hinnerInk : blank (before ++ (arg ++ after)) = false := by
    rw [blank, List.all_append, ← blank, hink, Bool.false_and]
  rw [parensCharge, hinnerInk, if_neg (by decide)] at hcall
  omega

/-- Where `DATEADD` starts a week, a charged call stands in the offset, around the expression. -/
theorem succ_found_le_of_alignedWeek? {unit amount base : List Char}
    (h : alignedWeek? unit amount base = some arg) (hamount : Nested true amount)
    (honlyAmount : OnlyLiterals amount) (hbase : Nested true base)
    (honlyBase : OnlyLiterals base) :
    (found dialect arg).total + 1 ≤ (found dialect amount).total := by
  obtain ⟨hoffset, hstretch⟩ := alignedWeek?_eq_some h
  have hclosed := closedBackwards_of_nested (hstretch.nested hbase)
    (hstretch.onlyLiterals honlyBase)
  have htrim := stretch_trim amount
  calc (found dialect arg).total + 1
      ≤ (found dialect (trim amount)).total :=
        succ_found_le_of_weekdayOffset? hoffset (htrim.nested hamount)
          (htrim.onlyLiterals honlyAmount) hclosed
    _ ≤ (found dialect amount).total := found_le_of_stretch htrim hamount honlyAmount

/-- Where `DATEADD` counts whole periods, `DATEDIFF` stands around the expression. -/
theorem exists_of_flooredDate? {unit amount base : List Char} {idiom : Idiom}
    (h : flooredDate? unit amount base = some idiom) (hnested : Nested true amount)
    (honly : OnlyLiterals amount) :
    ∃ part arg, idiom = .truncate part arg ∧
      (found dialect arg).total + 1 ≤ (found dialect amount).total := by
  obtain ⟨part, name, inner, unit, zero, arg, hparts, hname, hsplit, rfl⟩ :=
    flooredDate?_eq_some h
  have hne : name ≠ [] := by
    rintro rfl
    contradiction
  have harg : arg ∈ splitArgs inner := by simp [hsplit]
  have hcharge : 1 ≤ nameCharge dialect (upperAscii name).reverse :=
    @one_le_nameCharge_of_sameAscii dialect _ name "DATEDIFF" (by cases dialect <;> decide)
      hname List.prefix_rfl
  have hle := @found_add_nameCharge_le dialect _ arg _ _ hparts hne (ink_of_mem_splitArgs harg)
    (stretch_splitArgs harg) hnested honly
  exact ⟨part, arg, rfl, (Nat.add_le_add_left hcharge _).trans hle⟩

/-- Where `DATE_SUB` starts a week, `DATE` stands around the expression. -/
theorem found_add_callCharge_le_of_weekdayInterval? {base interval : List Char}
    (h : weekdayInterval? base interval = some arg) (hink : arg ≠ []) (hnested : Nested true base)
    (honly : OnlyLiterals base) :
    (found dialect arg).total + callCharge dialect .date ≤ (found dialect base).total := by
  obtain ⟨name, operand, hparts, hname, rfl⟩ := weekdayInterval?_eq_some h
  have hblank : blank operand = false := by
    rw [Bool.eq_false_iff]
    exact fun hblank => hink (trim_of_blank hblank)
  have hne : name ≠ [] := by
    rintro rfl
    contradiction
  have hcharge := @callCharge_le_nameCharge dialect _ _ _ hname List.prefix_rfl
  have hle := @found_add_nameCharge_le dialect _ _ _ _ hparts hne hblank (stretch_trim operand)
    hnested honly
  exact (Nat.add_le_add_left hcharge _).trans hle

theorem callCharge_date_add (dialect : Dialect) :
    callCharge dialect .date + commaCharge dialect = 2 := by
  cases dialect <;> rfl

theorem formCharge_day (arg : List Char) :
    formCharge dialect (.truncate .day arg) = callCharge dialect .date := by
  cases dialect <;> rfl

theorem formCharge_month (arg : List Char) : formCharge dialect (.truncate .month arg) = 2 := by
  cases dialect <;> rfl

theorem formCharge_year (arg : List Char) : formCharge dialect (.truncate .year arg) = 2 := by
  cases dialect <;> rfl

theorem formCharge_shift_le (unit : TimeUnit) (amount : Int) (base : List Char) (clock : Clock) :
    formCharge dialect (.shift unit amount base clock) ≤ 2 := by
  cases dialect <;> simp [formCharge, commaCharge]

/-- A keyword is charged nothing. -/
theorem formLoad_clockWord_le (unit : TimeUnit) (amount : Int) (word clock : Clock)
    (h : commaCharge dialect ≤ n) :
    formLoad dialect (.shift unit amount (clockWord word) clock) ≤
      callCharge dialect .date + n := by
  have hdate := callCharge_date_add dialect
  have hle := @formCharge_shift_le dialect unit amount (clockWord word) clock
  rw [formLoad_of_operand? rfl, found_clockWord]
  omega

theorem eq_of_dateFormatPart? {format : List Char} {part : DatePart}
    (h : dateFormatPart? format = some part) : part = .month ∨ part = .year := by
  obtain ⟨front, back, hsplit, -⟩ := List.lookup_eq_some_iff.1 h
  have hmem : (String.ofList format, part) ∈
      [("'%Y-%m-01'", DatePart.month), ("'%Y-01-01'", .year)] := by simp [hsplit]
  simp only [List.mem_cons, Prod.mk.injEq, List.not_mem_nil, or_false] at hmem
  exact hmem.imp And.right And.right

section

variable {args : List (List Char)} {idiom : Idiom}
  (hargs : ∀ a ∈ args, (found dialect a).total + (args.length - 1) * commaCharge dialect ≤ n)

include hargs

/-- The form of an idiom is paid for by the charge for the name of the call, its commas and what is
charged beside the expression in its argument. -/
theorem formLoad_le_of_mem {a : List Char} {charge beside : Nat} (ha : a ∈ args)
    (hopen : operand? idiom = some arg)
    (hbeside : (found dialect arg).total + beside ≤ (found dialect a).total)
    (hle : formCharge dialect idiom ≤ charge + beside + (args.length - 1) * commaCharge dialect) :
    formLoad dialect idiom ≤ charge + n := by
  have hcommas := hargs a ha
  rw [formLoad_of_operand? hopen]
  omega

theorem formLoad_le_of_operand {charge : Nat} (harg : arg ∈ args)
    (hopen : operand? idiom = some arg)
    (hle : formCharge dialect idiom ≤ charge + (args.length - 1) * commaCharge dialect) :
    formLoad dialect idiom ≤ charge + n :=
  formLoad_le_of_mem hargs harg hopen (Nat.le_of_eq (Nat.add_zero _)) hle

theorem formLoad_le_of_dateCall? {clock : Clock} (h : dateCall? clock args = some idiom) :
    formLoad dialect idiom ≤ callCharge dialect .date + n := by
  have hdate := callCharge_date_add dialect
  unfold dateCall? at h
  split at h
  · split at h
    · obtain rfl := Option.some.inj h
      exact Nat.zero_le _
    · split at h
      · obtain rfl := Option.some.inj h
        exact formLoad_le_of_operand hargs (by simp) rfl (by simp [formCharge_day])
      · contradiction
  · rename_i base modifier
    have hbase := hargs base (by simp)
    have htwo : ∀ {idiom : Idiom}, operand? idiom = some base → formCharge dialect idiom ≤ 2 →
        formLoad dialect idiom ≤ callCharge dialect .date + n := fun hopen hle =>
      formLoad_le_of_operand hargs (by simp) hopen (by simpa [hdate] using hle)
    dsimp only at h
    split at h
    · obtain rfl := Option.some.inj h
      exact htwo rfl (by rw [formCharge_year])
    · split at h
      · obtain rfl := Option.some.inj h
        exact htwo rfl (by rw [formCharge_month])
      · split at h
        · obtain rfl := Option.some.inj h
          exact htwo rfl (by rw [formCharge_day]; omega)
        · split at h
          · contradiction
          · obtain rfl := Option.some.inj h
            split
            · -- SQLite's time value becomes a keyword.
              have hcomma : commaCharge dialect ≤ n := by
                simp only [List.length_cons, List.length_nil] at hbase
                omega
              cases clock
              · exact formLoad_clockWord_le _ _ .date _ hcomma
              · exact formLoad_clockWord_le _ _ .now _ hcomma
            · exact htwo rfl (formCharge_shift_le _ _ _ _)
  · split at h
    · obtain rfl := Option.some.inj h
      refine formLoad_le_of_operand hargs (by simp) rfl ((formCharge_truncate _ _).2.trans ?_)
      simp only [List.length_cons, List.length_nil]
      omega
    · contradiction
  · contradiction

/-- A call that spells an idiom pays for the form of the idiom. -/
theorem formLoad_le_of_recogniseWith {clockOf : List Char → TimeUnit → Clock}
    {function : DateFunction} (hnested : ∀ a ∈ args, Nested true a)
    (honly : ∀ a ∈ args, OnlyLiterals a) (h : recogniseWith clockOf function args = some idiom) :
    formLoad dialect idiom ≤ callCharge dialect function + n := by
  have hdate := callCharge_date_add dialect
  unfold recogniseWith at h
  split at h
  · split at h
    · contradiction
    · obtain rfl := Option.some.inj h
      exact formLoad_le_of_operand hargs (by simp) rfl (by simp [formCharge, callCharge])
  · obtain ⟨part, -, rfl⟩ := Option.map_eq_some_iff.1 h
    exact formLoad_le_of_operand hargs (by simp) rfl (by simp [formCharge, callCharge])
  · -- EXTRACT
    obtain ⟨⟨part, found⟩, hpart, rfl⟩ := Option.map_eq_some_iff.1 h
    have hle := @found_le_of_stretch dialect _ _ (stretch_partFrom? hpart) (hnested _ (by simp))
      (honly _ (by simp))
    exact formLoad_le_of_mem hargs (by simp) rfl (Nat.add_le_add_right hle 0)
      (by simp [formCharge, callCharge])
  · obtain ⟨part, -, rfl⟩ := Option.map_eq_some_iff.1 h
    exact formLoad_le_of_operand hargs (by simp) rfl (by simp [formCharge, callCharge])
  · obtain rfl := Option.some.inj h
    exact Nat.zero_le _
  · obtain rfl := Option.some.inj h
    exact Nat.zero_le _
  · split at h
    · split at h
      · obtain rfl := Option.some.inj h
        exact Nat.zero_le _
      · contradiction
    · contradiction
  · exact formLoad_le_of_dateCall? hargs h
  · exact formLoad_le_of_dateCall? hargs h
  · -- DATEADD
    rename_i unit amount base
    have hweek : ∀ part arg, formCharge dialect (.truncate part arg) ≤
        callCharge dialect .dateAdd + 1 + ([unit, amount, base].length - 1) * commaCharge dialect :=
      fun part arg => (formCharge_truncate part arg).2.trans (by simp [callCharge]; omega)
    split at h
    · obtain ⟨unit, -, rfl⟩ := Option.map_eq_some_iff.1 h
      exact formLoad_le_of_operand hargs (by simp) rfl (by simp [formCharge, callCharge]; omega)
    · split at h
      · rename_i haligned
        obtain rfl := Option.some.inj h
        have hle := @succ_found_le_of_alignedWeek? dialect _ _ _ _ haligned
          (hnested amount (by simp)) (honly amount (by simp)) (hnested base (by simp))
          (honly base (by simp))
        exact formLoad_le_of_mem hargs (by simp) rfl hle (hweek _ _)
      · obtain ⟨part, arg', rfl, hle⟩ := @exists_of_flooredDate? dialect _ _ _ _ h
          (hnested amount (by simp)) (honly amount (by simp))
        exact formLoad_le_of_mem hargs (by simp) rfl hle (hweek _ _)
  · obtain ⟨⟨amount, unit⟩, -, rfl⟩ := Option.map_eq_some_iff.1 h
    exact formLoad_le_of_operand hargs (by simp) rfl (by simp [formCharge, callCharge])
  · -- DATE_SUB
    rename_i base interval
    have hsub : callCharge dialect .subInterval = callCharge dialect .date := rfl
    split at h
    · rename_i week hweek
      obtain rfl := Option.some.inj h
      by_cases hink : week = []
      · subst hink
        have hcharge : formCharge dialect (.truncate .week []) = 2 := by cases dialect <;> rfl
        have hnil : (found dialect []).total + 0 ≤ (found dialect base).total := Nat.zero_le _
        exact formLoad_le_of_mem hargs (by simp) rfl hnil (by simp [hcharge, hsub, hdate])
      · have hle := @found_add_callCharge_le_of_weekdayInterval? dialect _ _ _ hweek hink
          (hnested base (by simp)) (honly base (by simp))
        refine formLoad_le_of_mem hargs (by simp) rfl hle ((formCharge_truncate _ _).2.trans ?_)
        cases dialect <;> simp [callCharge, commaCharge]
    · split at h
      · obtain ⟨amount, -, rfl⟩ := Option.map_eq_some_iff.1 h
        refine formLoad_le_of_operand hargs (by simp) rfl ?_
        cases dialect <;> simp [formCharge, callCharge, commaCharge]
      · contradiction
  · obtain ⟨part, -, rfl⟩ := Option.map_eq_some_iff.1 h
    exact formLoad_le_of_operand hargs (by simp) rfl
      (by simpa [callCharge] using (formCharge_truncate part _).2)
  · -- DATE_FORMAT
    obtain ⟨part, hpart, rfl⟩ := Option.map_eq_some_iff.1 h
    refine formLoad_le_of_operand hargs (by simp) rfl (Nat.le_of_eq ?_)
    have hformat : callCharge dialect .dateFormat = callCharge dialect .date := rfl
    obtain rfl | rfl := eq_of_dateFormatPart? hpart
    · simp [formCharge_month, hformat, hdate]
    · simp [formCharge_year, hformat, hdate]
  · contradiction

end

/-- So does a call that is asked for. -/
theorem IdiomCall.formLoad_le {idiom : Idiom} {gap : List Char} (h : IdiomCall idiom name gap inner)
    (honly : OnlyLiterals inner) :
    formLoad dialect idiom ≤ parensCharge dialect (upperAscii name).reverse inner := by
  obtain ⟨function, hname, hfound⟩ := h.recognised
  rw [parensCharge]
  split
  · rename_i hblank
    have hclock : ∃ clock, idiom = .clock clock := by
      rw [splitArgs, if_pos hblank] at hfound
      cases function <;>
        simp only [recognise, recogniseWith, dateCall?, Option.some.injEq, reduceCtorEq] at hfound
      · exact ⟨.date, hfound.symm⟩
      · exact ⟨.now, hfound.symm⟩
    obtain ⟨clock, rfl⟩ := hclock
    exact le_rfl
  · have hload := @formLoad_le_of_recogniseWith dialect (found dialect inner).total _ _
      (fun a ha => found_add_commas_le h.nested honly ha) _ _
      (fun a ha => (stretch_splitArgs ha).nested h.nested)
      (fun a ha => (stretch_splitArgs ha).onlyLiterals honly) hfound
    have hcharge := @callCharge_le_nameCharge dialect _ _ _ hname List.prefix_rfl
    omega

end AskSql.Idiom
