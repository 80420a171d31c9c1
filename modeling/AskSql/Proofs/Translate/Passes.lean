import Mathlib.Dynamics.PeriodicPts.Defs
import AskSql.Proofs.Translate.Spelling

/-! When a second translation changes nothing.  Translation stops after eight passes, settled or
not, so a text that takes longer is translated further by translating it again. -/

namespace AskSql

open Text Idiom

/-- A pass changes nothing more. -/
def Settled (dialect : Dialect) (sql : List Char) : Prop :=
  translatePass dialect sql = sql

variable {dialect : Dialect} {sql : List Char}

theorem settle_eq_iterate (step : List Char → List Char) (passes : Nat) (text : List Char) :
    settle step passes text = step^[passes] text := by
  induction passes generalizing text with
  | zero => rfl
  | succ passes ih =>
    rw [settle, Function.iterate_succ_apply]
    split
    · rename_i hsame
      rw [hsame, Function.iterate_fixed hsame]
    · exact ih _

theorem translate_toList (dialect : Dialect) (sql : String) :
    (translate dialect sql).toList = (translatePass dialect)^[maxPasses] sql.toList := by
  rw [translate, String.toList_ofList, settle_eq_iterate]

/-- A settled text stays settled. -/
theorem Settled.iterate (h : Settled dialect sql) (passes : Nat) :
    (translatePass dialect)^[passes] sql = sql :=
  Function.iterate_fixed h passes

/-! ### Steps repeated -/

section Iterate

open Function

variable {α : Type} {step : α → α} {start : α} {count later period : Nat}

theorem isFixedPt_iterate_of_le (h : IsFixedPt step (step^[count] start)) (hle : count ≤ later) :
    IsFixedPt step (step^[later] start) := by
  obtain ⟨more, rfl⟩ := Nat.exists_eq_add_of_le hle
  rwa [Nat.add_comm, iterate_add_apply, iterate_fixed h]

/-- What lies on a cycle and comes to rest at all is at rest. -/
theorem isFixedPt_of_isPeriodicPt (hpos : 0 < period) (hcycle : IsPeriodicPt step period start)
    (h : IsFixedPt step (step^[count] start)) : IsFixedPt step start := by
  have hlater := isFixedPt_iterate_of_le h (Nat.le_mul_of_pos_right count hpos)
  have hreturn : step^[count * period] start = start := hcycle.const_mul count
  rwa [hreturn] at hlater

/-- As many steps again change nothing exactly if one of the first steps leads to rest, or none ever
does and the last leads to what as many steps more lead back to. -/
theorem iterate_iterate_eq_iff (hpos : 0 < count) :
    step^[count] (step^[count] start) = step^[count] start ↔
      (∃ first ≤ count, IsFixedPt step (step^[first] start)) ∨
        (∀ steps, ¬IsFixedPt step (step^[steps] start)) ∧
          IsPeriodicPt step count (step^[count] start) := by
  constructor
  · intro hreturn
    by_cases hrests : ∃ steps, IsFixedPt step (step^[steps] start)
    · obtain ⟨steps, hrest⟩ := hrests
      have hlater := isFixedPt_iterate_of_le hrest (Nat.le_add_right _ count)
      rw [iterate_add_apply] at hlater
      exact Or.inl ⟨count, le_rfl, isFixedPt_of_isPeriodicPt hpos hreturn hlater⟩
    · exact Or.inr ⟨fun steps h => hrests ⟨steps, h⟩, hreturn⟩
  · rintro (⟨first, hle, hrest⟩ | ⟨-, hreturn⟩)
    · exact iterate_fixed (isFixedPt_iterate_of_le hrest hle) count
    · exact hreturn

end Iterate

/-- A second translation changes nothing exactly when a text is settled by the last pass, or never
settles and the last pass leads to a text that as many passes more lead back to. -/
theorem translate_twice_iff (dialect : Dialect) (sql : String) :
    translate dialect (translate dialect sql) = translate dialect sql ↔
      (∃ passes ≤ maxPasses, Settled dialect ((translatePass dialect)^[passes] sql.toList)) ∨
        (∀ passes, ¬Settled dialect ((translatePass dialect)^[passes] sql.toList)) ∧
          Function.IsPeriodicPt (translatePass dialect) maxPasses
            ((translatePass dialect)^[maxPasses] sql.toList) := by
  rw [← String.toList_inj, translate_toList, translate_toList]
  exact iterate_iterate_eq_iff (by decide)

/-! ### Stacked limits -/

/-- What a statement selects: text that the date rules leave alone and that does not go on with the
limit before it or with the one after it. -/
structure Selection (body : List Char) : Prop where
  quiet : Quiet body
  calm : Calm body
  start : ∃ c ∈ body.head?, isWordChar c = true
  last : ∃ c ∈ body.getLast?, isBlank c = false ∧ c ≠ ';' ∧ isDecimalDigit c = false
  notDistinct : keyword? "distinct" body = none
  notTop : keyword? "top" body = none

/-- A limit is written in digits. -/
def IsLimit (n : List Char) : Prop :=
  n ≠ [] ∧ ∀ c ∈ n, c.isDigit = true

instance (n : List Char) : Decidable (IsLimit n) :=
  inferInstanceAs (Decidable (_ ∧ _))

/-- The row limits of a statement, at its front and at its end. -/
structure Limits where
  front : List (List Char)
  back : List (List Char)

/-- Limits at the front of a statement. -/
def tops (limits : List (List Char)) : List Char :=
  limits.flatMap fun n => "TOP ".toList ++ n ++ [' ']

/-- Limits at the end of a statement. -/
def trailing (limits : List (List Char)) : List Char :=
  limits.flatMap fun n => " LIMIT ".toList ++ n

/-- The statement that selects `body` under all of `limits`. -/
def Limits.select (limits : Limits) (body : List Char) : List Char :=
  "SELECT ".toList ++ (tops limits.front ++ (body ++ trailing limits.back))

/-- All of `limits` are numbers. -/
structure Limits.Valid (limits : Limits) : Prop where
  front : ∀ n ∈ limits.front, IsLimit n
  back : ∀ n ∈ limits.back, IsLimit n

/-- The number of limits that are not where `dialect` has them. -/
def Limits.misplaced (dialect : Dialect) (limits : Limits) : Nat :=
  match dialect with
  | .sqlServer => limits.back.length
  | .sqlite | .mySql => limits.front.length

/-- `limits` after one pass, which moves one limit at most.  A limit that finds another one in its
place is lost in SQL Server. -/
def Limits.move (dialect : Dialect) (limits : Limits) : Limits :=
  match dialect with
  | .sqlServer =>
    match limits.back.getLast?, limits.front with
    | none, _ => limits
    | some n, [] => ⟨[n], limits.back.dropLast⟩
    | some _, front => ⟨front, limits.back.dropLast⟩
  | .sqlite | .mySql =>
    match limits.front with
    | [] => limits
    | n :: front => ⟨front, limits.back ++ [n]⟩

variable {front back : List (List Char)} {limits : Limits} {body n : List Char}

theorem IsLimit.isDecimalDigit (h : IsLimit n) : ∀ c ∈ n, Text.isDecimalDigit c = true :=
  fun c hc => isDecimalDigit_of_isDigit (h.2 c hc)

theorem IsLimit.quiet (h : IsLimit n) : Quiet n :=
  quiet_of_numeric fun c hc => Or.inl (h.2 c hc)

theorem IsLimit.calm (h : IsLimit n) : Calm n :=
  calm_of_forall fun c hc => by
    have hdigit := h.2 c hc
    refine ⟨?_, ?_, ?_⟩ <;> (rintro rfl; exact absurd hdigit (by decide))

theorem head_tops_append {rest : List Char} (hstart : ∃ c ∈ rest.head?, isWordChar c = true) :
    ∃ c ∈ (tops front ++ rest).head?, isWordChar c = true := by
  cases front with
  | nil => exact hstart
  | cons n front => exact ⟨'T', by simp [tops], by decide⟩

theorem tops_cons_append (n : List Char) (rest : List Char) :
    tops (n :: front) ++ rest = "TOP ".toList ++ (n ++ ([' '] ++ (tops front ++ rest))) := by
  simp [tops]

theorem trailing_append_singleton (back : List (List Char)) (n : List Char) :
    trailing (back ++ [n]) = trailing back ++ " LIMIT ".toList ++ n := by
  simp [trailing]

theorem head_trailing : ∀ c ∈ (trailing back).head?, c = ' ' := by
  intro c hc
  cases back with
  | nil => simp [trailing] at hc
  | cons n back =>
    have hhead : (trailing (n :: back)).head? = some ' ' := by simp [trailing]
    rw [hhead] at hc
    simpa using hc.symm

theorem quiet_tops_append {rest : List Char} (hfront : ∀ n ∈ front, IsLimit n) (hrest : Quiet rest)
    (hstart : ∃ c ∈ rest.head?, isWordChar c = true) : Quiet (tops front ++ rest) := by
  induction front with
  | nil => exact hrest
  | cons n front ih =>
    have htail := ih fun m hm => hfront m (List.mem_cons_of_mem _ hm)
    have hblank : Quiet ([' '] ++ (tops front ++ rest)) :=
      (quiet_of_isQuiet (by decide)).append htail (joins_of_last ⟨' ', by decide, by decide⟩)
    obtain ⟨c, hc, hword⟩ := head_tops_append hstart
    have hjoin : Joins n ([' '] ++ (tops front ++ rest)) := by
      refine joins_of_head ⟨' ', by simp, by decide⟩ ⟨c, ?_, ?_⟩
      · rw [trimStart_append rfl, trimStart_of_head ⟨c, hc, isBlank_of_isWordChar hword⟩]
        exact hc
      · rintro rfl
        exact absurd hword (by decide)
    rw [tops_cons_append]
    exact (quiet_of_isQuiet (by decide)).append
      ((hfront n (by simp)).quiet.append hblank hjoin) (joins_of_last ⟨' ', by decide, by decide⟩)

theorem quiet_append_trailing (hback : ∀ n ∈ back, IsLimit n) (hbody : Quiet body) :
    Quiet (body ++ trailing back) := by
  induction back generalizing body with
  | nil => simpa [trailing] using hbody
  | cons n back ih =>
    have hlimit := (@quiet_of_isQuiet " LIMIT ".toList (by decide)).append
      (hback n (by simp)).quiet (joins_of_last ⟨' ', by decide, by decide⟩)
    have hjoin : Joins body (" LIMIT ".toList ++ n) :=
      joins_of_head ⟨' ', by simp, by decide⟩ ⟨'L', rfl, by decide⟩
    have h := ih (fun m hm => hback m (List.mem_cons_of_mem _ hm)) (hbody.append hlimit hjoin)
    simpa [trailing] using h

theorem calm_tops (hfront : ∀ n ∈ front, IsLimit n) : Calm (tops front) := by
  induction front with
  | nil => exact ⟨rfl, rfl⟩
  | cons n front ih =>
    have htail := ih fun m hm => hfront m (List.mem_cons_of_mem _ hm)
    have htop : Calm "TOP ".toList := by decide
    have hblank : Calm [' '] := by decide
    simpa [tops] using ((htop.append (hfront n (by simp)).calm).append hblank).append htail

theorem calm_trailing (hback : ∀ n ∈ back, IsLimit n) : Calm (trailing back) := by
  induction back with
  | nil => exact ⟨rfl, rfl⟩
  | cons n back ih =>
    have htail := ih fun m hm => hback m (List.mem_cons_of_mem _ hm)
    have hlimit : Calm " LIMIT ".toList := by decide
    simpa [trailing] using (hlimit.append (hback n (by simp)).calm).append htail

theorem Selection.start_append (hbody : Selection body) (rest : List Char) :
    ∃ c ∈ (body ++ rest).head?, isWordChar c = true := by
  obtain ⟨c, hc, hword⟩ := hbody.start
  exact ⟨c, by simp [List.head?_append, Option.mem_def.1 hc], hword⟩

/-- The date rules leave a statement with any limits alone. -/
theorem rewrite_select (hbody : Selection body) (hlimits : limits.Valid) (dialect : Dialect) :
    Idiom.rewrite dialect (limits.select body) = limits.select body := by
  have hquiet : Quiet (limits.select body) :=
    (quiet_of_isQuiet (by decide)).append
      (quiet_tops_append hlimits.front (quiet_append_trailing hlimits.back hbody.quiet)
        (hbody.start_append _))
      (joins_of_last ⟨' ', by decide, by decide⟩)
  have hselect : Calm "SELECT ".toList := by decide
  have hcalm : Calm (limits.select body) :=
    hselect.append ((calm_tops hlimits.front).append
      (hbody.calm.append (calm_trailing hlimits.back)))
  exact rewriteWithin_of_quiet hquiet hcalm.idle dialect _

theorem IsLimit.last (h : IsLimit n) : ∃ c ∈ n.getLast?, isBlank c = false ∧ c ≠ ';' := by
  have hdigit := h.2 _ (List.getLast_mem h.1)
  refine ⟨n.getLast h.1, List.getLast?_eq_some_getLast h.1,
    isBlank_of_isWordChar (isWordChar_of_isDigit hdigit), fun heq => ?_⟩
  rw [heq] at hdigit
  exact absurd hdigit (by decide)

theorem Selection.last_append (hbody : Selection body) (hback : ∀ n ∈ back, IsLimit n)
    (front : List Char) :
    ∃ c ∈ (front ++ (body ++ trailing back)).getLast?, isBlank c = false ∧ c ≠ ';' := by
  induction back using List.reverseRecOn with
  | nil =>
    obtain ⟨c, hc, hblank, hsemicolon, -⟩ := hbody.last
    exact ⟨c, by simp [trailing, List.getLast?_append, Option.mem_def.1 hc], hblank, hsemicolon⟩
  | append_singleton back n _ =>
    obtain ⟨c, hc, hlast⟩ := (hback n (by simp)).last
    rw [trailing_append_singleton]
    refine ⟨c, ?_, hlast⟩
    simp only [List.getLast?_append, Option.mem_def.1 hc, Option.some_or, Option.mem_def]

theorem not_blank_of_head {rest : List Char} (h : ∃ c ∈ rest.head?, isWordChar c = true) :
    ∃ c ∈ rest.head?, isBlank c = false := by
  obtain ⟨c, hc, hword⟩ := h
  exact ⟨c, hc, isBlank_of_isWordChar hword⟩

theorem keyword?_append_trailing {word : String} (h : keyword? word body = none)
    (hword : ' ' ∉ word.toList) : keyword? word (body ++ trailing back) = none := by
  have happend := @keywordChars?_append_of_head body (trailing back) word.toList fun c hc => by
    rwa [head_trailing c hc]
  rw [keyword?, happend, ← keyword?, h]
  rfl

theorem Limits.select_mk (front back : List (List Char)) (body : List Char) :
    Limits.select ⟨front, back⟩ body =
      "SELECT ".toList ++ (tops front ++ (body ++ trailing back)) :=
  rfl

theorem Limits.select_cons_front :
    Limits.select ⟨n :: front, back⟩ body =
      "SELECT ".toList ++
        ("TOP ".toList ++ (n ++ ([' '] ++ (tops front ++ (body ++ trailing back))))) := by
  rw [Limits.select_mk, tops_cons_append]

theorem Limits.select_nil_front :
    Limits.select ⟨[], back⟩ body = "SELECT ".toList ++ (body ++ trailing back) := by
  rw [Limits.select_mk, tops, List.flatMap_nil, List.nil_append]

theorem Limits.select_append_back :
    Limits.select ⟨front, back ++ [n]⟩ body =
      Limits.select ⟨front, back⟩ body ++ (" LIMIT ".toList ++ n) := by
  simp only [Limits.select_mk, trailing_append_singleton, List.append_assoc]

theorem Limits.select_nil_back :
    Limits.select ⟨front, []⟩ body = ("SELECT ".toList ++ tops front) ++ body := by
  simp only [Limits.select_mk, trailing, List.flatMap_nil, List.append_nil, List.append_assoc]

theorem Selection.select_last (hbody : Selection body) (hback : ∀ n ∈ back, IsLimit n) :
    ∃ c ∈ (Limits.select ⟨front, back⟩ body).getLast?, isBlank c = false ∧ c ≠ ';' := by
  rw [Limits.select_mk, ← List.append_assoc]
  exact hbody.last_append hback ("SELECT ".toList ++ tops front)

open RowLimit

/-- The first of the limits at the front moves to the end. -/
theorem toLimit_select (hbody : Selection body) (hn : IsLimit n) (hback : ∀ m ∈ back, IsLimit m) :
    toLimit (Limits.select ⟨n :: front, back⟩ body) = Limits.select ⟨front, back ++ [n]⟩ body := by
  rw [Limits.select_cons_front, Limits.select_append_back, Limits.select_mk, List.append_assoc]
  have hstart := @head_tops_append front _ (hbody.start_append (trailing back))
  have hlast := hbody.last_append hback (tops front)
  exact toLimit_top hn.1 hn.isDecimalDigit hstart hlast

/-- A statement with every limit at its end stays as it is. -/
theorem toLimit_select_nil (hbody : Selection body) :
    toLimit (Limits.select ⟨[], back⟩ body) = Limits.select ⟨[], back⟩ body := by
  rw [Limits.select_nil_front]
  exact toLimit_of_notTop (not_blank_of_head (hbody.start_append _))
    (keyword?_append_trailing hbody.notDistinct (by decide))
    (keyword?_append_trailing hbody.notTop (by decide))

theorem trailingLimit?_select (hbody : Selection body) (hn : IsLimit n)
    (hback : ∀ m ∈ back, IsLimit m) :
    trailingLimit? (Limits.select ⟨front, back ++ [n]⟩ body) =
      some (Limits.select ⟨front, back⟩ body, n) := by
  obtain ⟨c, hc, hblank, -⟩ := hbody.select_last hback
  rw [Limits.select_append_back]
  exact trailingLimit?_append hn.1 hn.isDecimalDigit ⟨c, hc, hblank⟩

/-- The last of the limits at the end is dropped where there is one at the front. -/
theorem toTop_select_cons (hbody : Selection body) (hn : IsLimit n) (hback : ∀ m ∈ back, IsLimit m)
    (m : List Char) :
    toTop (Limits.select ⟨m :: front, back ++ [n]⟩ body) =
      Limits.select ⟨m :: front, back⟩ body := by
  refine toTop_of_hasTop (trailingLimit?_select hbody hn hback) ?_
  rw [Limits.select_cons_front]
  exact hasTop_top

/-- The last of the limits at the end moves to the front where there is none. -/
theorem toTop_select_nil (hbody : Selection body) (hn : IsLimit n) (hback : ∀ m ∈ back, IsLimit m) :
    toTop (Limits.select ⟨[], back ++ [n]⟩ body) = Limits.select ⟨[n], back⟩ body := by
  have hlast := @trailingLimit?_select [] _ _ _ hbody hn hback
  rw [Limits.select_nil_front] at hlast
  rw [Limits.select_cons_front, tops, List.flatMap_nil, List.nil_append]
  exact toTop_of_notTop (not_blank_of_head (hbody.start_append _))
    (keyword?_append_trailing hbody.notDistinct (by decide))
    (keyword?_append_trailing hbody.notTop (by decide)) hlast

/-- A statement with no limit at its end stays as it is. -/
theorem toTop_select (hbody : Selection body) :
    toTop (Limits.select ⟨front, []⟩ body) = Limits.select ⟨front, []⟩ body := by
  obtain ⟨c, hc, hlast⟩ := hbody.last
  refine toTop_of_trailingLimit (trailingLimit?_of_last ⟨c, ?_, hlast⟩)
  rw [Limits.select_nil_back, List.getLast?_append, Option.mem_def.1 hc]
  rfl

theorem Limits.move_nil_append_singleton :
    Limits.move .sqlServer ⟨[], back ++ [n]⟩ = ⟨[n], back⟩ := by
  simp [Limits.move]

theorem Limits.move_cons_append_singleton {m : List Char} :
    Limits.move .sqlServer ⟨m :: front, back ++ [n]⟩ = ⟨m :: front, back⟩ := by
  simp [Limits.move]

/-- What one pass does to a statement with any limits. -/
theorem translatePass_select (hbody : Selection body) (hlimits : limits.Valid) (dialect : Dialect) :
    translatePass dialect (limits.select body) = (limits.move dialect).select body := by
  obtain ⟨front, back⟩ := limits
  rw [translatePass, rewrite_select hbody hlimits]
  cases dialect with
  | sqlServer =>
    induction back using List.reverseRecOn with
    | nil => exact toTop_select hbody
    | append_singleton back n _ =>
      have hn : IsLimit n := hlimits.back n (by simp)
      have hrest : ∀ m ∈ back, IsLimit m := fun m hm => hlimits.back m (by simp [hm])
      cases front with
      | nil =>
        rw [Limits.move_nil_append_singleton, RowLimit.rewrite]
        exact toTop_select_nil hbody hn hrest
      | cons m front =>
        rw [Limits.move_cons_append_singleton, RowLimit.rewrite]
        exact toTop_select_cons hbody hn hrest m
  | sqlite | mySql =>
    cases front with
    | nil => exact toLimit_select_nil hbody
    | cons n front => exact toLimit_select hbody (hlimits.front n (by simp)) hlimits.back

theorem Limits.Valid.move (hlimits : limits.Valid) (dialect : Dialect) :
    (limits.move dialect).Valid := by
  obtain ⟨front, back⟩ := limits
  obtain ⟨hfront, hback⟩ := hlimits
  cases dialect with
  | sqlServer =>
    induction back using List.reverseRecOn with
    | nil => exact ⟨hfront, hback⟩
    | append_singleton back n _ =>
      have hn : IsLimit n := hback n (by simp)
      have hrest : ∀ m ∈ back, IsLimit m := fun m hm => hback m (by simp [hm])
      cases front with
      | nil => exact ⟨by simpa [Limits.move] using hn, by simpa [Limits.move] using hrest⟩
      | cons m front =>
        exact ⟨by simpa [Limits.move] using hfront, by simpa [Limits.move] using hrest⟩
  | sqlite | mySql =>
    cases front with
    | nil => exact ⟨hfront, hback⟩
    | cons n front =>
      refine ⟨fun m hm => hfront m (List.mem_cons_of_mem _ hm), fun m hm => ?_⟩
      rcases List.mem_append.1 hm with hm | hm
      · exact hback m hm
      · exact hfront m (by simp_all)

theorem Limits.misplaced_move (dialect : Dialect) (limits : Limits) :
    (limits.move dialect).misplaced dialect = limits.misplaced dialect - 1 := by
  obtain ⟨front, back⟩ := limits
  cases dialect with
  | sqlServer =>
    induction back using List.reverseRecOn with
    | nil => rfl
    | append_singleton back n _ => cases front <;> simp [Limits.move, Limits.misplaced]
  | sqlite | mySql => cases front <;> rfl

theorem length_select_cons_front :
    (Limits.select ⟨n :: front, back⟩ body).length =
      (Limits.select ⟨front, back⟩ body).length + n.length + 5 := by
  have htop : "TOP ".length = 4 := rfl
  simp only [Limits.select_mk, tops_cons_append, List.length_append, String.length_toList, htop,
    List.length_singleton]
  omega

theorem length_select_append_back :
    (Limits.select ⟨front, back ++ [n]⟩ body).length =
      (Limits.select ⟨front, back⟩ body).length + n.length + 7 := by
  have hlimit : " LIMIT ".length = 7 := rfl
  simp only [Limits.select_append_back, List.length_append, String.length_toList, hlimit]
  omega

/-- A statement is settled when each of its limits is where the dialect has it. -/
theorem settled_select_iff (hbody : Selection body) (hlimits : limits.Valid) :
    Settled dialect (limits.select body) ↔ limits.misplaced dialect = 0 := by
  rw [Settled, translatePass_select hbody hlimits]
  obtain ⟨front, back⟩ := limits
  cases dialect with
  | sqlServer =>
    induction back using List.reverseRecOn with
    | nil => exact ⟨fun _ => rfl, fun _ => rfl⟩
    | append_singleton back n _ =>
      refine ⟨fun h => ?_, fun h => by simp [Limits.misplaced] at h⟩
      have hlength := congrArg List.length h
      cases front with
      | nil =>
        rw [Limits.move_nil_append_singleton, length_select_cons_front,
          length_select_append_back] at hlength
        omega
      | cons m front =>
        rw [Limits.move_cons_append_singleton, length_select_append_back] at hlength
        omega
  | sqlite | mySql =>
    cases front with
    | nil => exact ⟨fun _ => rfl, fun _ => rfl⟩
    | cons n front =>
      refine ⟨fun h => ?_, fun h => by simp [Limits.misplaced] at h⟩
      have hlength : (Limits.select ⟨front, back ++ [n]⟩ body).length =
          (Limits.select ⟨n :: front, back⟩ body).length := congrArg List.length h
      rw [length_select_cons_front, length_select_append_back] at hlength
      omega

/-- Every pass puts one limit more in its place. -/
theorem settled_iterate_select_iff (hbody : Selection body) (hlimits : limits.Valid)
    (passes : Nat) :
    Settled dialect ((translatePass dialect)^[passes] (limits.select body)) ↔
      limits.misplaced dialect ≤ passes := by
  induction passes generalizing limits with
  | zero =>
    rw [Function.iterate_zero_apply, settled_select_iff hbody hlimits]
    exact Nat.le_zero.symm
  | succ passes ih =>
    rw [Function.iterate_succ_apply, translatePass_select hbody hlimits, ih (hlimits.move dialect),
      Limits.misplaced_move]
    exact Nat.sub_le_iff_le_add

/-- The limits of a statement are in their places after one translation unless there are too
many. -/
theorem translate_twice_select_iff (hbody : Selection body) (hlimits : limits.Valid)
    (dialect : Dialect) :
    translate dialect (translate dialect (String.ofList (limits.select body))) =
        translate dialect (String.ofList (limits.select body)) ↔
      limits.misplaced dialect ≤ maxPasses := by
  rw [translate_twice_iff]
  simp only [String.toList_ofList, settled_iterate_select_iff hbody hlimits]
  constructor
  · rintro (⟨passes, hle, hmisplaced⟩ | ⟨hnever, -⟩)
    · exact hmisplaced.trans hle
    · exact absurd le_rfl (hnever (limits.misplaced dialect))
  · exact fun h => Or.inl ⟨_, h, le_rfl⟩

/-- A spelled expression is settled by the first pass. -/
theorem translate_twice_spells {expr : Expr} {text : String} (h : Spells expr text.toList)
    (dialect : Dialect) :
    translate dialect (translate dialect text) = translate dialect text := by
  have hpass : Settled dialect ((translatePass dialect)^[1] text.toList) := by
    rw [Function.iterate_one, h.translatePass_eq, Settled,
      (expr.spells_canonical dialect).translatePass_eq]
  exact (translate_twice_iff dialect text).2 (Or.inl ⟨1, by decide, hpass⟩)

/-- A second translation changes nothing in a text that the first makes of a spelling of an
expression.  In a statement with row limits it changes nothing unless more than eight are to
move. -/
theorem translate_translate_iff (dialect : Dialect) :
    (∀ expr text, Spells expr text →
      translate dialect (translate dialect (String.ofList text)) =
        translate dialect (String.ofList text)) ∧
      ∀ limits body, Limits.Valid limits → Selection body →
        (translate dialect (translate dialect (String.ofList (limits.select body))) =
            translate dialect (String.ofList (limits.select body)) ↔
          limits.misplaced dialect ≤ maxPasses) :=
  ⟨fun _ text h => translate_twice_spells (by rwa [String.toList_ofList]) dialect,
    fun _ _ hlimits hbody => translate_twice_select_iff hbody hlimits dialect⟩

/-- Nine limits before a column take two translations into SQLite. -/
theorem translate_translate_ne_nine :
    let limits : Limits := ⟨"123456789".toList.map fun c => [c], []⟩
    let sql := String.ofList (limits.select ['a'])
    sql = "SELECT TOP 1 TOP 2 TOP 3 TOP 4 TOP 5 TOP 6 TOP 7 TOP 8 TOP 9 a" ∧ limits.Valid ∧
      Selection ['a'] ∧ translate .sqlite (translate .sqlite sql) ≠ translate .sqlite sql := by
  intro limits sql
  have hlimits : limits.Valid := ⟨by decide +kernel, by decide⟩
  have hbody : Selection ['a'] :=
    ⟨quiet_of_isQuiet (by decide),
      by decide, ⟨'a', rfl, by decide⟩, ⟨'a', rfl, by decide⟩, rfl, rfl⟩
  refine ⟨by decide +kernel, hlimits, hbody, fun h => ?_⟩
  have hle := ((translate_translate_iff .sqlite).2 limits ['a'] hlimits hbody).1 h
  exact absurd hle (by decide)

end AskSql
