import AskSql.Proofs.Idiom.Charges
import AskSql.Proofs.Idiom.Inside
import AskSql.Proofs.Idiom.Parentheses

/-! The load of a text: the most that is charged in levels of its parentheses, one inside the other.
A scan finds it that keeps what is charged in every open level and the dearest of the parentheses
closed in it.  Rewriting makes no load greater, and what it asks for is less loaded: this is what
makes the load a measure of the work that rewriting has left.  The length of a text would not do,
nor the number of its calls, since the start of a week may be written with its argument twice. -/

namespace AskSql.Idiom

open Text Sql

variable {dialect : Dialect} {text arg rest inner : List Char}

/-! ### The scan -/

/-- Where a scan stands: whether it has met a quoted name, what it has just passed, and the levels
that are open. -/
@[ext] structure Scan where
  named : Bool
  ahead : Ahead
  stack : Stack

namespace Scan

instance : Preorder Scan where
  le scan scan' := scan.named ≤ scan'.named ∧ scan.ahead ≤ scan'.ahead ∧ scan.stack ≤ scan'.stack
  le_refl _ := ⟨le_rfl, le_rfl, le_rfl⟩
  le_trans _ _ _ h h' := ⟨h.1.trans h'.1, h.2.1.trans h'.2.1, h.2.2.trans h'.2.2⟩

theorem le_iff {scan scan' : Scan} : scan ≤ scan' ↔
    scan.named ≤ scan'.named ∧ scan.ahead ≤ scan'.ahead ∧ scan.stack ≤ scan'.stack := Iff.rfl

/-- The scan at the front of a text. -/
def start : Scan := ⟨false, .nothing, fun _ => 0⟩

/-- The levels when the parenthesis that has just been opened, if any, is paid for. -/
def paid (scan : Scan) : Stack :=
  scan.stack.raise (.charge scan.ahead.opened)

/-- The scan when the parenthesis that has just been opened, if any, is paid for. -/
def settled (scan : Scan) : Scan :=
  ⟨scan.named, { scan.ahead with opened := 0 }, scan.paid⟩

/-- The levels when `c` has been read. -/
def move (dialect : Dialect) (scan : Scan) (c : Char) : Stack :=
  let stack := scan.stack.raise (.charge (scan.ahead.charge dialect c))
  if c = '(' then stack.cons 0 else if c = ')' then stack.pop else stack

/-- What a scan finds in `c`, which stands in a literal or not. -/
def step (dialect : Dialect) (literal : Bool) (scan : Scan) (c : Char) : Scan :=
  if c = '\'' then ⟨scan.named, .nothing, scan.paid⟩
  else if literal || isBlank c then scan
  else ⟨scan.named || !isBare c, scan.ahead.next dialect c, scan.move dialect c⟩

/-- The scan behind a text. -/
def run (dialect : Dialect) (literal : Bool) (scan : Scan) : List Char → Scan
  | [] => scan
  | c :: cs => run dialect (literal != (c == '\'')) (scan.step dialect literal c) cs

variable {literal : Bool} {scan scan' : Scan}

@[simp] theorem step_quote : scan.step dialect literal '\'' = ⟨scan.named, .nothing, scan.paid⟩ :=
  rfl

@[simp] theorem step_open : scan.step dialect false '(' =
    ⟨scan.named, ⟨false, [], nameCharge dialect scan.ahead.word⟩, scan.paid.cons 0⟩ := by
  have hcode : isBlank '(' = false ∧ isBare '(' = true := by decide
  simp [step, move, paid, hcode]

@[simp] theorem step_close :
    scan.step dialect false ')' = ⟨scan.named, .nothing, scan.stack.pop⟩ := by
  have hcode : isBlank ')' = false ∧ isBare ')' = true := by decide
  simp [step, move, hcode]

theorem step_inside {c : Char} (hc : c ≠ '\'') : scan.step dialect true c = scan := by
  simp [step, hc]

theorem step_blank {c : Char} (hc : isBlank c = true) : scan.step dialect literal c = scan := by
  have hquote : c ≠ '\'' := by rintro rfl; contradiction
  simp [step, hquote, hc]

/-- A step over a character that is no blank, no quote of a literal and no parenthesis. -/
theorem step_code {c : Char} (hblank : isBlank c = false) (hquote : c ≠ '\'')
    (hparens : c ≠ '(' ∧ c ≠ ')') :
    scan.step dialect false c = ⟨scan.named || !isBare c, scan.ahead.next dialect c,
      scan.stack.raise (.charge (scan.ahead.charge dialect c))⟩ := by
  rw [step, if_neg hquote, hblank, if_neg (by decide), move, if_neg hparens.1, if_neg hparens.2]

@[simp] theorem run_nil : run dialect literal scan [] = scan := rfl

@[simp] theorem run_cons (c : Char) (cs : List Char) : run dialect literal scan (c :: cs) =
    run dialect (literal != (c == '\'')) (scan.step dialect literal c) cs := rfl

theorem run_append (front back : List Char) :
    run dialect literal scan (front ++ back) =
      run dialect (literal != insideLiteral front) (run dialect literal scan front) back := by
  induction front generalizing literal scan with
  | nil => cases literal <;> rfl
  | cons c front ih =>
    rw [List.cons_append, run_cons, run_cons, ih, insideLiteral_cons]
    congr 1
    cases literal <;> cases c == '\'' <;> cases insideLiteral front <;> rfl

theorem paid_mono (h : scan ≤ scan') : scan.paid ≤ scan'.paid :=
  Stack.raise_mono h.2.2 (Frame.charge_mono h.2.1.2.2)

theorem settled_mono (h : scan ≤ scan') : scan.settled ≤ scan'.settled :=
  ⟨h.1, ⟨h.2.1.1, h.2.1.2.1, le_rfl⟩, paid_mono h⟩

theorem move_mono (h : scan ≤ scan') (c : Char) : scan.move dialect c ≤ scan'.move dialect c := by
  obtain ⟨-, hahead, hstack⟩ := le_iff.1 h
  have hraised := Stack.raise_mono hstack
    (Frame.charge_mono (@Ahead.charge_mono dialect _ _ hahead c))
  simp only [move]
  split
  · exact Stack.cons_mono hraised
  · split
    · exact Stack.pop_mono hraised
    · exact hraised

theorem step_mono (h : scan ≤ scan') (c : Char) :
    scan.step dialect literal c ≤ scan'.step dialect literal c := by
  simp only [step]
  split
  · exact ⟨h.1, le_rfl, paid_mono h⟩
  · split
    · exact h
    · exact ⟨sup_le_sup h.1 le_rfl, Ahead.next_mono h.2.1 c, move_mono h c⟩

theorem run_mono (h : scan ≤ scan') (text : List Char) :
    run dialect literal scan text ≤ run dialect literal scan' text := by
  induction text generalizing literal scan scan' with
  | nil => exact h
  | cons c text ih => exact ih (step_mono h c)

theorem run_of_blank (h : blank text = true) : run dialect literal scan text = scan := by
  induction text with
  | nil => rfl
  | cons c text ih =>
    obtain ⟨hc, hrest⟩ := Bool.and_eq_true_iff.1 h
    have heven : (literal != (c == '\'')) = literal := by
      have hquote : c ≠ '\'' := by rintro rfl; contradiction
      rw [beq_eq_false_iff_ne.2 hquote]
      cases literal <;> rfl
    rw [run_cons, step_blank hc, heven, ih hrest]

/-- Blanks around a text change nothing. -/
theorem run_of_blanks {gap gap' : List Char} (hgap : blank gap = true) (hgap' : blank gap' = true) :
    run dialect literal scan (gap ++ (text ++ gap')) = run dialect literal scan text := by
  rw [run_append, run_append, run_of_blank hgap, run_of_blank hgap', insideLiteral_of_blank hgap]
  cases literal <;> rfl

/-! ### Paying for parentheses -/

theorem le_paid (scan : Scan) : scan.stack ≤ scan.paid :=
  Stack.le_raise

@[simp] theorem settled_paid (scan : Scan) : scan.settled.paid = scan.paid :=
  Stack.raise_nothing

@[simp] theorem settled_settled (scan : Scan) : scan.settled.settled = scan.settled :=
  Scan.ext rfl rfl (settled_paid scan)

/-- A character that does not close a parenthesis has the one before it paid for. -/
theorem step_settled {c : Char} (hblank : isBlank c = false) (hclose : c ≠ ')') :
    scan.settled.step dialect false c = scan.step dialect false c := by
  have hcharge : scan.paid.raise (.charge (scan.settled.ahead.charge dialect c)) =
      scan.stack.raise (.charge (scan.ahead.charge dialect c)) := by
    simp [paid, settled, Ahead.charge, hclose, Nat.add_assoc]
  by_cases hquote : c = '\''
  · rw [hquote, step_quote, step_quote, settled_paid]
    rfl
  · rw [step, step, if_neg hquote, if_neg hquote, hblank, Bool.or_false, if_neg (by decide),
      if_neg (by decide), move, move]
    exact Scan.ext rfl rfl (by rw [← hcharge]; rfl)

/-- A text that does not begin with a closing parenthesis has the one before it paid for. -/
theorem run_settled {gap : List Char} {c : Char} (hgap : blank gap = true)
    (hblank : isBlank c = false) (hclose : c ≠ ')') (cs : List Char) :
    run dialect false scan.settled (gap ++ c :: cs) = run dialect false scan (gap ++ c :: cs) := by
  rw [run_append, run_append, run_of_blank hgap, run_of_blank hgap, insideLiteral_of_blank hgap,
    Bool.bne_false, run_cons, run_cons, step_settled hblank hclose]

/-- It makes nothing cheaper to have a parenthesis paid for early. -/
theorem run_settled_le (text : List Char) :
    (run dialect literal scan text).settled ≤ (run dialect literal scan.settled text).settled := by
  induction text generalizing literal scan with
  | nil => simp
  | cons c text ih =>
    have hskip : ∀ {literal}, (scan.step dialect literal c = scan ∧
        scan.settled.step dialect literal c = scan.settled) →
        (run dialect literal scan (c :: text)).settled ≤
          (run dialect literal scan.settled (c :: text)).settled := by
      rintro literal ⟨hstep, hsettled⟩
      rw [run_cons, run_cons, hstep, hsettled]
      exact ih
    cases literal with
    | true =>
      by_cases hquote : c = '\''
      · subst c
        rw [run_cons, run_cons, step_quote, step_quote, settled_paid]
        rfl
      · exact hskip ⟨step_inside hquote, step_inside hquote⟩
    | false =>
      by_cases hblank : isBlank c = true
      · exact hskip ⟨step_blank hblank, step_blank hblank⟩
      · by_cases hclose : c = ')'
        · subst c
          rw [run_cons, run_cons, step_close, step_close]
          have hle : (⟨scan.named, .nothing, scan.stack.pop⟩ : Scan) ≤
              ⟨scan.named, .nothing, scan.paid.pop⟩ :=
            ⟨le_rfl, le_rfl, Stack.pop_mono (le_paid scan)⟩
          exact settled_mono (run_mono hle text)
        · rw [run_cons, run_cons, step_settled (by simpa using hblank) hclose]

/-! ### What a scan keeps -/

/-- A step charges the innermost level, and opens a level or closes one at a parenthesis. -/
theorem step_stack (c : Char) :
    ∃ n, (scan.ahead.opened ≤ 2 → n ≤ 5) ∧
      ((scan.step dialect literal c).stack = scan.stack.raise (.charge n) ∨
        (c = '(' ∧ (scan.step dialect literal c).stack = (scan.stack.raise (.charge n)).cons 0) ∨
        (c = ')' ∧ (scan.step dialect literal c).stack = (scan.stack.raise (.charge n)).pop)) := by
  simp only [step]
  split
  · exact ⟨_, fun h => h.trans (by decide), Or.inl rfl⟩
  · split
    · exact ⟨0, fun _ => Nat.zero_le 5, Or.inl (by simp)⟩
    · refine ⟨scan.ahead.charge dialect c, fun h => Ahead.charge_le h c, ?_⟩
      simp only [move]
      by_cases hopen : c = '('
      · simp [hopen]
      · by_cases hclose : c = ')' <;> simp [hopen, hclose]

theorem opened_step_le (h : scan.ahead.opened ≤ 2) (c : Char) :
    (scan.step dialect literal c).ahead.opened ≤ 2 := by
  simp only [step]
  split
  · exact Nat.zero_le 2
  · split
    · exact h
    · exact Ahead.opened_next_le c

/-- No level loses its load by a scan. -/
theorem bounded_of_run {n : Nat} {text : List Char}
    (h : (run dialect literal scan text).stack.Bounded n) : scan.stack.Bounded n := by
  induction text generalizing literal scan with
  | nil => exact h
  | cons c text ih =>
    have hstep := ih h
    obtain ⟨m, -, hmove⟩ := @step_stack dialect literal scan c
    refine Stack.Bounded.anti ?_ (@Stack.le_raise scan.stack (.charge m))
    rcases hmove with hmove | ⟨-, hmove⟩ | ⟨-, hmove⟩
    · rwa [hmove] at hstep
    · rwa [hmove, Stack.bounded_push_iff] at hstep
    · rwa [hmove, Stack.bounded_pop_iff] at hstep

/-- Each character adds five to the load at most. -/
theorem bounded_run {n : Nat} (h : scan.stack.Bounded n) (hopened : scan.ahead.opened ≤ 2)
    (text : List Char) : (run dialect literal scan text).stack.Bounded (n + 5 * text.length) := by
  induction text generalizing literal scan n with
  | nil => exact h
  | cons c text ih =>
    obtain ⟨m, hm, hmove⟩ := @step_stack dialect literal scan c
    have hbounded : (scan.stack.raise (.charge m)).Bounded (n + 5) := by
      have hraised := h.raise (.charge m)
      rw [Frame.total_charge] at hraised
      exact fun depth => (hraised depth).trans (Nat.add_le_add_left (hm hopened) n)
    have hstep : (scan.step dialect literal c).stack.Bounded (n + 5) := by
      rcases hmove with hmove | ⟨-, hmove⟩ | ⟨-, hmove⟩
      · rwa [hmove]
      · rwa [hmove, Stack.bounded_push_iff]
      · rwa [hmove, Stack.bounded_pop_iff]
    have hrun := @ih (literal != (c == '\'')) _ _ hstep (opened_step_le hopened c)
    have hlength : n + 5 * (c :: text).length = n + 5 + 5 * text.length := by
      rw [List.length_cons]
      omega
    rwa [hlength]

theorem named_step (c : Char) : (scan.step dialect literal c).named =
    (scan.named || (start.step dialect literal c).named) := by
  simp only [step]
  split
  · simp [start]
  · split <;> simp [start]

theorem named_run (text : List Char) : (run dialect literal scan text).named =
    (scan.named || (run dialect literal start text).named) := by
  induction text generalizing literal scan with
  | nil => simp [start]
  | cons c text ih =>
    rw [run_cons, run_cons, ih, @ih _ (start.step dialect literal c), named_step, Bool.or_assoc]

/-- A scan meets a quoted name unless literals have the only quotes. -/
theorem named_start_iff :
    (run dialect false start text).named = false ↔ OnlyLiterals text := by
  suffices hfrom : ∀ literal, (run dialect literal start text).named = false ↔
      ∀ front c back, text = front ++ c :: back → (literal != insideLiteral front) = false →
        c ≠ '"' ∧ c ≠ '`' ∧ c ≠ '[' ∧ c ≠ ']' by
    rw [hfrom, OnlyLiterals]
    simp
  induction text with
  | nil => simp [start]
  | cons c text ih =>
    intro literal
    have hfirst : (start.step dialect literal c).named = false ↔
        (literal = false → c ≠ '"' ∧ c ≠ '`' ∧ c ≠ '[' ∧ c ≠ ']') := by
      by_cases hquote : c = '\''
      · simp [step, start, hquote]
      · have hbare : isBare c = true ↔ c ≠ '"' ∧ c ≠ '`' ∧ c ≠ '[' ∧ c ≠ ']' := by
          simp only [isBare, opensName, Bool.and_eq_true, Bool.not_eq_true', Bool.or_eq_false_iff,
            beq_eq_false_iff_ne, bne_iff_ne]
          tauto
        rw [← hbare]
        cases literal with
        | true => simp [step, start, hquote]
        | false =>
          by_cases hblank : isBlank c = true
          · simp [step, start, hquote, hblank, isBare_of_isBlank hblank]
          · simp [step, start, hquote, hblank]
    rw [run_cons, named_run, Bool.or_eq_false_iff, hfirst, ih]
    constructor
    · rintro ⟨hc, hrest⟩ front d back hsplit hfront
      cases front with
      | nil =>
        obtain ⟨rfl, -⟩ := List.cons.inj hsplit
        exact hc (by simpa [insideLiteral] using hfront)
      | cons e front =>
        obtain ⟨rfl, rfl⟩ := List.cons.inj hsplit
        refine hrest front d back rfl ?_
        rw [← hfront, insideLiteral_cons]
        cases literal <;> cases c == '\'' <;> cases insideLiteral front <;> rfl
    · intro h
      refine ⟨fun hliteral => h [] c text rfl (by simp [hliteral, insideLiteral]),
        fun front d back hsplit hfront => h (c :: front) d back (by rw [hsplit]; rfl) ?_⟩
      rw [← hfront, insideLiteral_cons]
      cases literal <;> cases c == '\'' <;> cases insideLiteral front <;> rfl

/-- A front without parentheses takes nothing from what has been found. -/
theorem le_run_of_forall (h : ∀ c ∈ text, c ≠ '(' ∧ c ≠ ')') :
    ⟨scan.named, .nothing, scan.stack⟩ ≤ run dialect literal scan text := by
  suffices hstack : scan.stack ≤ (run dialect literal scan text).stack by
    have hnamed := @named_run dialect literal scan text
    exact le_iff.2 ⟨hnamed ▸ le_sup_left, Ahead.nothing_le _, hstack⟩
  induction text generalizing literal scan with
  | nil => exact le_rfl
  | cons c text ih =>
    rw [List.forall_mem_cons] at h
    refine le_trans ?_ (ih h.2)
    obtain ⟨n, -, hmove⟩ := @step_stack dialect literal scan c
    obtain hmove : (scan.step dialect literal c).stack = scan.stack.raise (.charge n) := by
      simpa [h.1] using hmove
    rw [hmove]
    exact Stack.le_raise

theorem start_le (scan : Scan) : start ≤ scan :=
  ⟨Bool.false_le _, Ahead.nothing_le _, fun _ => Frame.zero_le _⟩

/-- What a scan with nothing before it finds in the level of a text. -/
def found (dialect : Dialect) (text : List Char) : Frame :=
  (start.run dialect false text).stack 0

/-! ### Closed texts -/

/-- `scan` when more has been found in its innermost level, and in the levels `frames` inside of
it. -/
def deeper (scan : Scan) (named : Bool) (ahead : Ahead) (frame : Frame) (frames : List Frame) :
    Scan :=
  ⟨scan.named || named, ahead, (scan.stack.raise frame).under frames⟩

/-- A step in the levels inside of a scan, seen from the front where the search for the beginning of
a call makes the step `h` from behind. -/
theorem exists_step {literal' : Bool} {depth depth' : Nat} {c : Char} {frames : List Frame}
    (h : backStep (literal, depth) c = some (literal', depth')) (hlength : frames.length = depth')
    (named : Bool) (ahead : Ahead) (frame : Frame) :
    ∃ named' ahead' frame' frames', frames'.length = depth ∧ ∀ scan : Scan,
      (scan.deeper named ahead frame frames).step dialect literal' c =
        scan.deeper named' ahead' frame' frames' := by
  simp only [backStep] at h
  split at h
  · subst c
    simp only [Option.some.injEq, Prod.mk.injEq] at h
    obtain ⟨frames', frame', hsame, hraise⟩ :=
      Stack.exists_raise_under frames frame (.charge ahead.opened)
    refine ⟨named, .nothing, frame', frames', hsame.trans (hlength.trans h.2.symm), fun scan => ?_⟩
    simp [deeper, paid, hraise]
  · rename_i hquote
    split at h
    · simp only [Option.some.injEq, Prod.mk.injEq] at h
      obtain ⟨rfl, rfl⟩ := h
      exact ⟨named, ahead, frame, frames, hlength, fun _ => step_inside hquote⟩
    · split at h
      · subst c
        obtain ⟨rfl, rfl⟩ : false = literal' ∧ depth + 1 = depth' := by simpa using h
        obtain ⟨first, rest, rfl⟩ := List.exists_cons_of_length_eq_add_one hlength
        obtain ⟨frames', frame', hsame, hraise⟩ :=
          Stack.exists_raise_under rest frame (.parens first.total)
        refine ⟨named, .nothing, frame', frames', hsame.trans (Nat.succ.inj hlength),
          fun scan => ?_⟩
        simp [deeper, Stack.under, hraise]
      · rename_i hclose
        split at h
        · subst c
          split at h
          · contradiction
          · rename_i hpos
            obtain ⟨rfl, rfl⟩ : false = literal' ∧ depth - 1 = depth' := by simpa using h
            obtain ⟨frames', frame', hsame, hraise⟩ :=
              Stack.exists_raise_under frames frame (.charge ahead.opened)
            refine ⟨named, ⟨false, [], nameCharge dialect ahead.word⟩, frame', 0 :: frames', ?_,
              fun scan => ?_⟩
            · rw [List.length_cons, hsame, hlength]
              omega
            · simp only [step_open, deeper, paid, hraise]
              rfl
        · rename_i hopen
          obtain ⟨rfl, rfl⟩ : false = literal' ∧ depth = depth' := by simpa using h
          by_cases hblank : isBlank c = true
          · exact ⟨named, ahead, frame, frames, hlength, fun _ => step_blank hblank⟩
          · obtain ⟨frames', frame', hsame, hraise⟩ :=
              Stack.exists_raise_under frames frame (.charge (ahead.charge dialect c))
            refine ⟨named || !isBare c, ahead.next dialect c, frame', frames',
              hsame.trans hlength, fun scan => ?_⟩
            rw [step_code (by simpa using hblank) hquote ⟨hopen, hclose⟩]
            simp only [deeper, hraise, Bool.or_assoc]

theorem exists_run_of_back {depth : Nat} (h : back (literal, depth) text.reverse = some (false, 0))
    (ahead : Ahead) :
    ∃ named ahead' frame frames, frames.length = depth ∧ ∀ scan : Scan, scan.ahead = ahead →
      scan.run dialect false text = scan.deeper named ahead' frame frames := by
  induction text using List.reverseRecOn generalizing literal depth with
  | nil =>
    obtain ⟨rfl, rfl⟩ : literal = false ∧ depth = 0 := by simpa using h
    refine ⟨false, ahead, 0, [], rfl, fun scan hscan => ?_⟩
    simp [deeper, Stack.under, ← hscan]
  | append_singleton text c ih =>
    rw [List.reverse_append, List.reverse_singleton, List.singleton_append, back_cons,
      Option.bind_eq_some_iff] at h
    obtain ⟨⟨literal', depth'⟩, hstep, hrest⟩ := h
    obtain ⟨named, ahead', frame, frames, hlength, hrun⟩ := ih hrest
    obtain ⟨named', ahead'', frame', frames', hlength', hnext⟩ :=
      @exists_step dialect _ _ _ _ _ _ hstep hlength named ahead' frame
    refine ⟨named', ahead'', frame', frames', hlength', fun scan hscan => ?_⟩
    have hliteral : (false != insideLiteral text) = literal' := by
      have hparity := literal_of_back hrest
      rw [insideLiteral_reverse] at hparity
      revert hparity
      cases literal' <;> cases insideLiteral text <;> decide
    rw [run_append, hrun scan hscan, hliteral, run_cons, hnext, run_nil]

/-- What a scan finds in a closed text it finds in its innermost level, whatever came before. -/
theorem run_of_closed (h : ClosedBackwards text) (scan : Scan) :
    scan.run dialect false text =
      ⟨scan.named || (run dialect false { start with ahead := scan.ahead } text).named,
        (run dialect false { start with ahead := scan.ahead } text).ahead,
        scan.stack.raise
          ((run dialect false { start with ahead := scan.ahead } text).stack 0)⟩ := by
  obtain ⟨named, ahead', frame, frames, hlength, hrun⟩ :=
    @exists_run_of_back dialect _ _ _ h scan.ahead
  obtain rfl := List.eq_nil_of_length_eq_zero hlength
  have hfresh := hrun { start with ahead := scan.ahead } rfl
  rw [hrun scan rfl, hfresh]
  simp [deeper, Stack.under, start]

/-- A closed text with nothing before it. -/
theorem run_found (h : ClosedBackwards text) (hscan : scan.ahead = .nothing) :
    scan.run dialect false text = ⟨scan.named || (start.run dialect false text).named,
      (start.run dialect false text).ahead, scan.stack.raise (found dialect text)⟩ := by
  have hfresh : ({ start with ahead := scan.ahead } : Scan) = start := by rw [hscan]; rfl
  rw [run_of_closed h, hfresh]
  rfl

/-- A closed text does not begin with a closing parenthesis. -/
theorem ne_close_of_closed {gap cs : List Char} {c : Char} (hgap : blank gap = true)
    (h : ClosedBackwards (gap ++ c :: cs)) : c ≠ ')' := by
  rintro rfl
  rw [ClosedBackwards, List.reverse_append, List.reverse_cons, back_append,
    Option.bind_eq_some_iff] at h
  obtain ⟨state, hback, hblank⟩ := h
  rw [back_append, Option.bind_eq_some_iff] at hback
  obtain ⟨⟨literal, depth⟩, -, hstep⟩ := hback
  obtain rfl : state = (false, 0) := by
    rw [back_of_blank (by simpa [blank] using hgap)] at hblank
    exact Option.some.inj hblank
  cases literal <;> simp [backStep] at hstep

/-- A closed text that is not blank has the parenthesis before it paid for. -/
theorem run_settled_of_closed (h : ClosedBackwards text) (hink : blank text = false) (scan : Scan) :
    scan.settled.run dialect false text = scan.run dialect false text := by
  obtain ⟨gap, hsplit, hgap⟩ := exists_trimStart text
  obtain ⟨c, hc, hblank⟩ := head_trimStart hink
  obtain ⟨cs, hcs⟩ := List.head?_eq_some_iff.1 hc
  rw [hcs] at hsplit
  have hpaid := @run_settled dialect scan _ _ hgap hblank (ne_close_of_closed hgap (hsplit ▸ h)) cs
  rwa [← hsplit] at hpaid

/-- What is found in a closed text is found in it behind anything. -/
theorem le_run_of_closed (h : ClosedBackwards text) (scan : Scan) :
    scan.paid.raise (found dialect text) ≤ (scan.run dialect false text).paid := by
  cases hblank : blank text with
  | true =>
    have hfound : found dialect text = 0 := by
      rw [found, run_of_blank hblank]
      rfl
    rw [hfound, Stack.raise_nothing, run_of_blank hblank]
  | false =>
    have hle : ⟨scan.named, .nothing, scan.paid⟩ ≤ scan.settled :=
      ⟨le_rfl, Ahead.nothing_le _, le_rfl⟩
    have hrun := (@run_mono dialect false _ _ hle text).2.2
    rw [run_settled_of_closed h hblank, run_found h rfl] at hrun
    exact hrun.trans (le_paid _)

/-- What the parentheses behind `word` are charged with what stands in them. -/
def parensCharge (dialect : Dialect) (word inner : List Char) : Nat :=
  if blank inner then 0 else nameCharge dialect word + (found dialect inner).total

/-- What a scan finds in parentheses it finds behind their level. -/
theorem run_parens (h : ClosedBackwards inner) (scan : Scan) :
    scan.run dialect false ('(' :: inner ++ [')']) =
      ⟨scan.named || (start.run dialect false inner).named, .nothing,
        scan.paid.raise (.parens (parensCharge dialect scan.ahead.word inner))⟩ := by
  have hopen : (false != ('(' == '\'')) = false := by decide
  have hclose : (false != insideLiteral inner) = false := by rw [h.quotes]; rfl
  rw [List.cons_append, run_cons, hopen, step_open, run_append, hclose, parensCharge]
  cases hblank : blank inner with
  | true => simp [run_of_blank hblank, start]
  | false =>
    -- What stands in the parentheses has them paid for, and is read with nothing else before it.
    rw [← run_settled_of_closed h hblank, run_found h rfl]
    simp [settled, paid]

/-- Behind a closed text no parenthesis is due. -/
theorem opened_of_closed (h : ClosedBackwards text) :
    (start.run dialect false text).ahead.opened = 0 := by
  obtain ⟨gap, hsplit, hgap⟩ := exists_trimStart text.reverse
  have htext : text = (trimStart text.reverse).reverse ++ gap.reverse := by
    simpa using congrArg List.reverse hsplit
  have hblank : blank gap.reverse = true := by simpa [blank] using hgap
  rw [htext, run_append, run_of_blank hblank]
  cases hrest : trimStart text.reverse with
  | nil => rfl
  | cons c cs =>
    -- Read backwards, `c` is the first character that is no blank.
    have hink : isBlank c = false := head_dropWhile c (by rw [← trimStart, hrest]; rfl)
    have hback : back (false, 0) (c :: cs) = some (false, 0) := by
      rwa [ClosedBackwards, hsplit, back_append, back_of_blank hgap, hrest] at h
    have hopen : c ≠ '(' := by
      rintro rfl
      simp [backStep] at hback
    rw [List.reverse_cons, run_append, run_cons, run_nil, step]
    split
    · rfl
    · rename_i hquote
      have heven : insideLiteral cs = false := by
        have hparity := literal_of_back hback
        rw [insideLiteral_cons, beq_eq_false_iff_ne.2 hquote] at hparity
        simpa using hparity.symm
      simp [insideLiteral_reverse, heven, hink, Ahead.next, hopen]

/-! ### Calls -/

theorem run_word (h : ∀ c ∈ text, isWordChar c = true) (named : Bool) (word : List Char)
    (stack : Stack) : run dialect false ⟨named, ⟨false, word, 0⟩, stack⟩ text =
      ⟨named, ⟨false, (upperAscii text).reverse ++ word, 0⟩, stack⟩ := by
  induction text generalizing word with
  | nil => rfl
  | cons c text ih =>
    obtain ⟨hc, hrest⟩ := List.forall_mem_cons.1 h
    have hne : ∀ x, isWordChar x = false → c ≠ x := fun x hx => ne_of_class hc hx
    have hparens := ne_of_isPlain (isPlain_of_isWordChar hc)
    have hstep : step dialect false ⟨named, ⟨false, word, 0⟩, stack⟩ c =
        ⟨named, ⟨false, c.toUpper :: word, 0⟩, stack⟩ := by
      rw [step_code (isBlank_of_isWordChar hc) (hne '\'' (by decide)) hparens]
      simp [Ahead.next, Ahead.charge, isBare_of_isWordChar hc, hc, hparens.1, hne ',' (by decide),
        hne '+' (by decide), hne '-' (by decide)]
    have heven : (false != (c == '\'')) = false := by simp [hne '\'' (by decide)]
    rw [run_cons, heven, hstep, ih hrest]
    simp [upperAscii]

/-- A word is what has been passed behind it, or the end of it. -/
theorem le_run_word {name : List Char} (hname : ∀ c ∈ name, isWordChar c = true) (hne : name ≠ [])
    (scan : Scan) : ⟨scan.named, ⟨false, (upperAscii name).reverse, 0⟩, scan.paid⟩ ≤
      scan.run dialect false name := by
  obtain ⟨c, cs, rfl⟩ := List.exists_cons_of_ne_nil hne
  have hc := hname c List.mem_cons_self
  have hpaid := @run_settled dialect scan [] c rfl (isBlank_of_isWordChar hc)
    (ne_of_class hc (by decide)) cs
  have hle : ⟨scan.named, .nothing, scan.paid⟩ ≤ scan.settled :=
    ⟨le_rfl, Ahead.nothing_le _, le_rfl⟩
  have hrun := @run_word dialect _ hname scan.named [] scan.paid
  rw [List.append_nil] at hrun
  rw [List.nil_append] at hpaid
  rw [← hrun, ← hpaid]
  exact run_mono hle _

/-- What a scan finds in a call it finds behind the level of the call. -/
theorem le_run_call {name gap : List Char} (hname : ∀ c ∈ name, isWordChar c = true)
    (hne : name ≠ []) (hgap : blank gap = true) (hinner : ClosedBackwards inner) (scan : Scan) :
    ⟨scan.named || (start.run dialect false inner).named, .nothing,
      scan.paid.raise (.parens (parensCharge dialect (upperAscii name).reverse inner))⟩ ≤
      scan.run dialect false (name ++ (gap ++ ('(' :: inner ++ [')']))) := by
  have hquotes : insideLiteral name = false := insideLiteral_of_plain fun c hc =>
    isPlain_of_isWordChar (hname c hc)
  rw [run_append, hquotes, Bool.bne_false, run_append, run_of_blank hgap,
    insideLiteral_of_blank hgap, Bool.bne_false]
  refine le_trans (le_of_eq ?_) (run_mono (le_run_word hname hne scan) _)
  rw [run_parens hinner]
  simp [paid]

/-! ### Intervals -/

theorem isWordChar_of_interval {keyword : List Char} (h : keyword.map fold = "interval".toList) :
    ∀ c ∈ keyword, isWordChar c = true := by
  have hletters : ∀ x ∈ "interval".toList, x.isAlpha = true := by decide
  exact fun c hc => isWordChar_of_foldsToLetter (hletters _ (h ▸ List.mem_map_of_mem hc))

theorem step_sign {sign : Char} (hsign : sign = '+' ∨ sign = '-') (scan : Scan) :
    scan.step dialect false sign = ⟨scan.named, ⟨true, [], 0⟩, scan.paid⟩ := by
  have hplain : ∀ x ∈ ['+', '-'], isBlank x = false ∧ x ≠ '\'' ∧ x ≠ '(' ∧ x ≠ ')' ∧ x ≠ ',' ∧
      isBare x = true ∧ isWordChar x = false ∧ fold x ≠ 'i' := by decide
  obtain ⟨hblank, hquote, hopen, hclose, hcomma, hbare, hword, hi⟩ :=
    hplain sign (by simpa using hsign)
  rw [step_code hblank hquote ⟨hopen, hclose⟩]
  simpa [Ahead.next, Ahead.charge, hbare, hword, hcomma, hopen, hclose, hi, paid] using hsign

/-- An added interval is charged to the level of its sign. -/
theorem le_run_interval {sign : Char} {space keyword more : List Char}
    (hsign : sign = '+' ∨ sign = '-') (hspace : blank space = true)
    (hkeyword : keyword.map fold = "interval".toList) (hmore : ∀ c ∈ more, c ≠ '(' ∧ c ≠ ')')
    (scan : Scan) :
    ⟨scan.named, .nothing, scan.paid.raise (.charge (intervalCharge dialect))⟩ ≤
      scan.run dialect false (sign :: (space ++ (keyword ++ more))) := by
  have hquote : (false != (sign == '\'')) = false := by rcases hsign with rfl | rfl <;> decide
  rw [run_cons, step_sign hsign, hquote, run_append, run_of_blank hspace,
    insideLiteral_of_blank hspace]
  cases keyword with
  | nil => contradiction
  | cons c keyword =>
    obtain ⟨hc, hrest⟩ := List.forall_mem_cons.1 (isWordChar_of_interval hkeyword)
    have hi : fold c = 'i' := (List.cons.inj hkeyword).1
    have hne : ∀ x, isWordChar x = false → c ≠ x := fun x hx => ne_of_class hc hx
    have hparens := ne_of_isPlain (isPlain_of_isWordChar hc)
    have hnext : step dialect false ⟨scan.named, ⟨true, [], 0⟩, scan.paid⟩ c =
        ⟨scan.named, ⟨false, [c.toUpper], 0⟩,
          scan.paid.raise (.charge (intervalCharge dialect))⟩ := by
      rw [step_code (isBlank_of_isWordChar hc) (hne '\'' (by decide)) hparens]
      simp [Ahead.next, Ahead.charge, isBare_of_isWordChar hc, hi, hc, hne '+' (by decide),
        hne '-' (by decide), hne ',' (by decide), hparens.1]
    have heven : (false != (c == '\'')) = false := by simp [hne '\'' (by decide)]
    rw [List.cons_append, run_cons, Bool.bne_false, heven, hnext]
    exact @le_run_of_forall dialect _ false
      ⟨scan.named, ⟨false, [c.toUpper], 0⟩,
        scan.paid.raise (.charge (intervalCharge dialect))⟩
      (List.forall_mem_append.2
        ⟨fun d hd => ne_of_isPlain (isPlain_of_isWordChar (hrest d hd)), hmore⟩)

end Scan

/-! ### Loads -/

open Scan (found)

/-- No more than `n` is charged in levels of parentheses of a text that are one inside the other,
when it is rewritten into `dialect`. -/
def Loads (dialect : Dialect) (n : Nat) (text : List Char) : Prop :=
  (Scan.start.run dialect false text).stack.Bounded n

namespace Loads

variable {n : Nat} {front back : List Char}

theorem of_le (h : Loads dialect n text)
    (hle : Scan.start.run dialect false arg ≤ Scan.start.run dialect false text) :
    Loads dialect n arg :=
  h.anti hle.2.2

/-- A text loads no more than five for each of its characters. -/
theorem length (dialect : Dialect) (text : List Char) : Loads dialect (5 * text.length) text := by
  have hbounded :=
    @Scan.bounded_run dialect false Scan.start 0 Stack.bounded_empty (Nat.zero_le 2) text
  rwa [Nat.zero_add] at hbounded

theorem of_front (h : Loads dialect n (front ++ back)) : Loads dialect n front := by
  rw [Loads, Scan.run_append] at h
  exact Scan.bounded_of_run h

theorem of_append (h : Loads dialect n (front ++ back)) (hfront : insideLiteral front = false) :
    Loads dialect n back := by
  rw [Loads, Scan.run_append, hfront] at h
  exact h.anti (Scan.run_mono (Scan.start_le _) back).2.2

theorem of_stretch (h : Loads dialect n text) (honly : OnlyLiterals text)
    (hstretch : Stretch text arg) : Loads dialect n arg := by
  obtain ⟨front, back, rfl, -, hfront⟩ := hstretch
  exact (h.of_append (hfront honly)).of_front

end Loads

/-- What a closed text has in its level tells its load. -/
theorem loads_iff_of_closed {n : Nat} (h : ClosedBackwards text) :
    Loads dialect n text ↔ (found dialect text).total ≤ n := by
  have hrun := @Scan.run_found dialect _ Scan.start h rfl
  refine ⟨fun h => h 0, fun hle => ?_⟩
  rw [Loads, hrun]
  have hbounded := Stack.bounded_empty.raise (found dialect text)
  rw [Nat.zero_add] at hbounded
  exact fun depth => (hbounded depth).trans hle

end AskSql.Idiom
