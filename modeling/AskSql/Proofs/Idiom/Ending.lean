import AskSql.Proofs.Idiom.Endless
import AskSql.Proofs.Idiom.Lessening
import AskSql.Proofs.Idiom.Weight

/-! Where rewriting ends.  In SQLite it does on every text.  In the other dialects it does where
literals have the only quotes, since there what is asked for is less loaded.  The levels that
rewriting is given are then enough.  Where names are quoted there are texts on which it never
ends. -/

namespace AskSql.Idiom

open Text Sql

variable {dialect : Dialect} {f : List Char → List Char} {text arg : List Char} {n : Nat}

/-! ### Levels -/

theorem rewriteWithin_nil (dialect : Dialect) (depth : Nat) :
    rewriteWithin dialect depth [] = [] := by
  cases depth <;> rfl

section

variable (hdialect : dialect ≠ .sqlite) (hf : ∀ arg, Lessens dialect false (f arg) arg)
  (hnil : f [] = [])

include hdialect hf hnil

theorem rewriteLevel_lessens (text : List Char) :
    Lessens dialect false (rewriteLevel dialect f text) text := by
  intro hnamed
  have hcalls := lessens_order.trans (rewriteCalls_lessens hdialect hf hnil _)
    (rewriteClocks_lessens hdialect text)
  have honly := hcalls.onlyLiterals (Scan.named_start_iff.1 hnamed)
  exact lessens_order.trans (rewriteIntervals_lessens hdialect hf hnil honly).1 hcalls hnamed

/-- What is asked for is less loaded. -/
theorem exists_loads_of_mem_asked (honly : OnlyLiterals text) (hloads : Loads dialect n text)
    (harg : arg ∈ asked dialect f text) : OnlyLiterals arg ∧ ∃ m < n, Loads dialect m arg := by
  obtain ⟨idiom, hidiom, expr, hexpr, rfl⟩ := exists_of_mem_asked harg
  have hcharge := @one_le_formCharge dialect expr idiom hexpr
  have hform : ClosedBackwards expr → OnlyLiterals expr → formLoad dialect idiom ≤ n →
      OnlyLiterals (trim expr) ∧ ∃ m < n, Loads dialect m (trim expr) := by
    intro hclosed honlyExpr hle
    rw [formLoad_of_operand? hexpr] at hle
    have hexprLoads := (@loads_iff_of_closed dialect _ _ hclosed).2 le_rfl
    exact ⟨(stretch_trim expr).onlyLiterals honlyExpr, _, by omega,
      hexprLoads.of_stretch honlyExpr (stretch_trim expr)⟩
  have hclocks := rewriteClocks_lessens hdialect text
  rcases List.mem_append.1 hidiom with hcall | hshift
  · have honlyClocks := hclocks.onlyLiterals honly
    have hloadsClocks := hclocks.loads honly hloads
    generalize rewriteClocks (renderClock dialect) text = clocks at *
    obtain ⟨front, name, gap, inner, rest, rfl, hfront, hcall⟩ := exists_of_mem_callsAsked hcall
    have honlyInner := onlyLiterals_of_call hcall.word hcall.gap
      (honlyClocks.of_front.of_append hfront)
    have hcalled := hloadsClocks.call hfront hcall.word hcall.name_ne_nil hcall.gap
      (closedBackwards_of_nested hcall.nested honlyInner)
    obtain ⟨hclosed, honlyExpr⟩ := hcall.closed honlyInner hexpr
    exact hform hclosed honlyExpr ((hcall.formLoad_le honlyInner).trans hcalled)
  · have hcalls := lessens_order.trans (rewriteCalls_lessens hdialect hf hnil _) hclocks
    have honlyCalls := hcalls.onlyLiterals honly
    obtain ⟨before, sign, cs, start, rest, hsign, hasked, hle⟩ :=
      (rewriteIntervals_lessens hdialect hf hnil honlyCalls).2 idiom hshift
    obtain ⟨piece, base, -, hsplit, hstart, -, hbase, hclosed, honlyBase, hrun⟩ :=
      exists_of_addedShift hasked hsign (hle.onlyLiterals honlyCalls)
    obtain rfl : base = expr := Option.some.inj (hbase.symm.trans hexpr)
    refine hform hclosed honlyBase ?_
    have hread := hle.loads honlyCalls (hcalls.loads honly hloads)
    rw [hsplit] at hread
    have htotal := ((hread.of_append (by rwa [insideLiteral_reverse])).of_front).anti
      (hrun Scan.start).2.2 0
    simpa [Scan.start, Scan.paid, Ahead.nothing] using htotal

end

/-- However many levels there are, rewriting makes no load greater. -/
theorem rewriteWithin_lessens (hdialect : dialect ≠ .sqlite) (depth : Nat) (text : List Char) :
    Lessens dialect false (rewriteWithin dialect depth text) text := by
  induction depth generalizing text with
  | zero => exact lessens_order.refl _ _
  | succ depth ih => exact rewriteLevel_lessens hdialect ih (rewriteWithin_nil dialect depth) text

/-! ### Texts without quoted names -/

/-- Rewriting comes to its result within one level more than the text is loaded. -/
theorem endsWithin_of_loads (hdialect : dialect ≠ .sqlite) (honly : OnlyLiterals text)
    (hloads : Loads dialect n text) : endsWithin dialect (n + 1) text = true := by
  induction n using Nat.strong_induction_on generalizing text with
  | _ n ih =>
    rw [endsWithin, List.all_eq_true]
    intro arg harg
    obtain ⟨honlyArg, m, hm, hless⟩ := exists_loads_of_mem_asked hdialect
      (rewriteWithin_lessens hdialect n) (rewriteWithin_nil dialect n) honly hloads harg
    exact (endsWithin_mono (ih m hm honlyArg hless) hm).1

/-- The levels that rewriting is given are enough where literals have the only quotes. -/
theorem endsWithin_of_onlyLiterals (hdialect : dialect ≠ .sqlite) (honly : OnlyLiterals text) :
    endsWithin dialect (depthFor text) text = true := by
  have hends := endsWithin_of_loads hdialect honly (Loads.length dialect text)
  exact (endsWithin_mono hends (by rw [depthFor]; omega)).1

/-! ### Every text -/

/-- Where names are quoted there are texts on which rewriting never ends. -/
theorem exists_endless (hdialect : dialect ≠ .sqlite) :
    ∃ text, ∀ depth, endsWithin dialect depth text = false := by
  cases dialect with
  | sqlite => contradiction
  | sqlServer => exact ⟨_, fun depth => doublingSqlServer.endsWithin_trap depth 0 List.not_mem_nil⟩
  | mySql => exact ⟨_, fun depth => doublingMySql.endsWithin_trap depth 0 List.not_mem_nil⟩

/-- In SQLite rewriting ends on every text, and elsewhere on every text in which literals have the
only quotes: from as many levels on as rewriting is given its result no longer changes.  On other
texts it may not end.  The search for the clock of a shift ends on every expression, and the scans
over words and over intervals try no more places than the text has characters. -/
theorem rewriting_ends (dialect : Dialect) (text : List Char) :
    (dialect = .sqlite ∨ OnlyLiterals text → ∀ depth, depthFor text ≤ depth →
      endsWithin dialect depth text = true ∧
        rewriteWithin dialect depth text = rewrite dialect text) ∧
    (dialect ≠ .sqlite → ∃ text, ∀ depth, endsWithin dialect depth text = false) ∧
    (∀ unit depth, text.length < depth → clockWithin depth text unit = clockOf text unit) ∧
    (∀ rewriteAt?, (wordsTriedFrom rewriteAt? none false 0 text).length ≤ text.length) ∧
    ∀ write, (signsTriedFrom write [] 0 text).length ≤ text.length := by
  refine ⟨fun h depth hle => ?_, exists_endless, fun _ _ => clockWithin_eq_clockOf,
    fun rewriteAt? => length_wordsTriedFrom_le rewriteAt? none false 0 text,
    fun write => length_signsTriedFrom_le write [] 0 text⟩
  have hends : endsWithin dialect (depthFor text) text = true := by
    by_cases hsqlite : dialect = .sqlite
    · exact hsqlite ▸ endsWithin_sqlite text
    · exact endsWithin_of_onlyLiterals hsqlite (h.resolve_left hsqlite)
  exact endsWithin_mono hends hle

/-- The start of a week that an interval is added to, which MySQL writes with its operand twice. -/
theorem rewriting_ends_week :
    OnlyLiterals "DATETRUNC(week, d + INTERVAL 1 DAY) - INTERVAL '1 DAY'".toList ∧
      (∀ depth, depthFor "DATETRUNC(week, d + INTERVAL 1 DAY) - INTERVAL '1 DAY'".toList ≤ depth →
        endsWithin .mySql depth "DATETRUNC(week, d + INTERVAL 1 DAY) - INTERVAL '1 DAY'".toList =
          true ∧
          rewriteWithin .mySql depth
            "DATETRUNC(week, d + INTERVAL 1 DAY) - INTERVAL '1 DAY'".toList =
            rewrite .mySql "DATETRUNC(week, d + INTERVAL 1 DAY) - INTERVAL '1 DAY'".toList) ∧
      (∃ text, ∀ depth, endsWithin .mySql depth text = false) ∧
      clockWithin 100 "DATETRUNC(week, d + INTERVAL 1 DAY) - INTERVAL '1 DAY'".toList .day =
        clockOf "DATETRUNC(week, d + INTERVAL 1 DAY) - INTERVAL '1 DAY'".toList .day := by
  have honly : OnlyLiterals "DATETRUNC(week, d + INTERVAL 1 DAY) - INTERVAL '1 DAY'".toList :=
    (@Scan.named_start_iff .mySql _).1 (by decide +kernel)
  obtain ⟨hends, hendless, hclock, -⟩ :=
    rewriting_ends .mySql "DATETRUNC(week, d + INTERVAL 1 DAY) - INTERVAL '1 DAY'".toList
  exact ⟨honly, hends (Or.inr honly), hendless (by decide), hclock .day 100 (by decide)⟩

end AskSql.Idiom
