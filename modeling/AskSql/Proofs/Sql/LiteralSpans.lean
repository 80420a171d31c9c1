import AskSql.Proofs.Idiom.Words
import AskSql.Sql.LogicalName

/-! Where the string literals of a text stand.  A literal reaches from a single quote to the next
one that is not written twice, or to the end of the text if there is none.  Whether a position lies
inside a literal shows in the quotes before it: their parity decides, unless it is the position of a
quote, where the quotes next to it do. -/

namespace AskSql.Sql

open Idiom

/-- Where a scan for string literals stands: outside of them, in the one that was opened at `start`,
or behind the quote at `close`, which closes that one unless it is written twice. -/
inductive LiteralScan
  | outside
  | inside (start : Nat)
  | shut (start close : Nat)

namespace LiteralScan

/-- Where a scan stands behind the character `c` at `pos`. -/
def next (pos : Nat) (c : Char) : LiteralScan → LiteralScan
  | outside => if c = '\'' then inside pos else outside
  | inside start => if c = '\'' then shut start pos else inside start
  | shut start _ => if c = '\'' then inside start else outside

/-- The literal that the character `c` shows to have ended before it. -/
def ended (c : Char) : LiteralScan → List (Nat × Nat)
  | shut start close => if c = '\'' then [] else [(start, close)]
  | _ => []

/-- The literal that ends where the text does, at `pos`. -/
def rest (pos : Nat) : LiteralScan → List (Nat × Nat)
  | outside => []
  | inside start => [(start, pos)]
  | shut start close => [(start, close)]

/-- The positions of the quotes that open and close the string literals of a text that begins at
`pos`. -/
def spans (scan : LiteralScan) (pos : Nat) : List Char → List (Nat × Nat)
  | [] => scan.rest pos
  | c :: cs => scan.ended c ++ (scan.next pos c).spans (pos + 1) cs

end LiteralScan

/-- The positions of the quotes that open and close the string literals of a text, in order.  A
literal that is not closed ends where the text does. -/
def literalSpans (text : List Char) : List (Nat × Nat) :=
  LiteralScan.outside.spans 0 text

/-- Whether a position lies between the quotes of one of the literals. -/
def isBetween (spans : List (Nat × Nat)) (pos : Nat) : Bool :=
  spans.any fun span => span.1 < pos && pos < span.2

/-- Whether a position of a text lies inside a string literal. -/
def inLiteral (text : List Char) (pos : Nat) : Bool :=
  isBetween (literalSpans text) pos

theorem isBetween_append (spans more : List (Nat × Nat)) (pos : Nat) :
    isBetween (spans ++ more) pos = (isBetween spans pos || isBetween more pos) :=
  List.any_append

variable {scan : LiteralScan} {pos p : Nat} {text before : List Char}

namespace LiteralScan

/-! ### Positions that a scan has passed -/

/-- A literal in which a scan stands begins at `p` or behind it. -/
def BeginsFrom (p : Nat) : LiteralScan → Prop
  | outside => True
  | inside start | shut start _ => p ≤ start

/-- A scan at `pos` has passed `p` in the literal in which it stands. -/
def Holds (p pos : Nat) : LiteralScan → Prop
  | outside => False
  | inside start => start < p ∧ p < pos
  | shut start close => start < p ∧ p < close ∧ close < pos

theorem BeginsFrom.next (h : scan.BeginsFrom p) (hpos : p ≤ pos) (c : Char) :
    (scan.next pos c).BeginsFrom p := by
  cases scan <;> simp only [LiteralScan.next] <;> split <;> first | exact h | exact hpos | trivial

theorem BeginsFrom.isBetween_eq_false (h : scan.BeginsFrom p) (hpos : p ≤ pos) (text : List Char) :
    isBetween (scan.spans pos text) p = false := by
  induction text generalizing scan pos with
  | nil =>
    cases scan with
    | outside => rfl
    | inside start => simp [spans, rest, isBetween, Nat.not_lt.2 (show p ≤ start from h)]
    | shut start close => simp [spans, rest, isBetween, Nat.not_lt.2 (show p ≤ start from h)]
  | cons c cs ih =>
    rw [spans, isBetween_append, ih (h.next hpos c) (by omega), Bool.or_false]
    cases scan with
    | outside => rfl
    | inside start => rfl
    | shut start close =>
      rw [ended]
      split
      · rfl
      · simp [isBetween, Nat.not_lt.2 (show p ≤ start from h)]

theorem Holds.isBetween_eq_true (h : scan.Holds p pos) (text : List Char) :
    isBetween (scan.spans pos text) p = true := by
  induction text generalizing scan pos with
  | nil =>
    cases scan with
    | outside => exact h.elim
    | inside start => simp [spans, rest, isBetween, h.1, h.2]
    | shut start close => simp [spans, rest, isBetween, h.1, h.2.1]
  | cons c cs ih =>
    rw [spans, isBetween_append, Bool.or_eq_true]
    cases scan with
    | outside => exact h.elim
    | inside start =>
      obtain ⟨hstart, hpos⟩ := h
      refine Or.inr (ih ?_)
      rw [LiteralScan.next]
      split
      · exact ⟨hstart, hpos, Nat.lt_succ_self pos⟩
      · exact ⟨hstart, Nat.lt_succ_of_lt hpos⟩
    | shut start close =>
      obtain ⟨hstart, hclose, hpos⟩ := h
      rw [LiteralScan.next, ended]
      split
      · exact Or.inr (ih ⟨hstart, by omega⟩)
      · exact Or.inl (by simp [isBetween, hstart, hclose])

/-! ### The quotes before a position -/

/-- What a scan at `pos` knows about the text before it, read backwards. -/
def Knows (before : List Char) (pos : Nat) : LiteralScan → Prop
  | outside => insideLiteral before = false ∧ before.head? ≠ some '\''
  | inside start => insideLiteral before = true ∧ start < pos
  | shut start close =>
    insideLiteral before = false ∧ before.head? = some '\'' ∧ start < close ∧ close + 1 = pos

theorem Knows.next (h : scan.Knows before pos) (c : Char) :
    (scan.next pos c).Knows (c :: before) (pos + 1) := by
  have hparity := insideLiteral_cons c before
  by_cases hc : c = '\''
  · rw [beq_iff_eq.2 hc, Bool.bne_true] at hparity
    cases scan with
    | outside =>
      rw [LiteralScan.next, if_pos hc]
      exact ⟨by rw [hparity, h.1]; rfl, Nat.lt_succ_self pos⟩
    | inside start =>
      rw [LiteralScan.next, if_pos hc]
      exact ⟨by rw [hparity, h.1]; rfl, by rw [hc]; rfl, h.2, rfl⟩
    | shut start close =>
      obtain ⟨heven, -, hstart, hclose⟩ := h
      rw [LiteralScan.next, if_pos hc]
      exact ⟨by rw [hparity, heven]; rfl, by omega⟩
  · rw [beq_eq_false_iff_ne.2 hc, Bool.bne_false] at hparity
    cases scan with
    | outside =>
      rw [LiteralScan.next, if_neg hc]
      exact ⟨by rw [hparity, h.1], by simpa⟩
    | inside start =>
      rw [LiteralScan.next, if_neg hc]
      exact ⟨by rw [hparity, h.1], Nat.lt_succ_of_lt h.2⟩
    | shut start close =>
      rw [LiteralScan.next, if_neg hc]
      exact ⟨by rw [hparity, h.1], by simpa⟩

/-- Behind a quote in a literal, the literal goes on exactly if another quote comes next. -/
theorem isBetween_shut {start : Nat} (hstart : start < pos) (text : List Char) :
    isBetween ((shut start pos).spans (pos + 1) text) pos = (text.head? == some '\'') := by
  cases text with
  | nil => simp [spans, rest, isBetween]
  | cons c cs =>
    rw [spans, isBetween_append, LiteralScan.next, ended]
    by_cases hc : c = '\''
    · have hholds : (inside start).Holds pos (pos + 1 + 1) := ⟨hstart, by omega⟩
      rw [if_pos hc, if_pos hc, hholds.isBetween_eq_true, hc]
      rfl
    · have hlater := @BeginsFrom.isBetween_eq_false outside (pos + 1 + 1) pos trivial (by omega) cs
      rw [if_neg hc, if_neg hc, hlater]
      simp [isBetween, hc]

/-- The position of a scan is inside a literal exactly if the quotes before it and next to it say
so. -/
theorem Knows.isBetween_eq (h : scan.Knows before pos) (text : List Char) :
    isBetween (scan.spans pos text) pos = isInsideLiteral before text := by
  cases text with
  | nil =>
    cases scan with
    | outside => rfl
    | inside start => simp [spans, rest, isBetween, isInsideLiteral]
    | shut start close =>
      obtain ⟨-, -, -, hclose⟩ := h
      simp only [spans, rest, isBetween, isInsideLiteral, List.any_cons, List.any_nil,
        Bool.or_false, Bool.and_eq_false_iff, decide_eq_false_iff_not]
      omega
  | cons c cs =>
    rw [spans, isBetween_append, isInsideLiteral]
    cases scan with
    | outside =>
      obtain ⟨hparity, hhead⟩ := h
      have hbegins : (outside.next pos c).BeginsFrom pos :=
        @BeginsFrom.next outside pos pos trivial (Nat.le_refl pos) c
      rw [hbegins.isBetween_eq_false (by omega), hparity]
      simp [ended, isBetween, hhead]
    | inside start =>
      obtain ⟨hparity, hstart⟩ := h
      have hended : isBetween ((inside start).ended c) pos = false := rfl
      rw [hparity, hended, Bool.false_or, LiteralScan.next]
      by_cases hc : c = '\''
      · rw [if_pos hc, if_pos hc, isBetween_shut hstart, if_pos rfl]
      · have hholds : (inside start).Holds pos (pos + 1) := ⟨hstart, Nat.lt_succ_self pos⟩
        rw [if_neg hc, if_neg hc, hholds.isBetween_eq_true]
    | shut start close =>
      obtain ⟨hparity, hhead, hstart, hclose⟩ := h
      rw [hparity, hhead, LiteralScan.next, ended]
      by_cases hc : c = '\''
      · have hholds : (inside start).Holds pos (pos + 1) := ⟨by omega, Nat.lt_succ_self pos⟩
        rw [if_pos hc, if_pos hc, if_pos hc, hholds.isBetween_eq_true]
        rfl
      · have hlater := @BeginsFrom.isBetween_eq_false outside (pos + 1) pos trivial (by omega) cs
        rw [if_neg hc, if_neg hc, if_neg hc, hlater]
        simp only [isBetween, List.any_cons, List.any_nil, Bool.or_false, Bool.and_eq_false_iff,
          decide_eq_false_iff_not]
        omega

theorem Knows.isBetween_append (h : scan.Knows before pos) (front rest : List Char) :
    isBetween (scan.spans pos (front ++ rest)) (pos + front.length) =
      isInsideLiteral (front.reverse ++ before) rest := by
  induction front generalizing scan before pos with
  | nil => exact h.isBetween_eq rest
  | cons c front ih =>
    have hlater := ih (h.next c)
    have hended : isBetween (scan.ended c) (pos + (c :: front).length) = false := by
      cases scan with
      | outside => rfl
      | inside start => rfl
      | shut start close =>
        obtain ⟨-, -, -, hclose⟩ := h
        rw [ended]
        split
        · rfl
        · simp only [isBetween, List.any_cons, List.any_nil, Bool.or_false, Bool.and_eq_false_iff,
            decide_eq_false_iff_not]
          omega
    rw [List.cons_append, spans, Sql.isBetween_append, hended, Bool.false_or, List.length_cons,
      Nat.add_comm front.length, ← Nat.add_assoc, hlater]
    simp

end LiteralScan

/-- A position is inside a literal exactly if the quotes before it and next to it say so. -/
theorem inLiteral_append (before rest : List Char) :
    inLiteral (before ++ rest) before.length = isInsideLiteral before.reverse rest := by
  have hstart : LiteralScan.outside.Knows [] 0 := ⟨rfl, by simp⟩
  simpa [inLiteral, literalSpans] using hstart.isBetween_append before rest

end AskSql.Sql
