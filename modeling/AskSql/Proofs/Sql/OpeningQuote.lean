import AskSql.Proofs.Sql.Cuts
import AskSql.Proofs.Sql.LiteralSpans

/-! The opening quote of a literal, found from its closing quote.  Read forwards, a quote that is
written twice belongs to the literal around it, and the pairs are counted from the opening quote on;
read backwards, they are counted from the closing quote.  Both readings pair the quotes alike: no
quote stands right before an opening quote, since it would have gone on with a literal or begun one
itself. -/

namespace AskSql.Sql

variable {text before cs taken rest : List Char}

/-- What the backward scan takes and what it leaves make up what it reads. -/
theorem append_of_openQuoteBefore (h : openQuoteBefore cs = some (taken, rest)) :
    taken ++ rest = cs := by
  fun_induction openQuoteBefore cs generalizing taken rest with
  | case1 => simp at h
  | case2 cs ih =>
    obtain ⟨⟨read, left⟩, hread, heq⟩ := Option.map_eq_some_iff.1 h
    obtain ⟨rfl, rfl⟩ := Prod.mk.inj heq
    simpa using ih hread
  | case3 cs =>
    obtain ⟨rfl, rfl⟩ := Prod.mk.inj (Option.some.inj h)
    rfl
  | case4 c cs _ _ ih =>
    obtain ⟨⟨read, left⟩, hread, heq⟩ := Option.map_eq_some_iff.1 h
    obtain ⟨rfl, rfl⟩ := Prod.mk.inj heq
    simpa using ih hread

/-- Read backwards, `cs` has the opening quote of a literal at the position `start`. -/
def OpensAt (cs : List Char) (start : Nat) : Prop :=
  ∃ taken rest, openQuoteBefore cs = some (taken, rest) ∧ rest.length = start

/-- A character of a literal that is no quote. -/
theorem OpensAt.cons {start : Nat} (h : OpensAt cs start) {c : Char} (hc : c ≠ '\'') :
    OpensAt (c :: cs) start := by
  obtain ⟨taken, rest, hopen, hlength⟩ := h
  have hcons := @openQuoteBefore_append [c] (by simpa using hc.symm) cs
  rw [List.singleton_append, hopen] at hcons
  exact ⟨[c] ++ taken, rest, hcons, hlength⟩

/-- A quote of a literal that is written twice. -/
theorem OpensAt.doubled {start : Nat} (h : OpensAt cs start) :
    OpensAt ('\'' :: '\'' :: cs) start := by
  obtain ⟨taken, rest, hopen, hlength⟩ := h
  exact ⟨'\'' :: '\'' :: taken, rest, by rw [openQuoteBefore, hopen]; rfl, hlength⟩

/-- A quote before which none stands. -/
theorem opensAt_quote (h : cs.head? ≠ some '\'') : OpensAt ('\'' :: cs) cs.length :=
  ⟨_, _, openQuoteBefore_stop h, rfl⟩

/-- The backward scan that finds an opening quote cuts the text at it. -/
theorem OpensAt.openQuoteBefore_eq {close start : Nat}
    (h : OpensAt (text.take close).reverse start) :
    openQuoteBefore (text.take close).reverse =
      some (((text.take close).drop start).reverse, (text.take start).reverse) := by
  obtain ⟨taken, rest, hopen, rfl⟩ := h
  have hcut : rest.reverse ++ taken.reverse = text.take close := by
    simpa using congrArg List.reverse (append_of_openQuoteBefore hopen)
  have hrest : text.take rest.length = rest.reverse := by
    have hle : rest.length ≤ close := by
      have hlength := congrArg List.length hcut
      simp only [List.length_append, List.length_reverse, List.length_take] at hlength
      omega
    rw [← Nat.min_eq_left hle, ← List.take_take, ← hcut, ← List.length_reverse, List.take_left]
  have htaken : (text.take close).drop rest.length = taken.reverse := by
    rw [← hcut, ← List.length_reverse, List.drop_left]
  rw [hopen, hrest, htaken, List.reverse_reverse, List.reverse_reverse]

namespace LiteralScan

/-- What a scan says about the text before it, read backwards: outside of a literal no quote comes
last, inside of one its opening quote is found, and behind a quote that may close one it is found
from that quote. -/
def Finds (before : List Char) : LiteralScan → Prop
  | outside => before.head? ≠ some '\''
  | inside start => OpensAt before start
  | shut start close => ∃ cs, before = '\'' :: cs ∧ OpensAt cs start ∧ cs.length = close

theorem Finds.next {scan : LiteralScan} (h : scan.Finds before) (c : Char) :
    (scan.next before.length c).Finds (c :: before) := by
  by_cases hc : c = '\''
  · cases scan with
    | outside =>
      rw [LiteralScan.next, if_pos hc, hc]
      exact opensAt_quote h
    | inside start =>
      rw [LiteralScan.next, if_pos hc, hc]
      exact ⟨before, rfl, h, rfl⟩
    | shut start close =>
      obtain ⟨cs, rfl, hopens, -⟩ := h
      rw [LiteralScan.next, if_pos hc, hc]
      exact hopens.doubled
  · cases scan with
    | outside =>
      rw [LiteralScan.next, if_neg hc]
      simpa [Finds] using hc
    | inside start =>
      rw [LiteralScan.next, if_neg hc]
      exact OpensAt.cons h hc
    | shut start close =>
      rw [LiteralScan.next, if_neg hc]
      simpa [Finds] using hc

/-- Behind a quote that closes a literal, the scan back from that quote finds the opening one. -/
theorem Finds.shut_take {start close : Nat} (h : (shut start close).Finds before)
    (text : List Char) :
    OpensAt ((before.reverse ++ text).take close).reverse start := by
  obtain ⟨cs, rfl, hopens, rfl⟩ := h
  rw [List.reverse_cons, List.append_assoc, ← List.length_reverse, List.take_left,
    List.reverse_reverse]
  exact hopens

/-- The literals that a scan still has to list open where the backward scan from their closing quote
says, if they are closed. -/
theorem Finds.opensAt {scan : LiteralScan} {start close : Nat} (h : scan.Finds before)
    (hmem : (start, close) ∈ scan.spans before.length text)
    (hclosed : close < before.length + text.length) :
    OpensAt ((before.reverse ++ text).take close).reverse start := by
  induction text generalizing scan before with
  | nil =>
    cases scan with
    | outside => simp [spans, rest] at hmem
    | inside start' =>
      -- A literal that the end of the text ends has no closing quote.
      obtain ⟨rfl, rfl⟩ : start = start' ∧ close = before.length := by
        simpa [spans, rest] using hmem
      simp at hclosed
    | shut start' close' =>
      obtain ⟨rfl, rfl⟩ : start = start' ∧ close = close' := by simpa [spans, rest] using hmem
      exact h.shut_take []
  | cons c cs ih =>
    rw [spans, List.mem_append] at hmem
    rcases hmem with hended | hlater
    · cases scan with
      | outside => simp [ended] at hended
      | inside start' => simp [ended] at hended
      | shut start' close' =>
        obtain ⟨rfl, rfl⟩ : start = start' ∧ close = close' := by
          rw [ended] at hended
          split at hended <;> simp_all
        exact h.shut_take (c :: cs)
    · have hnext := ih (h.next c) hlater (by simp only [List.length_cons] at hclosed ⊢; omega)
      rwa [List.reverse_cons, List.append_assoc, List.singleton_append] at hnext

end LiteralScan

/-- From the closing quote of a string literal, reading backwards finds the quote that opens it,
whatever quotes are written twice in the literal, and takes the literal from its opening quote
on. -/
theorem openQuoteBefore_of_mem_literalSpans {start close : Nat}
    (hmem : (start, close) ∈ literalSpans text) (hclosed : close < text.length) :
    openQuoteBefore (text.take close).reverse =
      some (((text.take close).drop start).reverse, (text.take start).reverse) := by
  have hfinds : LiteralScan.outside.Finds [] := by simp [LiteralScan.Finds]
  have hopens := hfinds.opensAt hmem (by simpa using hclosed)
  exact OpensAt.openQuoteBefore_eq (by simpa using hopens)

/-- Quotes written twice at both ends of a literal, and a literal of nothing but one such pair. -/
theorem openQuoteBefore_pairs :
    let text := "x = '''a''b''' OR y = ''''".toList
    ((4, 13) ∈ literalSpans text ∧ (22, 25) ∈ literalSpans text ∧ 25 < text.length) ∧
      openQuoteBefore (text.take 13).reverse = some ("''b''a'''".toList, " = x".toList) ∧
      openQuoteBefore (text.take 25).reverse =
        some ("'''".toList, " = y RO '''b''a''' = x".toList) := by
  have hfirst : (4, 13) ∈ literalSpans "x = '''a''b''' OR y = ''''".toList := by decide
  have hsecond : (22, 25) ∈ literalSpans "x = '''a''b''' OR y = ''''".toList := by decide
  exact ⟨⟨hfirst, hsecond, by decide⟩,
    openQuoteBefore_of_mem_literalSpans hfirst (by decide),
    openQuoteBefore_of_mem_literalSpans hsecond (by decide)⟩

end AskSql.Sql
