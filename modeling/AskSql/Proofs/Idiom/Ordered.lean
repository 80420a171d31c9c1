import AskSql.Proofs.Idiom.Levels
import AskSql.Proofs.Idiom.Quiet

/-! Orders of texts that concatenation keeps.  A scan puts new texts for stretches of the text that
it reads.  Where each new text stands below the stretch that it replaces, what the scan makes stands
below what it has read; and so does every text that it comes by on the way. -/

namespace AskSql.Idiom

open Text Sql

variable {le : Bool → List Char → List Char → Prop} {text : List Char}

/-- A preorder of texts that concatenation keeps.  It may depend on whether the texts begin inside
of a string literal. -/
structure TextOrder (le : Bool → List Char → List Char → Prop) : Prop where
  refl : ∀ literal text, le literal text text
  trans : ∀ {literal first second third},
    le literal first second → le literal second third → le literal first third
  append : ∀ {literal front front' back back'}, le literal front front' →
    le (literal != insideLiteral front') back back' → le literal (front ++ back) (front' ++ back')

/-- New texts for the words of a text that stand below what they replace. -/
theorem TextOrder.rewriteWordsFrom_le (h : TextOrder le)
    {rewriteAt? : List Char → Option (List Char × Nat)} {before : Option Char} {literal : Bool}
    {skip : Nat}
    (hat : ∀ cs new length, cs <:+ text → rewriteAt? cs = some (new, length) →
      0 < length ∧ le false new (cs.take length)) :
    le (literal != insideLiteral (text.take skip))
      (rewriteWordsFrom rewriteAt? before literal skip text) (text.drop skip) := by
  induction text generalizing before literal skip with
  | nil => simpa [rewriteWordsFrom] using h.refl _ []
  | cons c cs ih =>
    have hrest := fun {before literal skip} => @ih before literal skip
      fun suffix new length hsuffix => hat suffix new length (hsuffix.trans (List.suffix_cons c cs))
    have hquote : ∀ taken : List Char, ((literal != (c == '\'')) != insideLiteral taken) =
        (literal != insideLiteral (c :: taken)) := by
      intro taken
      rw [insideLiteral_cons]
      cases literal <;> cases c == '\'' <;> cases insideLiteral taken <;> rfl
    cases skip with
    | succ skip =>
      have hmore := @hrest (some c) (literal != (c == '\'')) skip
      rwa [hquote] at hmore
    | zero =>
      have hpass : le literal
          ([c] ++ rewriteWordsFrom rewriteAt? (some c) (literal != (c == '\'')) 0 cs)
          ([c] ++ cs) := by
        refine h.append (h.refl _ _) ?_
        have hmore := @hrest (some c) (literal != (c == '\'')) 0
        rwa [hquote] at hmore
      have heven : (literal != insideLiteral ((c :: cs).take 0)) = literal := by
        cases literal <;> rfl
      rw [heven, rewriteWordsFrom]
      split
      · exact hpass
      · rename_i htried
        split
        · rename_i new length hfound
          obtain ⟨hpos, hnew⟩ := hat (c :: cs) new length List.suffix_rfl hfound
          obtain ⟨left, rfl⟩ : ∃ left, length = left + 1 := ⟨length - 1, by omega⟩
          obtain rfl : literal = false := by
            by_contra hliteral
            simp [hliteral] at htried
          have hmore := @hrest (some c) (false != (c == '\'')) left
          rw [hquote] at hmore
          have hwhole := h.append hnew hmore
          rwa [List.take_succ_cons, List.cons_append, List.take_append_drop] at hwhole
        · exact hpass

theorem TextOrder.rewriteWords_le (h : TextOrder le)
    {rewriteAt? : List Char → Option (List Char × Nat)}
    (hat : ∀ cs new length, cs <:+ text → rewriteAt? cs = some (new, length) →
      0 < length ∧ le false new (cs.take length)) :
    le false (rewriteWords rewriteAt? text) text :=
  @TextOrder.rewriteWordsFrom_le le text h rewriteAt? none false 0 hat

/-- New texts for the shifts in a text that stand below what they replace.  Up to a sign the text
that is read is itself made of new texts, and stands below the first one too. -/
theorem TextOrder.rewriteIntervalsFrom_le (h : TextOrder le) {write : Idiom → Option (List Char)}
    {before whole : List Char} {skip : Nat}
    (hat : ∀ before sign cs idiom start rest new, sign = '+' ∨ sign = '-' →
      le false (before.reverse ++ sign :: cs) whole →
      askedShift? before sign cs = some (idiom, start, rest) → write idiom = some new →
      ∃ piece, rest <:+ cs ∧ before.reverse ++ sign :: cs = start.reverse ++ (piece ++ rest) ∧
        le (insideLiteral start) new piece)
    (hle : le false (before.reverse ++ text.drop skip) whole) :
    le false (rewriteIntervalsFrom write before skip text) whole ∧
      ∀ tried ∈ signsTriedFrom write before skip text, (tried.2.1 = '+' ∨ tried.2.1 = '-') ∧
        le false (tried.1.reverse ++ tried.2.1 :: tried.2.2) whole := by
  induction text generalizing before skip with
  | nil => simpa [rewriteIntervalsFrom, signsTriedFrom] using hle
  | cons c cs ih =>
    cases skip with
    | succ skip => exact ih hle
    | zero =>
      have hpass := @ih (c :: before) 0 (by simpa using hle)
      simp only [rewriteIntervalsFrom, signsTriedFrom]
      by_cases hsign : c = '+' ∨ c = '-'
      · simp only [if_pos hsign]
        cases hfound : shiftAt? write before c cs with
        | none => exact ⟨hpass.1, List.forall_mem_cons.2 ⟨⟨hsign, hle⟩, hpass.2⟩⟩
        | some found =>
          obtain ⟨new, start, rest⟩ := found
          rw [shiftAt?_eq, Option.bind_eq_some_iff] at hfound
          obtain ⟨⟨idiom, front, left⟩, hasked, hfound⟩ := hfound
          obtain ⟨made, hmade, heq⟩ := Option.map_eq_some_iff.1 hfound
          obtain ⟨rfl, rfl, rfl⟩ : made = new ∧ front = start ∧ left = rest := by simpa using heq
          obtain ⟨piece, hsuffix, hsplit, hnew⟩ :=
            hat before c cs idiom front left made hsign hle hasked hmade
          have hrest : cs.drop (cs.length - left.length) = left :=
            (List.suffix_iff_eq_drop.1 hsuffix).symm
          have hmade : le false (front.reverse ++ (made ++ left)) whole := by
            refine h.trans ?_ (hsplit ▸ hle)
            refine h.append (h.refl _ _) (h.append ?_ (h.refl _ _))
            rwa [insideLiteral_reverse, Bool.false_bne]
          obtain ⟨hall, htried⟩ := @ih (made.reverse ++ front) (cs.length - left.length)
            (by simpa [hrest] using hmade)
          exact ⟨hall, List.forall_mem_cons.2 ⟨⟨hsign, hle⟩, htried⟩⟩
      · simpa only [if_neg hsign] using hpass

theorem TextOrder.rewriteIntervals_le (h : TextOrder le) (write : Idiom → Option (List Char))
    {whole : List Char}
    (hat : ∀ before sign cs idiom start rest new, sign = '+' ∨ sign = '-' →
      le false (before.reverse ++ sign :: cs) whole →
      askedShift? before sign cs = some (idiom, start, rest) → write idiom = some new →
      ∃ piece, rest <:+ cs ∧ before.reverse ++ sign :: cs = start.reverse ++ (piece ++ rest) ∧
        le (insideLiteral start) new piece)
    (hle : le false text whole) :
    le false (rewriteIntervals write text) whole ∧
      ∀ idiom ∈ shiftsAsked write text, ∃ before sign cs start rest, (sign = '+' ∨ sign = '-') ∧
        askedShift? before sign cs = some (idiom, start, rest) ∧
          le false (before.reverse ++ sign :: cs) whole := by
  obtain ⟨hall, htried⟩ := @TextOrder.rewriteIntervalsFrom_le le text h write [] whole 0 hat hle
  refine ⟨hall, fun idiom hidiom => ?_⟩
  obtain ⟨⟨before, sign, cs⟩, hmem, hasked⟩ := List.mem_filterMap.1 hidiom
  obtain ⟨⟨asked, start, rest⟩, hshift, rfl⟩ := Option.map_eq_some_iff.1 hasked
  obtain ⟨hsign, hle⟩ := htried _ hmem
  exact ⟨before, sign, cs, start, rest, hsign, hshift, hle⟩

end AskSql.Idiom
