import AskSql.Proofs.Text.Words
import AskSql.Text.Case

/-! Letter case.  The small letters of a part of a text are those of the part alone, except that a
capital sigma looks at what stands around it; and a text gets longer in small letters by its dotted
capital I's, each of which becomes two characters. -/

namespace AskSql.Text

variable {before before' after after' cs rest : List Char} {c : Char}

/-! ### ASCII letters -/

theorem toUpper_toLower (c : Char) : c.toLower.toUpper = c.toUpper := by
  by_cases h : c.val ≥ 'A'.val ∧ c.val ≤ 'Z'.val
  · have hall : ∀ n < 91, 65 ≤ n → (Char.ofNat n).toLower.toUpper = (Char.ofNat n).toUpper := by
      decide
    have h1 := UInt32.le_iff_toNat_le.1 h.1
    have h2 := UInt32.le_iff_toNat_le.1 h.2
    have hA : 'A'.val.toNat = 65 := rfl
    have hZ : 'Z'.val.toNat = 90 := rfl
    have hc : c.val.toNat = c.toNat := rfl
    have hchar := hall c.toNat (by omega) (by omega)
    rwa [Char.ofNat_toNat] at hchar
  · unfold Char.toLower
    rw [dif_neg h]

/-- Texts that differ in the case of ASCII letters only are the same in capitals. -/
theorem upperAscii_eq_of_sameAscii {cs' : List Char} (h : sameAscii cs cs' = true) :
    upperAscii cs = upperAscii cs' := by
  have hlower : ∀ cs : List Char, upperAscii (lowerAscii cs) = upperAscii cs := fun cs => by
    rw [lowerAscii, upperAscii, List.map_map]
    exact List.map_congr_left fun c _ => toUpper_toLower c
  have hsame : lowerAscii cs = lowerAscii cs' := eq_of_beq h
  rw [← hlower cs, hsame, hlower]

/-! ### Parts of a text -/

/-- Whether a capital sigma behind `before`, which is read backwards, and in front of `after` is the
last letter of a word. -/
def finalSigma (before after : List Char) : Bool :=
  meetsCased before && !meetsCased after

/-- The small letters of one character of a text. -/
def lowerBetween (before : List Char) (c : Char) (after : List Char) : List Char :=
  if c = 'Σ' then (if finalSigma before after then ['ς'] else ['σ']) else lowerChar c

/-- The small letters of the part `cs` of a text. -/
def lowercaseBetween (before after : List Char) : List Char → List Char
  | [] => []
  | c :: cs => lowerBetween before c (cs ++ after) ++ lowercaseBetween (c :: before) after cs

theorem lowercaseFrom_cons (before : List Char) (c : Char) (cs : List Char) :
    lowercaseFrom before (c :: cs) = lowerBetween before c cs ++ lowercaseFrom (c :: before) cs :=
  rfl

theorem lowercaseFrom_append (before cs after : List Char) :
    lowercaseFrom before (cs ++ after) =
      lowercaseBetween before after cs ++ lowercaseFrom (cs.reverse ++ before) after := by
  induction cs generalizing before with
  | nil => rfl
  | cons c cs ih =>
    rw [List.cons_append, lowercaseFrom_cons, ih, lowercaseBetween, List.append_assoc,
      List.reverse_cons, List.append_assoc, List.singleton_append]

theorem lowercaseFrom_eq_between (before cs : List Char) :
    lowercaseFrom before cs = lowercaseBetween before [] cs := by
  have h := lowercaseFrom_append before cs []
  rwa [List.append_nil, lowercaseFrom, List.append_nil] at h

/-- The small letters of a text in three parts. -/
theorem lowercase_append_append (front span back : List Char) :
    lowercase (front ++ span ++ back) =
      lowercaseBetween [] (span ++ back) front ++ lowercaseBetween front.reverse back span ++
        lowercaseFrom (span.reverse ++ front.reverse) back := by
  rw [lowercase, List.append_assoc, lowercaseFrom_append, lowercaseFrom_append, List.append_nil,
    List.append_assoc]

/-! ### Lengths -/

theorem length_lowerBetween (before : List Char) (c : Char) (after : List Char) :
    (lowerBetween before c after).length = if c = '\u0130' then 2 else 1 := by
  rw [lowerBetween]
  split
  · rename_i hsigma
    subst hsigma
    split <;> rfl
  · rw [lowerChar]
    split
    · rename_i hlow
      have hne : c ≠ '\u0130' := by
        rintro rfl
        exact absurd hlow (by decide)
      rw [if_neg hne, List.length_singleton]
    · split
      · rfl
      · split <;> rfl

theorem length_lowercaseBetween (before after cs : List Char) :
    (lowercaseBetween before after cs).length = cs.length + cs.count '\u0130' := by
  induction cs generalizing before with
  | nil => rfl
  | cons c cs ih =>
    rw [lowercaseBetween, List.length_append, length_lowerBetween, ih, List.length_cons,
      List.count_cons]
    by_cases hdotted : c = '\u0130'
    · simp only [hdotted, if_true, beq_self_eq_true]
      omega
    · simp only [hdotted, if_false, beq_eq_false_iff_ne.2 hdotted, Bool.false_eq_true]
      omega

theorem length_lowercase (cs : List Char) :
    (lowercase cs).length = cs.length + cs.count '\u0130' := by
  rw [lowercase, lowercaseFrom_eq_between, length_lowercaseBetween]

theorem length_lowercaseBetween_of_not_mem (h : '\u0130' ∉ cs) (before after : List Char) :
    (lowercaseBetween before after cs).length = cs.length := by
  rw [length_lowercaseBetween, List.count_eq_zero.2 h, Nat.add_zero]

/-- Without dotted capital I's a part of the small letters of a text is that of a part of the
text. -/
theorem exists_of_lowercase_eq {text front span back : List Char} (hdotted : '\u0130' ∉ text)
    (h : lowercase text = front ++ span ++ back) :
    ∃ front' span' back', text = front' ++ span' ++ back' ∧ front'.length = front.length ∧
      span'.length = span.length ∧ lowercaseBetween front'.reverse back' span' = span := by
  have hlength := length_lowercase text
  rw [h, List.count_eq_zero.2 hdotted, List.length_append, List.length_append] at hlength
  obtain ⟨front', rest, rfl, hfront⟩ : ∃ front' rest, text = front' ++ rest ∧
      front'.length = front.length :=
    ⟨_, _, (List.take_append_drop front.length text).symm, List.length_take_of_le (by omega)⟩
  rw [List.length_append] at hlength
  obtain ⟨span', back', rfl, hspan⟩ : ∃ span' back', rest = span' ++ back' ∧
      span'.length = span.length :=
    ⟨_, _, (List.take_append_drop span.length rest).symm, List.length_take_of_le (by omega)⟩
  simp only [List.mem_append, not_or] at hdotted
  rw [← List.append_assoc, lowercase_append_append, List.append_assoc, List.append_assoc] at h
  obtain ⟨-, hrest⟩ := List.append_inj h (by
    rw [length_lowercaseBetween_of_not_mem hdotted.1, hfront])
  obtain ⟨hpart, -⟩ := List.append_inj hrest (by
    rw [length_lowercaseBetween_of_not_mem hdotted.2.1, hspan])
  exact ⟨front', span', back', (List.append_assoc ..).symm, hfront, hspan, hpart⟩

/-! ### Capital sigmas -/

/-- Each capital sigma of `span` is the last letter of a word of the text exactly if it is one of
the span. -/
def KeepsSigmas (before span after : List Char) : Prop :=
  ∀ left right, span = left ++ 'Σ' :: right →
    finalSigma (left.reverse ++ before) (right ++ after) = finalSigma left.reverse right

theorem lowerBetween_eq_iff :
    lowerBetween before c after = lowerBetween before' c after' ↔
      (c = 'Σ' → finalSigma before after = finalSigma before' after') := by
  simp only [lowerBetween]
  by_cases hsigma : c = 'Σ'
  · cases finalSigma before after <;> cases finalSigma before' after' <;> simp [hsigma]
  · simp [hsigma]

/-- The small letters of a part tell which of its capital sigmas are final. -/
theorem lowercaseBetween_eq_iff :
    lowercaseBetween before after cs = lowercaseBetween before' after' cs ↔
      ∀ left right, cs = left ++ 'Σ' :: right →
        finalSigma (left.reverse ++ before) (right ++ after) =
          finalSigma (left.reverse ++ before') (right ++ after') := by
  induction cs generalizing before before' with
  | nil => simp [lowercaseBetween]
  | cons c cs ih =>
    have hlength : (lowerBetween before c (cs ++ after)).length =
        (lowerBetween before' c (cs ++ after')).length := by
      rw [length_lowerBetween, length_lowerBetween]
    rw [lowercaseBetween, lowercaseBetween]
    constructor
    · intro heq left right hcs
      obtain ⟨hfirst, hrest⟩ := List.append_inj heq hlength
      rw [lowerBetween_eq_iff] at hfirst
      rw [ih] at hrest
      cases left with
      | nil =>
        obtain ⟨rfl, rfl⟩ := List.cons.inj hcs
        exact hfirst rfl
      | cons d left =>
        obtain ⟨rfl, rfl⟩ := List.cons.inj hcs
        simpa using hrest left right rfl
    · intro h
      have hfirst : lowerBetween before c (cs ++ after) =
          lowerBetween before' c (cs ++ after') := by
        rw [lowerBetween_eq_iff]
        rintro rfl
        exact h [] cs rfl
      have hrest : lowercaseBetween (c :: before) after cs =
          lowercaseBetween (c :: before') after' cs := by
        rw [ih]
        intro left right hcs
        simpa using h (c :: left) right (by rw [hcs]; rfl)
      rw [hfirst, hrest]

theorem lowercaseBetween_eq_lowercase_iff :
    lowercaseBetween before after cs = lowercase cs ↔ KeepsSigmas before cs after := by
  rw [lowercase, lowercaseFrom_eq_between, lowercaseBetween_eq_iff, KeepsSigmas]
  simp only [List.append_nil]

instance (before span after : List Char) : Decidable (KeepsSigmas before span after) :=
  decidable_of_iff _ lowercaseBetween_eq_lowercase_iff

-- the sigma that ends the word ΟΔΟΣ does not end the word ΟΔΟΣΑ
example : ¬KeepsSigmas [] "ΟΔΟΣ".toList "Α".toList := by decide +kernel

theorem keepsSigmas_of_not_mem {before span after : List Char} (h : 'Σ' ∉ span) :
    KeepsSigmas before span after := by
  rintro left right rfl
  simp at h

/-! ### White space -/

theorem caseless_of_isBlank (h : isBlank c = true) : isCaseIgnorable c = false ∧
    isCased c = false := by
  refine of_isBlank h ?_
  decide +kernel

theorem lowerBetween_of_isBlank (h : isBlank c = true) (before after : List Char) :
    lowerBetween before c after = [c] := by
  have hc : c ≠ 'Σ' ∧ lowerChar c = [c] := by
    refine of_isBlank h ?_
    decide +kernel
  rw [lowerBetween, if_neg hc.1, hc.2]

/-- White space ends words: what is behind it does not matter. -/
theorem meetsCased_append_blank (h : blank rest = true) :
    meetsCased (cs ++ rest) = meetsCased cs := by
  induction cs with
  | nil =>
    cases rest with
    | nil => rfl
    | cons c rest =>
      rw [blank, List.all_cons, Bool.and_eq_true] at h
      simp [meetsCased, caseless_of_isBlank h.1]
  | cons c cs ih =>
    cases hc : isCaseIgnorable c with
    | false => simp [meetsCased, hc]
    | true => simpa [meetsCased, hc] using ih

theorem lowercaseBetween_of_blank (h : blank cs = true) (before after : List Char) :
    lowercaseBetween before after cs = cs := by
  induction cs generalizing before with
  | nil => rfl
  | cons c cs ih =>
    rw [blank, List.all_cons, Bool.and_eq_true] at h
    rw [lowercaseBetween, lowerBetween_of_isBlank h.1, ih h.2, List.singleton_append]

/-- White space around a text leaves its sigmas alone. -/
theorem keepsSigmas_of_blank {before span after : List Char} (hbefore : blank before = true)
    (hafter : blank after = true) : KeepsSigmas before span after := by
  rintro left right -
  rw [finalSigma, meetsCased_append_blank hbefore, meetsCased_append_blank hafter, ← finalSigma]

end AskSql.Text
