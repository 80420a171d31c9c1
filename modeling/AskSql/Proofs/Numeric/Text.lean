import AskSql.Json.Basic
import AskSql.Proofs.Text.Chars

/-! Numbers in text.  A number has digits, and it may have a sign before them, places behind a point
and an exponent.  So its characters are digits, points, signs and the letter of an exponent, with a
digit at the end. -/

namespace AskSql.Numeric

/-- Whether `c` can stand in a number. -/
def isNumeric (c : Char) : Bool :=
  c.isDigit || c == 'e' || c == '.' || c == '+' || c == '-'

/-- The text of a number. -/
structure NumberText (text : List Char) : Prop where
  numeric : ∀ c ∈ text, isNumeric c = true
  last : ∃ c ∈ text.getLast?, c.isDigit = true

/-- Digits, one or more. -/
def Digits (text : List Char) : Prop :=
  text ≠ [] ∧ ∀ c ∈ text, c.isDigit = true

/-- Digits with or without places behind a point. -/
inductive Positional : List Char → Prop
  | whole {digits : List Char} (h : Digits digits) : Positional digits
  | point {digits places : List Char} (hdigits : Digits digits) (hplaces : Digits places) :
    Positional (digits ++ '.' :: places)

/-- A number without a sign, with or without an exponent. -/
inductive Magnitude : List Char → Prop
  | plain {text : List Char} (h : Positional text) : Magnitude text
  | power {text digits : List Char} {sign : Char} (h : Positional text) (hsign : sign ∈ ['+', '-'])
    (hdigits : Digits digits) : Magnitude (text ++ 'e' :: sign :: digits)

/-- A number with or without a sign. -/
inductive SignedNumeral : List Char → Prop
  | plain {text : List Char} (h : Magnitude text) : SignedNumeral text
  | negative {text : List Char} (h : Magnitude text) : SignedNumeral ('-' :: text)

variable {front back text : List Char}

theorem isNumeric_of_isDigit {c : Char} (h : c.isDigit = true) : isNumeric c = true := by
  simp [isNumeric, h]

theorem NumberText.append (hfront : ∀ c ∈ front, isNumeric c = true) (h : NumberText back) :
    NumberText (front ++ back) where
  numeric c hc := (List.mem_append.1 hc).elim (hfront c) (h.numeric c)
  last := by
    obtain ⟨c, hc, hdigit⟩ := h.last
    exact ⟨c, by rw [List.getLast?_append, Option.mem_def.1 hc]; rfl, hdigit⟩

theorem NumberText.cons {c : Char} (hc : isNumeric c = true) (h : NumberText back) :
    NumberText (c :: back) :=
  @NumberText.append [c] _ (by simpa using hc) h

theorem NumberText.ne_nil (h : NumberText back) : back ≠ [] := by
  rintro rfl
  obtain ⟨c, hc, -⟩ := h.last
  contradiction

theorem Digits.numberText (h : Digits text) : NumberText text where
  numeric c hc := isNumeric_of_isDigit (h.2 c hc)
  last := ⟨_, List.getLast?_eq_some_getLast h.1, h.2 _ (List.getLast_mem h.1)⟩

theorem Positional.numberText (h : Positional text) : NumberText text := by
  cases h with
  | whole h => exact h.numberText
  | point hdigits hplaces =>
    exact .append hdigits.numberText.numeric (.cons rfl hplaces.numberText)

theorem Magnitude.numberText (h : Magnitude text) : NumberText text := by
  cases h with
  | plain h => exact h.numberText
  | power h hsign hdigits =>
    have hnumeric : ∀ c ∈ ['+', '-'], isNumeric c = true := by decide
    exact .append h.numberText.numeric (.cons rfl (.cons (hnumeric _ hsign) hdigits.numberText))

theorem SignedNumeral.numberText (h : SignedNumeral text) : NumberText text := by
  cases h with
  | plain h => exact h.numberText
  | negative h => exact .cons rfl h.numberText

/-! ### Numbers that are written -/

theorem isDigit_of_mem_toDigits {n : Nat} {c : Char} (h : c ∈ Nat.toDigits 10 n) :
    c.isDigit = true :=
  Nat.isDigit_of_mem_toDigits (by decide) (by decide) h

theorem digits_toDigits (n : Nat) : Digits (Nat.toDigits 10 n) :=
  ⟨Nat.toDigits_ne_nil, fun _ h => isDigit_of_mem_toDigits h⟩

theorem digits_toString (n : Nat) : Digits (toString n).toList := by
  have hrepr : (toString n).toList = Nat.toDigits 10 n := Nat.toList_repr
  rw [hrepr]
  exact digits_toDigits n

theorem numberText_toString (n : Nat) : NumberText (toString n).toList :=
  (digits_toString n).numberText

theorem Digits.append (hf : Digits front) (hb : ∀ c ∈ back, c.isDigit = true) :
    Digits (front ++ back) :=
  ⟨List.append_ne_nil_of_left_ne_nil hf.1 back, List.forall_mem_append.2 ⟨hf.2, hb⟩⟩

theorem Digits.take {k : Nat} (h : Digits text) (hk : 0 < k) : Digits (text.take k) := by
  refine ⟨?_, fun c hc => h.2 c (List.mem_of_mem_take hc)⟩
  rw [ne_eq, List.take_eq_nil_iff, not_or]
  exact ⟨Nat.ne_of_gt hk, h.1⟩

theorem Digits.drop {k : Nat} (h : Digits text) (hk : k < text.length) : Digits (text.drop k) := by
  refine ⟨?_, fun c hc => h.2 c (List.mem_of_mem_drop hc)⟩
  rw [ne_eq, List.drop_eq_nil_iff]
  exact Nat.not_le.2 hk

theorem isDigit_of_mem_zeros {k : Nat} : ∀ c ∈ List.replicate k '0', c.isDigit = true := by
  intro c hc
  rw [List.eq_of_mem_replicate hc]
  rfl

/-- However a decimal is laid out, it is a number without a sign. -/
theorem Decimal.isMagnitude (x : Decimal) : Magnitude x.text.toList := by
  have hdigits := digits_toDigits x.digits
  have hpos : 0 < (Nat.toDigits 10 x.digits).length := Nat.length_toDigits_pos
  have hzero : Digits ['0'] := ⟨by decide, by decide⟩
  rw [Decimal.text]
  dsimp only
  rw [String.toList_ofList]
  split
  · rw [List.append_assoc, ← List.append_assoc]
    exact .plain (.point (hdigits.append isDigit_of_mem_zeros) hzero)
  · split
    · -- A decimal with a negative exponent has its point before its last digit.
      exact .plain (.point (hdigits.take (by omega)) (hdigits.drop (by omega)))
    · split
      · have hplaces : Digits (List.replicate
            (-((Nat.toDigits 10 x.digits).length + x.exponent)).toNat '0' ++
              Nat.toDigits 10 x.digits) :=
          ⟨List.append_ne_nil_of_right_ne_nil _ hdigits.1,
            List.forall_mem_append.2 ⟨isDigit_of_mem_zeros, hdigits.2⟩⟩
        exact .plain (.point hzero hplaces)
      · rw [List.append_assoc, ← List.append_assoc]
        refine .power ?_ (by split <;> decide) (digits_toDigits _)
        split
        · rw [List.append_nil]
          exact .whole (hdigits.take Nat.one_pos)
        · exact .point (hdigits.take Nat.one_pos) (hdigits.drop (by omega))

theorem Binary64.signedNumeral (x : Binary64) : SignedNumeral x.text.toList := by
  rw [Binary64.text, String.toList_append]
  split
  · exact .negative x.shortest.isMagnitude
  · exact .plain x.shortest.isMagnitude

end AskSql.Numeric

namespace AskSql

open Numeric

/-- A number in JSON is written as a number. -/
theorem JsonNumber.signedNumeral (n : JsonNumber) : SignedNumeral n.text.toList := by
  cases n with
  | real x => exact x.signedNumeral
  | int n =>
    rw [JsonNumber.text, Int.toString_eq_repr, Int.repr_eq_if]
    split
    · exact .plain (.plain (.whole (digits_toString n.toNat)))
    · rw [String.toList_append]
      exact .negative (.plain (.whole (digits_toString (-n).toNat)))

theorem JsonNumber.numberText (n : JsonNumber) : NumberText n.text.toList :=
  n.signedNumeral.numberText

end AskSql
