import AskSql.Proofs.Text.Chars
import AskSql.Text.Scan

/-! What the steps of a scanner do to a text whose front is known.  Each step takes exactly the
piece that it looks for, as long as the text after the piece does not go on with it. -/

namespace AskSql.Text

variable {c : Char} {cs rest : List Char}

/-! ### Characters -/

/-- Characters that a property tells apart differ. -/
theorem ne_of_class {p : Char → Bool} {x : Char} (hc : p c = true) (hx : p x = false) : c ≠ x := by
  rintro rfl
  rw [hc] at hx
  contradiction

/-- The code points of white space. -/
def blankCodes : List Nat :=
  [9, 10, 11, 12, 13, 32, 0x85, 0xa0, 0x1680, 0x2000, 0x2001, 0x2002, 0x2003, 0x2004, 0x2005,
   0x2006, 0x2007, 0x2008, 0x2009, 0x200a, 0x2028, 0x2029, 0x202f, 0x205f, 0x3000]

theorem toNat_mem_blankCodes (h : isBlank c = true) : c.toNat ∈ blankCodes := by
  simp only [isBlank, Bool.or_eq_true, Bool.and_eq_true, beq_iff_eq, decide_eq_true_eq,
    Char.le_def, UInt32.le_iff_toNat_le] at h
  have hnat : ∀ x : Char, x.val.toNat = x.toNat := fun _ => rfl
  simp only [hnat] at h
  simp only [blankCodes, List.mem_cons, List.not_mem_nil, or_false]
  rcases h with (((((((((rfl | h) | rfl) | rfl) | rfl) | h) | rfl) | rfl) | rfl) | rfl) | rfl
  case inl.inl.inl.inl.inl.inl.inl.inl.inl.inr =>
    have h1 : '\t'.toNat = 9 := rfl
    have h2 : '\r'.toNat = 13 := rfl
    omega
  case inl.inl.inl.inl.inl.inr =>
    have h1 : '\u2000'.toNat = 0x2000 := rfl
    have h2 : '\u200a'.toNat = 0x200a := rfl
    omega
  all_goals decide

/-- What holds at each of the code points holds of white space. -/
@[elab_as_elim] theorem of_isBlank {motive : Char → Prop} (h : isBlank c = true)
    (hall : ∀ n ∈ blankCodes, motive (Char.ofNat n)) : motive c := by
  have hc := hall _ (toNat_mem_blankCodes h)
  rwa [Char.ofNat_toNat] at hc

/-- White space stands in no word. -/
theorem isWordChar_of_isBlank (h : isBlank c = true) : isWordChar c = false := by
  refine of_isBlank h ?_
  decide +kernel

theorem isBlank_of_isWordChar (h : isWordChar c = true) : isBlank c = false := by
  cases hb : isBlank c with
  | false => rfl
  | true => simp [isWordChar_of_isBlank hb] at h

theorem isDecimalDigit_of_isDigit (h : c.isDigit = true) : isDecimalDigit c = true := by
  have hlow : c.toNat < 128 := by
    simp only [Char.isDigit, Bool.and_eq_true, decide_eq_true_eq, UInt32.le_iff_toNat_le] at h
    exact Nat.lt_of_le_of_lt h.2 (by decide)
  simp [isDecimalDigit, hlow, h]

theorem isDecimalDigit_of_isBlank (h : isBlank c = true) : isDecimalDigit c = false := by
  refine of_isBlank h ?_
  decide +kernel

/-- A number that stands in no word, such as a superscript, is no decimal digit. -/
theorem isDecimalDigit_of_isAlphanumeric (h : isAlphanumeric c = true)
    (hword : isWordChar c = false) : isDecimalDigit c = false := by
  have hapart : ∀ r ∈ decimalDigitRanges, ∀ s ∈ numberExtraRanges, r.2 < s.1 ∨ s.2 < r.1 := by
    decide +kernel
  have hletter : isAlphabeticOrDigit c = false := by
    cases hc : isAlphabeticOrDigit c with
    | false => rfl
    | true =>
      rw [isWordChar] at hword
      split at hword
      · rename_i hlow
        rw [isAlphabeticOrDigit, if_pos hlow] at hc
        simp [hc] at hword
      · simp [hc] at hword
  simp only [isAlphanumeric, hletter, Bool.false_or, Bool.and_eq_true, decide_eq_true_eq] at h
  obtain ⟨s, hs, hlow, hhigh⟩ := exists_of_inRanges h.2
  cases hd : isDecimalDigit c with
  | false => rfl
  | true =>
    rw [isDecimalDigit, if_neg (by omega)] at hd
    obtain ⟨r, hr, hmin, hmax⟩ := exists_of_inRanges hd
    rcases hapart r hr s hs with hlt | hlt <;> omega

/-! ### Trimming -/

/-- `cs` begins and ends with characters that are not white space. -/
structure Trimmed (cs : List Char) : Prop where
  head : ∃ c ∈ cs.head?, isBlank c = false
  last : ∃ c ∈ cs.getLast?, isBlank c = false

instance (cs : List Char) : Decidable (Trimmed cs) :=
  decidable_of_iff (cs.head?.any (!isBlank ·) = true ∧ cs.getLast?.any (!isBlank ·) = true)
    ⟨fun h => ⟨by simpa [Option.any_eq_true] using h.1, by simpa [Option.any_eq_true] using h.2⟩,
      fun h =>
      ⟨by simpa [Option.any_eq_true] using h.head, by simpa [Option.any_eq_true] using h.last⟩⟩

theorem Trimmed.ne_nil (h : Trimmed cs) : cs ≠ [] := by
  rintro rfl
  obtain ⟨c, hc, -⟩ := h.head
  simp at hc

theorem trimStart_of_head (h : ∃ c ∈ cs.head?, isBlank c = false) : trimStart cs = cs := by
  obtain ⟨c, hc, hb⟩ := h
  cases cs with
  | nil => simp at hc
  | cons d cs =>
    obtain rfl : d = c := by simpa using hc
    simp [trimStart, hb]

theorem trimStart_append (hb : blank cs = true) : trimStart (cs ++ rest) = trimStart rest := by
  simp only [blank, List.all_eq_true] at hb
  exact List.dropWhile_append_of_pos hb

theorem trimEnd_append (hb : blank rest = true) : trimEnd (cs ++ rest) = trimEnd cs := by
  simp only [blank, List.all_eq_true] at hb
  rw [trimEnd, List.reverse_append, List.dropWhile_append_of_pos (by simpa using hb), trimEnd]

theorem trimEnd_isPrefix (cs : List Char) : trimEnd cs <+: cs := by
  have h := List.dropWhile_suffix (l := cs.reverse) isBlank
  rw [← List.reverse_prefix] at h
  simpa [trimEnd] using h

theorem trimEnd_of_last (h : ∃ c ∈ cs.getLast?, isBlank c = false) : trimEnd cs = cs := by
  have hrev : trimStart cs.reverse = cs.reverse := trimStart_of_head (by simpa using h)
  rw [trimEnd, ← trimStart, hrev, List.reverse_reverse]

theorem Trimmed.trim_eq (h : Trimmed cs) : trim cs = cs := by
  rw [trim, trimStart_of_head h.head, trimEnd_of_last h.last]

theorem head_trimStart (h : blank cs = false) : ∃ c ∈ (trimStart cs).head?, isBlank c = false := by
  induction cs with
  | nil => contradiction
  | cons c cs ih =>
    cases hc : isBlank c with
    | false => exact ⟨c, by simp [trimStart, hc], hc⟩
    | true =>
      have hrest : blank cs = false := by simpa [blank, hc] using h
      simpa [trimStart, hc] using ih hrest

/-- A text that is not blank begins and ends with no white space once it is trimmed. -/
theorem trimmed_trim (h : blank cs = false) : Trimmed (trim cs) := by
  obtain ⟨c, hc, hink⟩ := head_trimStart h
  have hback : blank (trimStart cs).reverse = false := by
    rw [blank, List.all_reverse, List.all_eq_false]
    exact ⟨c, List.mem_of_head? hc, by simp [hink]⟩
  obtain ⟨d, hd, hlast⟩ := head_trimStart hback
  have hend : d ∈ (trim cs).getLast? := by
    rw [trim, trimEnd, List.getLast?_reverse]
    exact hd
  refine ⟨⟨c, ?_, hink⟩, ⟨d, hend, hlast⟩⟩
  obtain ⟨rest, hrest⟩ := trimEnd_isPrefix (trimStart cs)
  rw [← hrest, ← trim] at hc
  obtain ⟨e, text, htext⟩ :=
    List.exists_cons_of_ne_nil (List.ne_nil_of_mem (List.mem_of_getLast? hend))
  rw [htext] at hc ⊢
  exact hc

theorem trim_of_blank (h : blank cs = true) : trim cs = [] := by
  have hstart := @trimStart_append cs [] h
  rw [List.append_nil] at hstart
  rw [trim, hstart]
  rfl

@[simp] theorem trim_trim (cs : List Char) : trim (trim cs) = trim cs := by
  cases h : blank cs with
  | true => rw [trim_of_blank h, trim_of_blank rfl]
  | false => exact (trimmed_trim h).trim_eq

/-- Trimming takes the white space around a text away and no more. -/
theorem Trimmed.trim_padded (h : Trimmed cs) {left right : List Char} (hl : blank left = true)
    (hr : blank right = true) : trim (left ++ cs ++ right) = cs := by
  have hhead : ∃ c ∈ (cs ++ right).head?, isBlank c = false := by
    obtain ⟨c, hc, hb⟩ := h.head
    exact ⟨c, by simp [List.head?_append, Option.mem_def.1 hc], hb⟩
  rw [trim, List.append_assoc, trimStart_append hl, trimStart_of_head hhead, trimEnd_append hr,
    trimEnd_of_last h.last]

theorem Trimmed.append {front back : List Char} (hf : ∃ c ∈ front.head?, isBlank c = false)
    (hb : ∃ c ∈ back.getLast?, isBlank c = false) (middle : List Char) :
    Trimmed (front ++ middle ++ back) := by
  obtain ⟨c, hc, hcb⟩ := hf
  obtain ⟨d, hd, hdb⟩ := hb
  exact ⟨⟨c, by simp [List.head?_append, Option.mem_def.1 hc], hcb⟩,
    ⟨d, by simp [List.getLast?_append, Option.mem_def.1 hd], hdb⟩⟩

/-! ### Steps of a scanner -/

theorem keywordChars?_append (cs rest : List Char) :
    keywordChars? (cs.map fold) (cs ++ rest) = some rest := by
  induction cs with
  | nil => rfl
  | cons c cs ih => simpa [keywordChars?] using ih

theorem keyword?_append {word : String} (h : cs.map fold = word.toList) (rest : List Char) :
    keyword? word (cs ++ rest) = some rest := by
  rw [keyword?, ← h, keywordChars?_append]

theorem keywordChars?_suffix {word : List Char} (h : keywordChars? word cs = some rest) :
    rest <:+ cs := by
  induction word generalizing cs with
  | nil =>
    obtain rfl : cs = rest := by simpa [keywordChars?] using h
    exact List.suffix_refl _
  | cons w word ih =>
    cases cs with
    | nil => simp [keywordChars?] at h
    | cons c cs =>
      rw [keywordChars?] at h
      split at h
      · exact (ih h).trans (List.suffix_cons c cs)
      · simp at h

theorem keywordChars?_length {word : List Char} (h : keywordChars? word cs = some rest) :
    cs.length = word.length + rest.length := by
  induction word generalizing cs with
  | nil =>
    obtain rfl : cs = rest := by simpa [keywordChars?] using h
    simp
  | cons w word ih =>
    cases cs with
    | nil => simp [keywordChars?] at h
    | cons c cs =>
      rw [keywordChars?] at h
      split at h
      · simp only [List.length_cons, ih h]
        omega
      · contradiction

/-- What no keyword goes on with does not help to complete one. -/
theorem keywordChars?_append_of_head {word : List Char} (hr : ∀ c ∈ rest.head?, fold c ∉ word) :
    keywordChars? word (cs ++ rest) = (keywordChars? word cs).map (· ++ rest) := by
  induction word generalizing cs with
  | nil => rfl
  | cons w word ih =>
    cases cs with
    | nil =>
      cases rest with
      | nil => rfl
      | cons c rest =>
        have hc : fold c ≠ w := fun heq => hr c (by simp) (by simp [heq])
        simp [keywordChars?, hc]
    | cons c cs =>
      rw [List.cons_append, keywordChars?, keywordChars?]
      split
      · exact ih fun d hd hmem => hr d hd (List.mem_cons_of_mem _ hmem)
      · rfl

@[simp] theorem char?_cons_self (x : Char) (cs : List Char) : char? x (x :: cs) = some cs := by
  simp [char?]

theorem char?_eq_none {x : Char} (h : cs.head? ≠ some x) : char? x cs = none := by
  cases cs with
  | nil => rfl
  | cons d cs => simp_all [char?]

theorem blanks?_append (hne : cs ≠ []) (hb : blank cs = true) :
    blanks? (cs ++ rest) = some (trimStart rest) := by
  cases cs with
  | nil => contradiction
  | cons c cs =>
    simp only [blank, List.all_cons, Bool.and_eq_true] at hb
    simp [blanks?, hb.1, trimStart_append (by simpa [blank] using hb.2)]

theorem blanks?_of_head (h : ∀ c ∈ cs.head?, isBlank c = false) : blanks? cs = none := by
  cases cs with
  | nil => rfl
  | cons c cs => simp [blanks?, h c (by simp)]

theorem takeWhile_append {p : Char → Bool} (h : ∀ c ∈ cs, p c = true)
    (hr : ∀ c ∈ rest.head?, p c = false) : (cs ++ rest).takeWhile p = cs := by
  rw [List.takeWhile_append_of_pos h]
  cases rest with
  | nil => simp
  | cons c rest => simp [hr c (by simp)]

theorem dropWhile_append {p : Char → Bool} (h : ∀ c ∈ cs, p c = true)
    (hr : ∀ c ∈ rest.head?, p c = false) : (cs ++ rest).dropWhile p = rest := by
  rw [List.dropWhile_append_of_pos h]
  cases rest with
  | nil => simp
  | cons c rest => simp [hr c (by simp)]

theorem head_dropWhile {p : Char → Bool} : ∀ c ∈ (cs.dropWhile p).head?, p c = false := by
  intro c hc
  have h := List.head?_dropWhile_not p cs
  rw [Option.mem_def.1 hc] at h
  simpa using h

theorem run?_append {p : Char → Bool} (hne : cs ≠ []) (h : ∀ c ∈ cs, p c = true)
    (hr : ∀ c ∈ rest.head?, p c = false) : run? p (cs ++ rest) = some (cs, rest) := by
  simp [run?, takeWhile_append h hr, dropWhile_append h hr, hne]

theorem word_append (h : ∀ c ∈ cs, isWordChar c = true)
    (hr : ∀ c ∈ rest.head?, isWordChar c = false) : word (cs ++ rest) = (cs, rest) := by
  simp [word, takeWhile_append h hr, dropWhile_append h hr]

end AskSql.Text
