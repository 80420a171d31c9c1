import AskSql.Proofs.Idiom.Tokens

/-! Names of parts and units, numbers, and the intervals made of them, in each of their layouts.
Each is read back as what it was written from. -/

namespace AskSql.Idiom

open Text Sql

/-! ### Parts and units -/

/-- A word of ASCII letters. -/
structure IsWord (word : List Char) : Prop where
  ne_nil : word ≠ []
  letters : ∀ c ∈ word, c.isAlpha = true

namespace IsWord

variable {word : List Char} (h : IsWord word)
include h

theorem mute : Mute word :=
  mute_of_letters fun c hc => foldsToLetter_of_isAlpha (h.letters c hc)

theorem tame : Tame word :=
  h.mute.toTame

theorem isWordChar : ∀ c ∈ word, isWordChar c = true :=
  fun c hc => isWordChar_of_isAlpha (h.letters c hc)

theorem trimmed : Trimmed word :=
  trimmed_of_forall h.ne_nil fun c hc => isBlank_of_isWordChar (h.isWordChar c hc)

theorem not_mem {d : Char} (hd : d.isAlpha = false) : d ∉ word := by
  intro hmem
  simp [h.letters d hmem] at hd

theorem letters?_append {rest : List Char} (hr : ∀ c ∈ rest.head?, foldsToLetter c = false) :
    letters? (word ++ rest) = some (word, rest) :=
  run?_append h.ne_nil (fun c hc => foldsToLetter_of_isAlpha (h.letters c hc)) hr

end IsWord

/-- `text` is an argument that `ofText?` reads as `value`: one of its names in any case, bare or
quoted. -/
structure Reads {α : Type} (ofText? : List Char → Option α) (value : α) (text : List Char) :
    Prop where
  tame : Tame text
  trimmed : Trimmed text
  value : ofText? text = some value

theorem Reads.isArg {α : Type} {ofText? : List Char → Option α} {value : α} {text : List Char}
    (h : Reads ofText? value text) : IsArg text :=
  ⟨h.tame.closed, h.trimmed⟩

/-! ### Numbers -/

/-- A sign, if any, and digits. -/
structure IsNumber (text : List Char) : Prop where
  split : ∃ sign digits, text = sign ++ digits ∧ (sign = [] ∨ sign = ['+'] ∨ sign = ['-']) ∧
    digits ≠ [] ∧ ∀ c ∈ digits, c.isDigit = true

theorem digits_of_natural? {digits : List Char} {n : Nat} (h : natural? digits = some n) :
    digits ≠ [] ∧ ∀ c ∈ digits, c.isDigit = true := by
  rw [natural?] at h
  split at h
  · simp at h
  · rename_i hdigits
    simp only [Bool.or_eq_true, Bool.not_eq_true', not_or, List.isEmpty_iff, Bool.not_eq_false,
      List.all_eq_true] at hdigits
    exact hdigits

theorem isNumber_of_int64? {text : List Char} {n : Int} (h : int64? text = some n) :
    IsNumber text := by
  have hdigits : ∀ {digits : List Char} {f : Int → Int},
      Option.filter fitsInt64 (Option.map f do return ((← natural? digits : Nat) : Int)) = some n →
      digits ≠ [] ∧ ∀ c ∈ digits, c.isDigit = true := by
    intro digits f h
    cases hm : natural? digits with
    | none => simp [hm] at h
    | some m => exact digits_of_natural? hm
  constructor
  unfold int64? at h
  dsimp only at h
  split at h
  · exact ⟨['-'], _, rfl, by simp, hdigits h⟩
  · exact ⟨['+'], _, rfl, by simp, hdigits h⟩
  · exact ⟨[], _, rfl, by simp, hdigits h⟩

namespace IsNumber

variable {text : List Char} (h : IsNumber text)
include h

theorem chars : ∀ c ∈ text, c = '+' ∨ c = '-' ∨ c.isDigit = true := by
  obtain ⟨sign, digits, rfl, hsign, -, hdigits⟩ := h.split
  intro c hc
  rcases List.mem_append.1 hc with hc | hc
  · rcases hsign with rfl | rfl | rfl <;> simp_all
  · exact Or.inr (Or.inr (hdigits c hc))

theorem ne_nil : text ≠ [] := by
  obtain ⟨sign, digits, rfl, -, hne, -⟩ := h.split
  simp [hne]

theorem tame : Tame text :=
  tame_of_forall fun c hc => by
    rcases h.chars c hc with rfl | rfl | hc
    · decide
    · decide
    · refine ⟨isMark_of_isWordChar (isWordChar_of_isDigit hc), ?_⟩
      rintro rfl
      exact absurd hc (by decide)

theorem trimmed : Trimmed text :=
  trimmed_of_forall h.ne_nil fun c hc => by
    rcases h.chars c hc with rfl | rfl | hc
    · decide
    · decide
    · exact isBlank_of_isWordChar (isWordChar_of_isDigit hc)

/-- The sign of a number stands before a digit. -/
theorem calm : Calm text := by
  obtain ⟨sign, digits, rfl, hsign, hne, hdigits⟩ := h.split
  have hcalm : Calm digits := calm_of_forall fun c hc => by
    have hdigit := hdigits c hc
    refine ⟨?_, ?_, ?_⟩ <;> (rintro rfl; exact absurd hdigit (by decide))
  obtain ⟨c, digits, rfl⟩ := List.exists_cons_of_ne_nil hne
  have hdigit := hdigits c (by simp)
  have hblank := isBlank_of_isWordChar (isWordChar_of_isDigit hdigit)
  have hfold : fold c ≠ 'i' := by
    rw [fold_of_isDigit hdigit]
    rintro rfl
    exact absurd hdigit (by decide)
  rcases hsign with rfl | rfl | rfl
  · exact hcalm
  · exact hcalm.sign (by decide) hblank hfold
  · exact hcalm.sign (by decide) hblank hfold

theorem mute : Mute text where
  toTame := h.tame
  calls hmem := by
    rcases h.chars _ hmem with hc | hc | hc <;> exact absurd hc (by decide)
  calm := h.calm

/-- A number is read whole when no digit follows it. -/
theorem signedDigits?_append {rest : List Char} (hr : ∀ c ∈ rest.head?, isDecimalDigit c = false) :
    signedDigits? (text ++ rest) = some (text, rest) := by
  obtain ⟨sign, digits, rfl, hsign, hne, hdigits⟩ := h.split
  have hrun : digits? (digits ++ rest) = some (digits, rest) :=
    run?_append hne (fun c hc => isDecimalDigit_of_isDigit (hdigits c hc)) hr
  rcases hsign with rfl | rfl | rfl
  · cases digits with
    | nil => contradiction
    | cons c digits =>
      have hc := hdigits c (by simp)
      have hplus : c ≠ '+' := by rintro rfl; exact absurd hc (by decide)
      have hminus : c ≠ '-' := by rintro rfl; exact absurd hc (by decide)
      simpa [signedDigits?, hplus, hminus] using hrun
  · simp [signedDigits?, hrun]
  · simp [signedDigits?, hrun]

end IsNumber

theorem foldsToLetter_of_isBlank {c : Char} (h : isBlank c = true) : foldsToLetter c = false := by
  cases hf : foldsToLetter c with
  | false => rfl
  | true => simpa [isWordChar_of_foldsToLetter hf] using isWordChar_of_isBlank h

theorem head_append_of_blank {p : Char → Bool} (hp : ∀ c, isBlank c = true → p c = false)
    {gap rest : List Char} (hgap : blank gap = true) (hr : ∀ c ∈ rest.head?, p c = false) :
    ∀ c ∈ (gap ++ rest).head?, p c = false := by
  intro c hc
  cases gap with
  | nil => exact hr c hc
  | cons d gap =>
    obtain rfl : d = c := by simpa using hc
    exact hp d (List.all_eq_true.1 hgap d (by simp))

/-! ### Layouts -/

/-- A number and a word in one pair of quotes. -/
inductive QuotedBoth (number word : List Char) : List Char → Prop
  | intro (left gap right : List Char) (hleft : blank left = true) (hgap : blank gap = true)
      (hne : gap ≠ []) (hright : blank right = true) :
      QuotedBoth number word (quoted (left ++ number ++ gap ++ word ++ right))

/-- A number and a word as they follow the keyword of an interval. -/
inductive Layout (number word : List Char) : List Char → Prop
  | bare (gap : List Char) (hgap : blank gap = true) (hne : gap ≠ []) :
      Layout number word (number ++ gap ++ word)
  | both {text : List Char} (h : QuotedBoth number word text) : Layout number word text
  | number (left right gap : List Char) (hleft : blank left = true) (hright : blank right = true)
      (hgap : blank gap = true) :
      Layout number word (quoted (left ++ number ++ right) ++ gap ++ word)

/-- An interval of a number and a word, whatever they stand for. -/
inductive IntervalOf (number word : List Char) : List Char → Prop
  | intro {keyword body : List Char} (hkeyword : Keyword "interval" keyword) (gap : List Char)
      (hgap : blank gap = true) (hne : gap ≠ []) (hbody : Layout number word body) :
      IntervalOf number word (keyword ++ gap ++ body)

section Layouts

variable {number word text : List Char} (hnumber : IsNumber number) (hword : IsWord word)

theorem IsNumber.quote_not_mem (h : IsNumber number) : '\'' ∉ number := by
  intro hmem
  rcases h.chars _ hmem with hc | hc | hc <;> exact absurd hc (by decide)

include hnumber in
theorem trimStart_number {left rest : List Char} (hleft : blank left = true) :
    trimStart (left ++ (number ++ rest)) = number ++ rest := by
  obtain ⟨c, hc, hb⟩ := hnumber.trimmed.head
  rw [trimStart_append hleft]
  exact trimStart_of_head ⟨c, by simp [List.head?_append, Option.mem_def.1 hc], hb⟩

include hword in
theorem trimStart_word {gap rest : List Char} (hgap : blank gap = true) :
    trimStart (gap ++ (word ++ rest)) = word ++ rest := by
  obtain ⟨c, hc, hb⟩ := hword.trimmed.head
  rw [trimStart_append hgap]
  exact trimStart_of_head ⟨c, by simp [List.head?_append, Option.mem_def.1 hc], hb⟩

include hword in
/-- A word after white space is scanned as far as its letters go. -/
theorem blanks?_word {gap rest : List Char} (hgap : blank gap = true) (hne : gap ≠ []) :
    blanks? (gap ++ (word ++ rest)) = some (word ++ rest) := by
  rw [blanks?_append hne hgap, ← trimStart_append hgap, trimStart_word hword hgap]

include hnumber in
/-- A number is scanned up to the white space behind it. -/
theorem signedDigits?_gap {gap rest : List Char} (hgap : blank gap = true)
    (hrest : ∀ c ∈ rest.head?, isDecimalDigit c = false) :
    signedDigits? (number ++ (gap ++ rest)) = some (number, gap ++ rest) :=
  hnumber.signedDigits?_append
    (head_append_of_blank (fun _ => isDecimalDigit_of_isBlank) hgap hrest)

theorem isDecimalDigit_of_isAlpha {c : Char} (h : c.isAlpha = true) : isDecimalDigit c = false := by
  have hlow : c.toNat < 128 := by
    unfold Char.isAlpha Char.isUpper Char.isLower at h
    simp only [Bool.or_eq_true, Bool.and_eq_true, decide_eq_true_eq, UInt32.le_iff_toNat_le] at h
    rcases h with h | h
    · exact Nat.lt_of_le_of_lt h.2 (by decide)
    · exact Nat.lt_of_le_of_lt h.2 (by decide)
  rw [isDecimalDigit, if_pos hlow]
  cases hd : c.isDigit with
  | false => rfl
  | true =>
    have hstart := isNameStart_of_isDigit hd
    simp [isNameStart, h] at hstart

include hword in
theorem IsWord.head_append (rest : List Char) : ∀ c ∈ (word ++ rest).head?, c.isAlpha = true := by
  intro c hc
  obtain ⟨d, word, rfl⟩ := List.exists_cons_of_ne_nil hword.ne_nil
  obtain rfl : d = c := by simpa using hc
  exact hword.letters d (by simp)

include hnumber hword in
/-- A number and a word in one pair of quotes are scanned as such. -/
theorem QuotedBoth.scan_eq (h : QuotedBoth number word text) (rest : List Char) :
    quotedAmount? (text ++ rest) = none ∧ quotedBoth? (text ++ rest) =
      some ⟨number, word, rest⟩ := by
  obtain ⟨left, gap, right, hleft, hgap, hne, hright⟩ := h
  have hsplit : quoted (left ++ number ++ gap ++ word ++ right) ++ rest =
      '\'' :: (left ++ (number ++ (gap ++ (word ++ (right ++ '\'' :: rest))))) := by simp [quoted]
  have hdigits := signedDigits?_gap hnumber hgap fun c hc =>
    isDecimalDigit_of_isAlpha (hword.head_append (right ++ '\'' :: rest) c hc)
  have hletters := @IsWord.letters?_append _ hword (right ++ '\'' :: rest)
    (head_append_of_blank (fun c => foldsToLetter_of_isBlank) hright
      (by simpa using (by decide : foldsToLetter '\'' = false)))
  have hclose : trimStart (right ++ '\'' :: rest) = '\'' :: rest := by
    rw [trimStart_append hright]
    exact trimStart_of_head ⟨'\'', by simp, by decide⟩
  have hquote : char? '\'' (word ++ (right ++ '\'' :: rest)) = none :=
    char?_eq_none fun hc => absurd (hword.head_append _ _ hc) (by decide)
  rw [hsplit]
  constructor
  · simp [quotedAmount?, trimStart_number hnumber hleft, hdigits, trimStart_word hword hgap, hquote]
  · simp [quotedBoth?, trimStart_number hnumber hleft, hdigits, blanks?_word hword hgap hne,
      hletters, hclose]

include hnumber hword in
/-- A number and a word are scanned in each layout, if the text behind them does not go on with the
word. -/
theorem Layout.scan_eq (h : Layout number word text) {rest : List Char}
    (hrest : ∀ c ∈ rest.head?, foldsToLetter c = false) :
    (quotedAmount? (text ++ rest)).or ((quotedBoth? (text ++ rest)).or (unquoted? (text ++ rest))) =
      some ⟨number, word, rest⟩ := by
  have hletters := @IsWord.letters?_append _ hword _ hrest
  cases h with
  | bare gap hgap hne =>
    have hquote : char? '\'' (number ++ (gap ++ (word ++ rest))) = none := by
      obtain ⟨c, number, rfl⟩ := List.exists_cons_of_ne_nil hnumber.ne_nil
      refine char?_eq_none fun hc => ?_
      obtain rfl : c = '\'' := by simpa using hc
      exact hnumber.quote_not_mem (by simp)
    have hdigits := signedDigits?_gap hnumber hgap fun c hc =>
      isDecimalDigit_of_isAlpha (hword.head_append rest c hc)
    simp [quotedAmount?, quotedBoth?, unquoted?, hquote, hdigits, blanks?_word hword hgap hne,
      hletters]
  | both hboth =>
    obtain ⟨hnone, hboth⟩ := hboth.scan_eq hnumber hword rest
    rw [hnone, hboth]
    rfl
  | number left right gap hleft hright hgap =>
    have hsplit : quoted (left ++ number ++ right) ++ gap ++ word ++ rest =
        '\'' :: (left ++ (number ++ (right ++ '\'' :: (gap ++ (word ++ rest))))) := by simp [quoted]
    have hdigits := @signedDigits?_gap _ hnumber right ('\'' :: (gap ++ (word ++ rest))) hright
      (by simpa using (by decide : isDecimalDigit '\'' = false))
    have hclose : trimStart (right ++ '\'' :: (gap ++ (word ++ rest))) =
        '\'' :: (gap ++ (word ++ rest)) := by
      rw [trimStart_append hright]
      exact trimStart_of_head ⟨'\'', by simp, by decide⟩
    rw [hsplit]
    simp [quotedAmount?, trimStart_number hnumber hleft, hdigits, hclose, trimStart_word hword hgap,
      hletters]

include hnumber hword in
theorem QuotedBoth.exists_quoted (h : QuotedBoth number word text) :
    ∃ content, text = quoted content ∧ '\'' ∉ content ∧ Mute content := by
  obtain ⟨left, gap, right, hleft, hgap, -, hright⟩ := h
  refine ⟨_, rfl, ?_,
    ((((mute_of_blank hleft).append hnumber.mute).append (mute_of_blank hgap)).append
    hword.mute).append (mute_of_blank hright)⟩
  simp [quote_not_mem_of_blank hleft, hnumber.quote_not_mem, quote_not_mem_of_blank hgap,
    hword.not_mem (d := '\'') (by decide), quote_not_mem_of_blank hright]

include hnumber hword in
theorem QuotedBoth.mute (h : QuotedBoth number word text) : Mute text := by
  obtain ⟨content, rfl, hquote, hmute⟩ := h.exists_quoted hnumber hword
  exact hmute.quoted hquote

theorem QuotedBoth.trimmed (h : QuotedBoth number word text) : Trimmed text := by
  obtain ⟨left, gap, right, -, -, -, -⟩ := h
  exact trimmed_quoted _

include hnumber hword in
theorem Layout.mute (h : Layout number word text) : Mute text := by
  cases h with
  | bare gap hgap => exact (hnumber.mute.append (mute_of_blank hgap)).append hword.mute
  | both hboth => exact hboth.mute hnumber hword
  | number left right gap hleft hright hgap =>
    have hinner := ((mute_of_blank hleft).append hnumber.mute).append (mute_of_blank hright)
    refine ((hinner.quoted ?_).append (mute_of_blank hgap)).append hword.mute
    simp [quote_not_mem_of_blank hleft, hnumber.quote_not_mem, quote_not_mem_of_blank hright]

include hnumber in
/-- A layout begins with a digit, a sign or a quote. -/
theorem Layout.head (h : Layout number word text) :
    ∃ c ∈ text.head?, isBlank c = false ∧ isNameStart c = false := by
  cases h with
  | bare gap =>
    obtain ⟨c, hc, hb⟩ := hnumber.trimmed.head
    refine ⟨c, by simp [List.head?_append, Option.mem_def.1 hc], hb, ?_⟩
    rcases hnumber.chars c (List.mem_of_head? hc) with rfl | rfl | hdigit
    · decide
    · decide
    · exact isNameStart_of_isDigit hdigit
  | both hboth =>
    obtain ⟨left, gap, right, -, -, -, -⟩ := hboth
    exact ⟨'\'', by simp [quoted], by decide, by decide⟩
  | number left right gap => exact ⟨'\'', by simp [quoted], by decide, by decide⟩

include hword in
/-- A layout ends with a letter or a quote. -/
theorem Layout.last (h : Layout number word text) :
    ∃ c ∈ text.getLast?, c.isAlpha = true ∨ c = '\'' := by
  have hlast : ∃ c ∈ word.getLast?, c.isAlpha = true ∨ c = '\'' :=
    ⟨_, List.getLast?_eq_some_getLast hword.ne_nil,
      Or.inl (hword.letters _ (List.getLast_mem hword.ne_nil))⟩
  obtain ⟨c, hc, halpha⟩ := hlast
  cases h with
  | both hboth =>
    obtain ⟨left, gap, right, -, -, -, -⟩ := hboth
    exact ⟨'\'', by rw [quoted, List.getLast?_concat]; rfl, Or.inr rfl⟩
  | _ => exact ⟨c, by rw [List.getLast?_append, Option.mem_def.1 hc]; rfl, halpha⟩

theorem isBlank_of_letter {c : Char} (h : c.isAlpha = true ∨ c = '\'') : isBlank c = false := by
  rcases h with halpha | rfl
  · exact isBlank_of_isWordChar (isWordChar_of_isAlpha halpha)
  · decide

namespace IntervalOf

include hnumber hword

theorem mute (h : IntervalOf number word text) : Mute text := by
  obtain ⟨hkeyword, gap, hgap, -, hbody⟩ := h
  exact ((hkeyword.mute (by decide)).append (mute_of_blank hgap)).append (hbody.mute hnumber hword)

omit hnumber in
theorem last (h : IntervalOf number word text) :
    ∃ c ∈ text.getLast?, c.isAlpha = true ∨ c = '\'' := by
  obtain ⟨-, gap, -, -, hbody⟩ := h
  obtain ⟨c, hc, hlast⟩ := hbody.last hword
  exact ⟨c, by rw [List.getLast?_append, Option.mem_def.1 hc]; rfl, hlast⟩

omit hnumber in
theorem trimmed (h : IntervalOf number word text) : Trimmed text := by
  obtain ⟨c, hc, hlast⟩ := h.last hword
  obtain ⟨hkeyword, gap, -, -, -⟩ := h
  obtain ⟨d, hd, hb⟩ := (hkeyword.trimmed (by decide) (by decide)).head
  exact ⟨⟨d, by simp [List.head?_append, Option.mem_def.1 hd], hb⟩,
    ⟨c, hc, isBlank_of_letter hlast⟩⟩

/-- An interval is scanned off the front of a text. -/
theorem scanInterval?_eq (h : IntervalOf number word text) {rest : List Char}
    (hrest : ∀ c ∈ rest.head?, foldsToLetter c = false) :
    scanInterval? (text ++ rest) = some ⟨number, word, rest⟩ := by
  obtain ⟨hkeyword, gap, hgap, hne, hbody⟩ := h
  have hscan := hbody.scan_eq hnumber hword hrest
  obtain ⟨c, hc, hb, -⟩ := hbody.head hnumber
  rename_i keyword body
  have hstart : trimStart (body ++ rest) = body ++ rest :=
    trimStart_of_head ⟨c, by simp [List.head?_append, Option.mem_def.1 hc], hb⟩
  simp [scanInterval?, keyword?_append hkeyword, blanks?_append hne hgap, hstart, hscan]

/-- An interval is read as its number and its word are. -/
theorem interval?_eq (h : IntervalOf number word text) :
    interval? text = ScannedInterval.value? ⟨number, word, []⟩ := by
  have hnil : ∀ c ∈ ([] : List Char).head?, foldsToLetter c = false := by simp
  have hscan := h.scanInterval?_eq hnumber hword hnil
  rw [List.append_nil] at hscan
  simp [interval?, (h.trimmed hword).trim_eq, hscan]

end IntervalOf

include hnumber hword in
/-- A modifier is read as its number and its word are. -/
theorem QuotedBoth.modifier?_eq (h : QuotedBoth number word text) :
    modifier? text = ScannedInterval.value? ⟨number, word, []⟩ := by
  have hscan := (h.scan_eq hnumber hword []).2
  rw [List.append_nil] at hscan
  simp [modifier?, hscan]

end Layouts

/-! ### Intervals -/

/-- A number and a unit. -/
structure Quantity (amount : Int) (unit : TimeUnit) (number word : List Char) : Prop where
  number : int64? number = some amount
  isWord : IsWord word
  unit : TimeUnit.ofText? word = some unit

/-- A number and a unit, quoted together. -/
inductive Modifier (amount : Int) (unit : TimeUnit) : List Char → Prop
  | intro {number word : List Char} (h : Quantity amount unit number word)
      (left gap right : List Char) (hleft : blank left = true) (hgap : blank gap = true)
      (hne : gap ≠ []) (hright : blank right = true) :
      Modifier amount unit (quoted (left ++ number ++ gap ++ word ++ right))

/-- What follows the keyword of an interval. -/
inductive IntervalBody (amount : Int) (unit : TimeUnit) : List Char → Prop
  | bare {number word : List Char} (h : Quantity amount unit number word) (gap : List Char)
      (hgap : blank gap = true) (hne : gap ≠ []) : IntervalBody amount unit (number ++ gap ++ word)
  | both {text : List Char} (h : Modifier amount unit text) : IntervalBody amount unit text
  | number {number word : List Char} (h : Quantity amount unit number word)
      (left right gap : List Char) (hleft : blank left = true) (hright : blank right = true)
      (hgap : blank gap = true) :
      IntervalBody amount unit (quoted (left ++ number ++ right) ++ gap ++ word)

/-- An interval in any of its layouts. -/
inductive IntervalText (amount : Int) (unit : TimeUnit) : List Char → Prop
  | intro {keyword body : List Char} (hkeyword : Keyword "interval" keyword) (gap : List Char)
      (hgap : blank gap = true) (hne : gap ≠ []) (hbody : IntervalBody amount unit body) :
      IntervalText amount unit (keyword ++ gap ++ body)

variable {amount : Int} {unit : TimeUnit} {text : List Char}

namespace Quantity

variable {number word : List Char} (h : Quantity amount unit number word)
include h

theorem isNumber : IsNumber number :=
  isNumber_of_int64? h.number

theorem value?_eq (rest : List Char) :
    ScannedInterval.value? ⟨number, word, rest⟩ = some (amount, unit) := by
  simp [ScannedInterval.value?, h.number, h.unit]

end Quantity

namespace Modifier

theorem quotedBoth (h : Modifier amount unit text) :
    ∃ number word, Quantity amount unit number word ∧ QuotedBoth number word text := by
  obtain ⟨hq, left, gap, right, hleft, hgap, hne, hright⟩ := h
  exact ⟨_, _, hq, .intro left gap right hleft hgap hne hright⟩

theorem modifier?_eq (h : Modifier amount unit text) : modifier? text = some (amount, unit) := by
  obtain ⟨number, word, hq, hboth⟩ := h.quotedBoth
  rw [hboth.modifier?_eq hq.isNumber hq.isWord, hq.value?_eq]

theorem exists_quoted (h : Modifier amount unit text) :
    ∃ content, text = quoted content ∧ '\'' ∉ content ∧ Mute content := by
  obtain ⟨number, word, hq, hboth⟩ := h.quotedBoth
  exact hboth.exists_quoted hq.isNumber hq.isWord

theorem tame (h : Modifier amount unit text) : Tame text := by
  obtain ⟨number, word, hq, hboth⟩ := h.quotedBoth
  exact (hboth.mute hq.isNumber hq.isWord).toTame

theorem isArg (h : Modifier amount unit text) : IsArg text := by
  obtain ⟨number, word, hq, hboth⟩ := h.quotedBoth
  exact ⟨h.tame.closed, hboth.trimmed⟩

end Modifier

theorem IntervalBody.layout (h : IntervalBody amount unit text) :
    ∃ number word, Quantity amount unit number word ∧ Layout number word text := by
  cases h with
  | bare hq gap hgap hne => exact ⟨_, _, hq, .bare gap hgap hne⟩
  | both hm =>
    obtain ⟨number, word, hq, hboth⟩ := hm.quotedBoth
    exact ⟨number, word, hq, .both hboth⟩
  | number hq left right gap hleft hright hgap =>
    exact ⟨_, _, hq, .number left right gap hleft hright hgap⟩

namespace IntervalText

theorem intervalOf (h : IntervalText amount unit text) :
    ∃ number word, Quantity amount unit number word ∧ IntervalOf number word text := by
  obtain ⟨hkeyword, gap, hgap, hne, hbody⟩ := h
  obtain ⟨number, word, hq, hlayout⟩ := hbody.layout
  exact ⟨number, word, hq, .intro hkeyword gap hgap hne hlayout⟩

theorem tame (h : IntervalText amount unit text) : Tame text := by
  obtain ⟨number, word, hq, hinterval⟩ := h.intervalOf
  exact (hinterval.mute hq.isNumber hq.isWord).toTame

theorem trimmed (h : IntervalText amount unit text) : Trimmed text := by
  obtain ⟨number, word, hq, hinterval⟩ := h.intervalOf
  exact hinterval.trimmed hq.isWord

theorem isArg (h : IntervalText amount unit text) : IsArg text :=
  ⟨h.tame.closed, h.trimmed⟩

theorem interval?_eq (h : IntervalText amount unit text) :
    interval? text = some (amount, unit) := by
  obtain ⟨number, word, hq, hinterval⟩ := h.intervalOf
  rw [hinterval.interval?_eq hq.isNumber hq.isWord, hq.value?_eq]

end IntervalText

end AskSql.Idiom
