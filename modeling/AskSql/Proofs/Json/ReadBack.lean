import AskSql.Json.Printer
import AskSql.Json.Value
import AskSql.Proofs.Sql.Values

/-! Reading back what has been written.  The text of a value without white space is read as the
value again, as long as its numbers are integers of 64 bits, the fields of its objects are in the
order of their names, as they are once they have been read, and its arrays and objects nest no
deeper than is allowed.  A character of a string reads back as itself or, if it is written by its
number, as that number; a number ends where no digit, point or exponent follows; and an item ends
before a comma or a bracket. -/

namespace AskSql.Json

open Numeric Text

variable {rest cs : List Char} {fuel depth : Nat} {form : Form} {value : Json}

/-! ### Strings -/

/-- What a character of a string reads back as: a control character that no letter stands for is
written by its number. -/
def pieceOf (c : Char) : StringPiece :=
  if c.toNat < 32 ∧ c ∉ ['\x08', '\x0c', '\n', '\r', '\t'] then .code c.toNat else .char c

theorem hex4?_of_lt {n : Nat} (h : n < 32) :
    Form.hex4? '0' '0' (n / 16).digitChar (n % 16).digitChar = some n := by
  have hall : ∀ n < 32, Form.hex4? '0' '0' (n / 16).digitChar (n % 16).digitChar = some n := by
    decide
  exact hall n h

/-- The characters that a backslash and a letter stand for. -/
def lettered : List (Char × Char) :=
  [('"', '"'), ('\\', '\\'), ('\x08', 'b'), ('\x0c', 'f'), ('\n', 'n'), ('\r', 'r'), ('\t', 't')]

theorem readString_lettered {c d : Char} (h : (c, d) ∈ lettered) (cs : List Char) :
    escapeChar c = ['\\', d] ∧ Form.readString ('\\' :: d :: cs) =
      (Form.readString cs).map fun (pieces, rest) => (pieceOf c :: pieces, rest) := by
  have hall : ∀ entry ∈ lettered, escapeChar entry.1 = ['\\', entry.2] ∧ entry.2 ≠ 'u' ∧
      Form.simpleEscape? entry.2 = some entry.1 ∧ pieceOf entry.1 = .char entry.1 := by decide
  obtain ⟨hescape, hu, hsimple, hpiece⟩ := hall _ h
  refine ⟨hescape, ?_⟩
  rw [Form.readString.eq_4 _ _ (fun a b c d cs hd _ => hu hd), hsimple, hpiece]
  cases Form.readString cs <;> rfl

theorem readString_code {n : Nat} (h : n < 32) (cs : List Char) :
    Form.readString ('\\' :: 'u' :: '0' :: '0' :: (n / 16).digitChar :: (n % 16).digitChar :: cs) =
      (Form.readString cs).map fun (pieces, rest) => (.code n :: pieces, rest) := by
  rw [Form.readString, hex4?_of_lt h]
  cases Form.readString cs <;> rfl

theorem readString_plain {c : Char} (hquote : c ≠ '"') (hslash : c ≠ '\\') (h : ¬c.toNat < 32)
    (cs : List Char) :
    Form.readString (c :: cs) =
      (Form.readString cs).map fun (pieces, rest) => (.char c :: pieces, rest) := by
  rw [Form.readString.eq_5 c cs hquote (fun a b d e f hc _ => hslash hc)
    (fun d f hc _ => hslash hc), if_neg (by simp [hslash, h])]
  cases Form.readString cs <;> rfl

/-- A character is read from its escaped form, whatever follows. -/
theorem readString_escapeChar (c : Char) (cs : List Char) :
    Form.readString (escapeChar c ++ cs) =
      (Form.readString cs).map fun (pieces, rest) => (pieceOf c :: pieces, rest) := by
  by_cases hletter : ∃ d, (c, d) ∈ lettered
  · obtain ⟨d, hd⟩ := hletter
    obtain ⟨hescape, hread⟩ := readString_lettered hd cs
    rw [hescape]
    exact hread
  · have hne : ∀ entry ∈ lettered, c ≠ entry.1 := by
      rintro ⟨e, d⟩ hentry rfl
      exact hletter ⟨d, hentry⟩
    simp only [lettered, List.forall_mem_cons] at hne
    obtain ⟨hquote, hslash, hb, hf, hn, hr, ht, -⟩ := hne
    rw [escapeChar, if_neg hquote, if_neg hslash, if_neg hb, if_neg hf, if_neg hn, if_neg hr,
      if_neg ht]
    split
    · rename_i hlow
      have hpiece : pieceOf c = .code c.toNat := by
        rw [pieceOf, if_pos ⟨hlow, by simp [hb, hf, hn, hr, ht]⟩]
      rw [hpiece]
      exact readString_code hlow cs
    · rename_i hlow
      have hpiece : pieceOf c = .char c := by
        rw [pieceOf, if_neg fun h => hlow h.1]
      rw [hpiece]
      exact readString_plain hquote hslash hlow cs

theorem readString_flatMap (cs rest : List Char) :
    Form.readString (cs.flatMap escapeChar ++ '"' :: rest) = some (cs.map pieceOf, rest) := by
  induction cs with
  | nil =>
    rw [List.flatMap_nil, List.nil_append, Form.readString]
    rfl
  | cons c cs ih =>
    rw [List.flatMap_cons, List.append_assoc, readString_escapeChar, ih]
    rfl

theorem decodePieces_code {n : Nat} (h : n < 0xD800) (pieces : List StringPiece) :
    decodePieces (.code n :: pieces) = (decodePieces pieces).map (Char.ofNat n :: ·) := by
  rw [decodePieces.eq_def]
  dsimp only
  rw [if_neg (by omega), if_neg (by omega)]

theorem decodePieces_map_pieceOf (cs : List Char) : decodePieces (cs.map pieceOf) = some cs := by
  induction cs with
  | nil => rfl
  | cons c cs ih =>
    rw [List.map_cons, pieceOf]
    split
    · rename_i hlow
      rw [decodePieces_code (by omega), ih, Char.ofNat_toNat]
      rfl
    · rw [decodePieces, ih]
      rfl

theorem stringOf?_map_pieceOf (s : String) : stringOf? (s.toList.map pieceOf) = some s := by
  rw [stringOf?, decodePieces_map_pieceOf, Option.map_some, String.ofList_toList]

/-! ### Numbers -/

/-- No number goes on into `rest`. -/
def EndsNumber (rest : List Char) : Prop :=
  ∀ c ∈ rest.head?, c.isDigit = false ∧ c ∉ ['.', 'e', 'E']

theorem readFraction_of_ends (h : EndsNumber rest) :
    Form.readFraction rest = some (none, rest) := by
  rw [Form.readFraction.eq_2]
  rintro cs rfl
  exact (h '.' rfl).2 (by decide)

theorem readExponent_of_ends (h : EndsNumber rest) :
    Form.readExponent rest = some (none, rest) := by
  cases rest with
  | nil => rfl
  | cons c rest =>
    have hc := (h c rfl).2
    simp only [List.mem_cons, List.not_mem_nil, or_false, not_or] at hc
    exact if_neg (by simp [hc])

/-- An integer as it is written. -/
def numeralOf (n : Int) : Numeral :=
  ⟨decide (n < 0), Nat.toDigits 10 n.natAbs, none, none⟩

theorem toList_text_int (n : Int) :
    (JsonNumber.int n).text.toList = (if n < 0 then ['-'] else []) ++ Nat.toDigits 10 n.natAbs := by
  rw [JsonNumber.text, Int.toString_eq_repr, Int.repr_eq_if]
  by_cases h : n < 0
  · rw [if_neg (by omega), if_pos h, String.toList_append, Nat.toList_repr,
      show (-n).toNat = n.natAbs by omega]
    rfl
  · rw [if_pos (by omega), if_neg h, Nat.toList_repr, show n.toNat = n.natAbs by omega]
    rfl

theorem head_toDigits_ne {n : Nat} (h : 0 < n) : (Nat.toDigits 10 n).head? ≠ some '0' := by
  induction n using Nat.strongRecOn with
  | ind n ih =>
    rcases Nat.lt_or_ge n 10 with hlow | hhigh
    · have hall : ∀ n < 10, 0 < n → n.digitChar ≠ '0' := by decide
      rw [Nat.toDigits_of_lt_base hlow]
      simpa using hall n hlow h
    · rw [Nat.toDigits_of_base_le (by decide) hhigh, List.head?_append,
        List.head?_eq_some_head Nat.toDigits_ne_nil, Option.some_or,
        ← List.head?_eq_some_head Nat.toDigits_ne_nil]
      exact ih (n / 10) (by omega) (by omega)

/-- Only zero is written with a zero in front. -/
theorem length_toDigits_of_head {n : Nat} (h : (Nat.toDigits 10 n).head? = some '0') :
    (Nat.toDigits 10 n).length = 1 := by
  rcases Nat.eq_zero_or_pos n with rfl | hpos
  · decide
  · exact absurd h (head_toDigits_ne hpos)

/-- Digits are read as a whole number, with a sign before them or without. -/
theorem readNumeral_digits (negative : Bool) {digits : List Char} (hdigits : Digits digits)
    (hzero : digits.head? = some '0' → digits.length = 1) (h : EndsNumber rest) :
    Form.readNumeral ((if negative then ['-'] else []) ++ (digits ++ rest)) =
      some (⟨negative, digits, none, none⟩, rest) := by
  have hread : Form.readDigits (digits ++ rest) = some (digits, rest) :=
    run?_append hdigits.1 hdigits.2 fun c hc => (h c hc).1
  have hlone : ¬(digits.head? = some '0' ∧ digits.length ≠ 1) :=
    fun hhead => hhead.2 (hzero hhead.1)
  have hbehind : ((Form.readDigits (digits ++ rest)).bind fun whole =>
      if whole.1.head? = some '0' ∧ whole.1.length ≠ 1 then none
      else (Form.readFraction whole.2).bind fun fraction =>
        (Form.readExponent fraction.2).bind fun exponent =>
          some ((⟨negative, whole.1, fraction.1, exponent.1⟩ : Numeral), exponent.2)) =
        some ((⟨negative, digits, none, none⟩ : Numeral), rest) := by
    simp only [hread, Option.bind_some, if_neg hlone, readFraction_of_ends h,
      readExponent_of_ends h]
  cases negative with
  | true => exact hbehind
  | false =>
    obtain ⟨c, cs, rfl⟩ := List.exists_cons_of_ne_nil hdigits.1
    have hc : c ≠ '-' := by
      rintro rfl
      exact absurd (hdigits.2 '-' (by simp)) (by decide)
    change Form.readNumeral (c :: cs ++ rest) = _
    rw [Form.readNumeral]
    · exact hbehind
    · exact fun cs heq => hc (List.cons.inj heq).1

theorem readNumeral_int (n : Int) (h : EndsNumber rest) :
    Form.readNumeral ((JsonNumber.int n).text.toList ++ rest) = some (numeralOf n, rest) := by
  have hsign : (if n < 0 then ['-'] else []) = if decide (n < 0) then ['-'] else [] := by
    simp
  rw [toList_text_int, List.append_assoc, hsign]
  exact readNumeral_digits _ (digits_toDigits n.natAbs) length_toDigits_of_head h

theorem le_ofDigitChars (digits : List Char) (n : Nat) : n ≤ Nat.ofDigitChars 10 digits n := by
  induction digits generalizing n with
  | nil => exact Nat.le_refl n
  | cons d digits ih =>
    rw [Nat.ofDigitChars_cons]
    exact Nat.le_trans (by omega) (ih _)

/-- Digits whose value fits in 64 bits are all gathered. -/
theorem gather_of_lt {digits : List Char} {n : Nat} (h : Nat.ofDigitChars 10 digits n < twoTo 64) :
    gather n digits = (Nat.ofDigitChars 10 digits n, 0) := by
  induction digits generalizing n with
  | nil => rfl
  | cons d digits ih =>
    rw [Nat.ofDigitChars_cons] at h ⊢
    have hnext := Nat.lt_of_le_of_lt (le_ofDigitChars digits _) h
    rw [gather, if_pos hnext, ih h]

/-- An integer of 64 bits, with or without a sign, has its value. -/
theorem value?_numeralOf {n : Int} (hlow : -(twoTo 63 : Int) ≤ n) (hhigh : n < twoTo 64) :
    (numeralOf n).value? = some (.int n) := by
  have htwo : (twoTo 64 : Int) = 2 * twoTo 63 := by decide
  have hvalue : Nat.ofDigitChars 10 (Nat.toDigits 10 n.natAbs) 0 = n.natAbs :=
    Nat.ofDigitChars_toDigits (by decide) (by decide)
  have hgather : gather 0 (Nat.toDigits 10 n.natAbs) = (n.natAbs, 0) := by
    rw [gather_of_lt (by rw [hvalue]; omega), hvalue]
  simp only [Numeral.value?, numeralOf, hgather, and_self, if_true]
  by_cases hneg : n < 0
  · rw [if_neg (by simp [hneg]), if_pos (by omega)]
    congr
    omega
  · rw [if_pos (by simp [hneg])]
    congr
    omega

/-! ### Texts of values -/

theorem toList_quoted (s : String) :
    (quoted s).toList = '"' :: (s.toList.flatMap escapeChar ++ ['"']) := by
  rw [quoted, String.toList_ofList]
  rfl

theorem toList_quoted_append (s : String) (rest : List Char) :
    (quoted s).toList ++ rest = '"' :: (s.toList.flatMap escapeChar ++ '"' :: rest) := by
  rw [toList_quoted, List.cons_append, List.append_assoc, List.singleton_append]

theorem compactItems_eq_map (items : List Json) : compactItems items = items.map compact := by
  induction items with
  | nil => rfl
  | cons item items ih => rw [compactItems, ih, List.map_cons]

theorem compactFields_eq_map (fields : List (String × Json)) :
    compactFields fields = fields.map fun e => quoted e.1 ++ ":" ++ compact e.2 := by
  induction fields with
  | nil => rfl
  | cons field fields ih => rw [compactFields, ih, List.map_cons]

/-- The characters of the items of an array, commas between them. -/
def itemsText (items : List Json) : List Char :=
  [','].intercalate (items.map fun item => (compact item).toList)

/-- The characters of a field of an object. -/
def fieldText (field : String × Json) : List Char :=
  (quoted field.1).toList ++ ':' :: (compact field.2).toList

/-- The characters of the fields of an object, commas between them. -/
def fieldsText (fields : List (String × Json)) : List Char :=
  [','].intercalate (fields.map fieldText)

theorem itemsText_singleton (item : Json) : itemsText [item] = (compact item).toList :=
  List.intercalate_singleton

theorem itemsText_cons_cons (item next : Json) (items : List Json) :
    itemsText (item :: next :: items) = (compact item).toList ++
      ',' :: itemsText (next :: items) := by
  simp only [itemsText, List.map_cons, List.intercalate_cons_cons, List.append_assoc,
    List.singleton_append]

theorem fieldsText_singleton (field : String × Json) : fieldsText [field] = fieldText field :=
  List.intercalate_singleton

theorem fieldsText_cons_cons (field next : String × Json) (fields : List (String × Json)) :
    fieldsText (field :: next :: fields) = fieldText field ++
      ',' :: fieldsText (next :: fields) := by
  simp only [fieldsText, List.map_cons, List.intercalate_cons_cons, List.append_assoc,
    List.singleton_append]

theorem toList_compact_arr (items : List Json) :
    (compact (.arr items)).toList = '[' :: (itemsText items ++ [']']) := by
  rw [compact, String.toList_append, String.toList_append, String.toList_intercalate,
    compactItems_eq_map, List.map_map]
  rfl

theorem toList_compact_obj (fields : List (String × Json)) :
    (compact (.obj fields)).toList = '\x7b' :: (fieldsText fields ++ ['\x7d']) := by
  have hfield : ∀ field : String × Json,
      (quoted field.1 ++ ":" ++ compact field.2).toList = fieldText field := by
    intro field
    rw [String.toList_append, String.toList_append, List.append_assoc]
    rfl
  rw [compact, String.toList_append, String.toList_append, String.toList_intercalate,
    compactFields_eq_map, List.map_map, Function.comp_def]
  simp only [hfield]
  rfl

/-- A value begins with a character that is not white space and closes no array. -/
theorem head_compact (value : Json) :
    ∃ c cs, (compact value).toList = c :: cs ∧ isBlank c = false ∧ c ≠ ']' := by
  cases value with
  | null => exact ⟨'n', "ull".toList, by decide, by decide, by decide⟩
  | bool b => cases b <;> exact ⟨_, _, rfl, by decide, by decide⟩
  | num n =>
    have hnumber := n.numberText
    obtain ⟨c, cs, hcs⟩ := List.exists_cons_of_ne_nil hnumber.ne_nil
    have hnumeric := hnumber.numeric c (by rw [hcs]; exact List.mem_cons_self)
    refine ⟨c, cs, by rw [compact, hcs], (fold_of_isNumeric hnumeric).1, ?_⟩
    rintro rfl
    exact absurd hnumeric (by decide)
  | str s => exact ⟨'"', _, by rw [compact, toList_quoted], by decide, by decide⟩
  | arr items => exact ⟨'[', _, toList_compact_arr items, by decide, by decide⟩
  | obj fields => exact ⟨'\x7b', _, toList_compact_obj fields, by decide, by decide⟩

/-- A value ends with a character that is not white space. -/
theorem last_compact (value : Json) : ∃ c ∈ (compact value).toList.getLast?, isBlank c = false := by
  cases value with
  | null => exact ⟨'l', by decide, by decide⟩
  | bool b => cases b <;> exact ⟨'e', by decide, by decide⟩
  | num n =>
    obtain ⟨c, hc, hdigit⟩ := n.numberText.last
    exact ⟨c, hc, isBlank_of_isWordChar (Idiom.isWordChar_of_isDigit hdigit)⟩
  | str s =>
    refine ⟨'"', ?_, by decide⟩
    rw [compact, toList_quoted, ← List.cons_append, List.getLast?_concat]
    rfl
  | arr items =>
    refine ⟨']', ?_, by decide⟩
    rw [toList_compact_arr, ← List.cons_append, List.getLast?_concat]
    rfl
  | obj fields =>
    refine ⟨'\x7d', ?_, by decide⟩
    rw [toList_compact_obj, ← List.cons_append, List.getLast?_concat]
    rfl

theorem trimmed_compact (value : Json) : Trimmed (compact value).toList where
  head := by
    obtain ⟨c, cs, hcs, hblank, -⟩ := head_compact value
    exact ⟨c, by rw [hcs]; rfl, hblank⟩
  last := last_compact value

/-- The items of an array begin as the first of them does. -/
theorem head_itemsText (item : Json) (items : List Json) :
    ∃ c cs, itemsText (item :: items) = c :: cs ∧ isBlank c = false ∧ c ≠ ']' := by
  obtain ⟨c, cs, hcs, hc⟩ := head_compact item
  cases items with
  | nil => exact ⟨c, cs, by rw [itemsText_singleton, hcs], hc⟩
  | cons next items =>
    exact ⟨c, _, by rw [itemsText_cons_cons, hcs, List.cons_append], hc⟩

theorem head_fieldsText (field : String × Json) (fields : List (String × Json)) :
    ∃ cs, fieldsText (field :: fields) = '"' :: cs := by
  cases fields with
  | nil => exact ⟨_, by rw [fieldsText_singleton, fieldText, toList_quoted_append]⟩
  | cons next fields =>
    exact ⟨_, by rw [fieldsText_cons_cons, fieldText, toList_quoted_append, List.cons_append]⟩

/-! ### Values -/

theorem isBlank_of_isSpace {c : Char} (h : Form.isSpace c = true) : isBlank c = true := by
  have hall : ∀ d ∈ [' ', '\n', '\t', '\r'], isBlank d = true := by decide
  exact hall c (by simpa [Form.isSpace, or_assoc] using h)

theorem skip_of_head {cs : List Char} (h : ∃ c ∈ cs.head?, isBlank c = false) :
    Form.skip cs = cs := by
  obtain ⟨c, hc, hblank⟩ := h
  obtain ⟨cs, rfl⟩ := List.head?_eq_some_iff.1 hc
  rw [Form.skip, List.dropWhile_cons_of_neg]
  intro hspace
  rw [isBlank_of_isSpace hspace] at hblank
  contradiction

/-- A value that reads back at `depth` levels from the deepest allowed: its numbers are integers of
64 bits, the fields of its objects are in the order of their names, and it nests no deeper. -/
inductive Plain : Nat → Json → Prop
  | null {depth : Nat} : Plain depth .null
  | bool {depth : Nat} (b : Bool) : Plain depth (.bool b)
  | int {depth : Nat} {n : Int} (hlow : -(twoTo 63 : Int) ≤ n) (hhigh : n < twoTo 64) :
    Plain depth (.num (.int n))
  | str {depth : Nat} (s : String) : Plain depth (.str s)
  | arr {depth : Nat} {items : List Json} (h : ∀ item ∈ items, Plain depth item) :
    Plain (depth + 1) (.arr items)
  | obj {depth : Nat} {fields : List (String × Json)} (hsorted : fields.Pairwise (·.1 < ·.1))
    (h : ∀ field ∈ fields, Plain depth field.2) : Plain (depth + 1) (.obj fields)

/-- The text of a value is read as `form` wherever it ends there, and `form` has the value. -/
structure ReadsBack (depth : Nat) (value : Json) (form : Form) : Prop where
  read : ∀ {fuel : Nat} {rest : List Char}, (compact value).toList.length ≤ fuel →
    EndsNumber rest → Form.readValue fuel ((compact value).toList ++ rest) = some (form, rest)
  value : valueWithin depth form = some value

/-- The text of a value is not empty, so there is fuel to read it with. -/
theorem ReadsBack.of_succ
    (hread : ∀ fuel rest, (compact value).toList.length ≤ fuel + 1 → EndsNumber rest →
      Form.readValue (fuel + 1) ((compact value).toList ++ rest) = some (form, rest))
    (hvalue : valueWithin depth form = some value) : ReadsBack depth value form where
  read := by
    intro fuel rest hfuel hrest
    have hpos : 0 < (compact value).toList.length :=
      List.length_pos_iff.2 (trimmed_compact value).ne_nil
    obtain ⟨fuel, rfl⟩ := Nat.exists_eq_succ_of_ne_zero (Nat.ne_zero_of_lt (hpos.trans_le hfuel))
    exact hread fuel rest hfuel hrest
  value := hvalue

theorem readsBack_str (depth : Nat) (s : String) :
    ReadsBack depth (.str s) (.string (s.toList.map pieceOf)) := by
  refine .of_succ (fun fuel rest _ _ => ?_) ?_
  · have hstep : ∀ cs, Form.readValue (fuel + 1) ('"' :: cs) =
        (Form.readString cs).map fun (pieces, rest) => (Form.string pieces, rest) := fun cs => rfl
    rw [compact, toList_quoted_append, hstep, readString_flatMap]
    rfl
  · rw [valueWithin, stringOf?_map_pieceOf]
    rfl

/-- A text that begins as a number does is read as one. -/
theorem readValue_of_numeral {c : Char} (hc : c = '-' ∨ c.isDigit = true) (fuel : Nat)
    (cs : List Char) :
    Form.readValue (fuel + 1) (c :: cs) =
      (Form.readNumeral (c :: cs)).map fun (n, rest) => (.number n, rest) := by
  have hblank : isBlank c = false := by
    rcases hc with rfl | hdigit
    · decide
    · exact isBlank_of_isWordChar (Idiom.isWordChar_of_isDigit hdigit)
  have hother : ∀ d ∈ ['n', 't', 'f', '"', '[', '\x7b'], c ≠ d := by
    have hall : ∀ d ∈ ['n', 't', 'f', '"', '[', '\x7b'], ¬(d = '-' ∨ d.isDigit = true) := by decide
    rintro d hd rfl
    exact hall c hd hc
  rw [Form.readValue, skip_of_head ⟨c, rfl, hblank⟩]
  split
  all_goals first
    | rfl
    | rename_i heq
      exact absurd (List.cons.inj heq).1 (hother _ (by decide))

theorem readsBack_int (depth : Nat) {n : Int} (hlow : -(twoTo 63 : Int) ≤ n)
    (hhigh : n < twoTo 64) :
    ReadsBack depth (.num (.int n)) (.number (numeralOf n)) := by
  refine .of_succ (fun fuel rest _ hrest => ?_) ?_
  · have hhead : ∃ c cs, (JsonNumber.int n).text.toList ++ rest = c :: cs ∧
        (c = '-' ∨ c.isDigit = true) := by
      rw [toList_text_int]
      split
      · exact ⟨'-', _, rfl, .inl rfl⟩
      · obtain ⟨c, cs, hcs⟩ := List.exists_cons_of_ne_nil (digits_toDigits n.natAbs).1
        refine ⟨c, cs ++ rest, by rw [hcs]; rfl, .inr ((digits_toDigits n.natAbs).2 c ?_)⟩
        rw [hcs]
        exact List.mem_cons_self
    obtain ⟨c, cs, hcs, hc⟩ := hhead
    have hread := readNumeral_int n hrest
    rw [hcs] at hread
    rw [compact, hcs, readValue_of_numeral hc, hread]
    rfl
  · rw [valueWithin, value?_numeralOf hlow hhigh]
    rfl

/-! ### Items and fields -/

theorem endsNumber_cons {c : Char} (hc : c ∈ [',', ']', '\x7d']) (cs : List Char) :
    EndsNumber (c :: cs) := by
  have hall : ∀ d ∈ [',', ']', '\x7d'], d.isDigit = false ∧ d ∉ ['.', 'e', 'E'] := by decide
  rintro d ⟨⟩
  exact hall c hc

theorem readItems_read {item : Json} (h : ReadsBack depth item form)
    (hfuel : (compact item).toList.length ≤ fuel) (hrest : EndsNumber rest) :
    Form.readItems (fuel + 1) ((compact item).toList ++ rest) =
      match Form.skip rest with
      | ',' :: cs => (Form.readItems fuel cs).bind fun (items, rest) => some (form :: items, rest)
      | ']' :: rest => some ([form], rest)
      | _ => none := by
  rw [Form.readItems, h.read hfuel hrest]
  rfl

theorem readItems_last {item : Json} (h : ReadsBack depth item form)
    (hfuel : (compact item).toList.length ≤ fuel) (rest : List Char) :
    Form.readItems (fuel + 1) ((compact item).toList ++ ']' :: rest) = some ([form], rest) := by
  rw [readItems_read h hfuel (endsNumber_cons (by decide) rest)]
  rfl

theorem readItems_next {item : Json} (h : ReadsBack depth item form)
    (hfuel : (compact item).toList.length ≤ fuel) {cs : List Char} {forms : List Form}
    (hnext : Form.readItems fuel cs = some (forms, rest)) :
    Form.readItems (fuel + 1) ((compact item).toList ++ ',' :: cs) =
      some (form :: forms, rest) := by
  rw [readItems_read h hfuel (endsNumber_cons (by decide) cs)]
  exact congrArg (Option.bind · _) hnext

/-- The name of a field and its value are read, whatever closes or follows the field. -/
theorem readFields_read {field : String × Json} (h : ReadsBack depth field.2 form)
    (hfuel : (compact field.2).toList.length ≤ fuel) (hrest : EndsNumber rest) :
    Form.readFields (fuel + 1) (fieldText field ++ rest) =
      match Form.skip rest with
      | ',' :: cs => (Form.readFields fuel cs).bind fun (fields, rest) =>
        some ((field.1.toList.map pieceOf, form) :: fields, rest)
      | '\x7d' :: rest => some ([(field.1.toList.map pieceOf, form)], rest)
      | _ => none := by
  have hname : ∀ text, Form.readFields (fuel + 1) ('"' :: text) =
      (Form.readString text).bind fun name => (char? ':' (Form.skip name.2)).bind fun cs =>
        (Form.readValue fuel cs).bind fun value =>
          match Form.skip value.2 with
          | ',' :: cs => (Form.readFields fuel cs).bind fun (fields, rest) =>
            some ((name.1, value.1) :: fields, rest)
          | '\x7d' :: rest => some ([(name.1, value.1)], rest)
          | _ => none := fun text => rfl
  have hcolon : ∀ cs, char? ':' (Form.skip (':' :: cs)) = some cs := fun cs => rfl
  rw [fieldText, List.append_assoc, toList_quoted_append, hname, readString_flatMap,
    Option.bind_some, List.cons_append, hcolon, Option.bind_some, h.read hfuel hrest,
    Option.bind_some]

theorem readFields_last {field : String × Json} (h : ReadsBack depth field.2 form)
    (hfuel : (compact field.2).toList.length ≤ fuel) (rest : List Char) :
    Form.readFields (fuel + 1) (fieldText field ++ '\x7d' :: rest) =
      some ([(field.1.toList.map pieceOf, form)], rest) := by
  rw [readFields_read h hfuel (endsNumber_cons (by decide) rest)]
  rfl

theorem readFields_next {field : String × Json} (h : ReadsBack depth field.2 form)
    (hfuel : (compact field.2).toList.length ≤ fuel) {cs : List Char}
    {forms : List (List StringPiece × Form)}
    (hnext : Form.readFields fuel cs = some (forms, rest)) :
    Form.readFields (fuel + 1) (fieldText field ++ ',' :: cs) =
      some ((field.1.toList.map pieceOf, form) :: forms, rest) := by
  rw [readFields_read h hfuel (endsNumber_cons (by decide) cs)]
  exact congrArg (Option.bind · _) hnext

/-- The items of an array are read back if each of them is. -/
theorem exists_forms {items : List Json} (hne : items ≠ [])
    (h : ∀ item ∈ items, ∃ form, ReadsBack depth item form) :
    ∃ forms, itemsWithin depth forms = some items ∧
      ∀ {fuel : Nat} {rest : List Char}, (itemsText items).length < fuel →
        Form.readItems fuel (itemsText items ++ ']' :: rest) = some (forms, rest) := by
  induction items with
  | nil => contradiction
  | cons item items ih =>
    obtain ⟨form, hform⟩ := h item List.mem_cons_self
    cases items with
    | nil =>
      refine ⟨[form], by rw [itemsWithin, hform.value]; rfl, ?_⟩
      intro fuel rest hfuel
      obtain ⟨fuel, rfl⟩ := Nat.exists_eq_succ_of_ne_zero (Nat.ne_zero_of_lt hfuel)
      rw [itemsText_singleton] at hfuel ⊢
      exact readItems_last hform (by omega) rest
    | cons next items =>
      obtain ⟨forms, hvalues, hread⟩ :=
        ih (List.cons_ne_nil next items) fun item hitem => h item (List.mem_cons_of_mem _ hitem)
      refine ⟨form :: forms, by rw [itemsWithin, hform.value, hvalues]; rfl, ?_⟩
      intro fuel rest hfuel
      obtain ⟨fuel, rfl⟩ := Nat.exists_eq_succ_of_ne_zero (Nat.ne_zero_of_lt hfuel)
      rw [itemsText_cons_cons, List.length_append, List.length_cons] at hfuel
      rw [itemsText_cons_cons, List.append_assoc, List.cons_append]
      exact readItems_next hform (by omega) (hread (by omega))

theorem putEntry_of_lt {α : Type} {key : String} {entries : List (String × α)}
    (h : ∀ e ∈ entries, e.1 < key) (value : α) :
    putEntry key value entries = entries ++ [(key, value)] := by
  induction entries with
  | nil => rfl
  | cons e entries ih =>
    have he := h e List.mem_cons_self
    rw [putEntry, if_neg (String.lt_asymm he), if_neg (String.ne_of_lt he).symm,
      ih fun e he => h e (List.mem_cons_of_mem _ he), List.cons_append]

/-- A field whose name comes behind those of all entries is put at their end. -/
theorem fieldsWithin_cons {field : String × Json} {entries fields : List (String × Json)}
    (h : ReadsBack depth field.2 form) (hsorted : (entries ++ field :: fields).Pairwise (·.1 < ·.1))
    (forms : List (List StringPiece × Form)) :
    fieldsWithin depth entries ((field.1.toList.map pieceOf, form) :: forms) =
      fieldsWithin depth (entries ++ [field]) forms := by
  have hput : putEntry field.1 field.2 entries = entries ++ [field] :=
    putEntry_of_lt (fun e he => (List.pairwise_append.1 hsorted).2.2 e he field List.mem_cons_self)
      _
  rw [fieldsWithin, stringOf?_map_pieceOf, h.value, ← hput]
  rfl

/-- The fields of an object are read back if their values are, in the order that they have. -/
theorem exists_fieldForms {fields : List (String × Json)} (hne : fields ≠ [])
    (h : ∀ field ∈ fields, ∃ form, ReadsBack depth field.2 form) :
    ∃ forms, (∀ entries : List (String × Json), (entries ++ fields).Pairwise (·.1 < ·.1) →
        fieldsWithin depth entries forms = some (entries ++ fields)) ∧
      ∀ {fuel : Nat} {rest : List Char}, (fieldsText fields).length < fuel →
        Form.readFields fuel (fieldsText fields ++ '\x7d' :: rest) = some (forms, rest) := by
  induction fields with
  | nil => contradiction
  | cons field fields ih =>
    obtain ⟨form, hform⟩ := h field List.mem_cons_self
    have hlength : (compact field.2).toList.length < (fieldText field).length := by
      rw [fieldText, List.length_append, List.length_cons]
      omega
    cases fields with
    | nil =>
      refine ⟨[(field.1.toList.map pieceOf, form)],
        fun entries hsorted => fieldsWithin_cons hform hsorted [], ?_⟩
      intro fuel rest hfuel
      obtain ⟨fuel, rfl⟩ := Nat.exists_eq_succ_of_ne_zero (Nat.ne_zero_of_lt hfuel)
      rw [fieldsText_singleton] at hfuel ⊢
      exact readFields_last hform (by omega) rest
    | cons next fields =>
      obtain ⟨forms, hvalues, hread⟩ :=
        ih (List.cons_ne_nil next fields) fun field hfield =>
          h field (List.mem_cons_of_mem _ hfield)
      refine ⟨(field.1.toList.map pieceOf, form) :: forms, ?_, ?_⟩
      · intro entries hsorted
        have hassoc : entries ++ field :: next :: fields =
            entries ++ [field] ++ next :: fields := by
          simp
        rw [fieldsWithin_cons hform hsorted, hassoc]
        exact hvalues _ (hassoc ▸ hsorted)
      · intro fuel rest hfuel
        obtain ⟨fuel, rfl⟩ := Nat.exists_eq_succ_of_ne_zero (Nat.ne_zero_of_lt hfuel)
        rw [fieldsText_cons_cons, List.length_append, List.length_cons] at hfuel
        rw [fieldsText_cons_cons, List.append_assoc, List.cons_append]
        exact readFields_next hform (by omega) (hread (by omega))

theorem readValue_bracket {c : Char} (hblank : isBlank c = false) (hc : c ≠ ']') (fuel : Nat)
    (cs : List Char) :
    Form.readValue (fuel + 1) ('[' :: c :: cs) =
      (Form.readItems fuel (c :: cs)).map fun (items, rest) => (.array items, rest) := by
  have hbracket : Form.skip ('[' :: c :: cs) = '[' :: c :: cs := rfl
  rw [Form.readValue, hbracket]
  -- What begins with a bracket is read by the branch for brackets, the fifth.
  split
  case h_5 text heq =>
    obtain rfl := (List.cons.inj heq).2
    rw [skip_of_head ⟨c, rfl, hblank⟩]
    split
    · rename_i hclose
      exact absurd (List.cons.inj hclose).1 hc
    · rfl
  case h_7 hother _ => exact absurd rfl (hother _)
  all_goals
    rename_i heq
    exact absurd (List.cons.inj heq).1 (by decide)

/-! ### Reading back -/

theorem exists_readsBack_arr {items : List Json}
    (h : ∀ item ∈ items, ∃ form, ReadsBack depth item form) :
    ∃ form, ReadsBack (depth + 1) (.arr items) form := by
  cases items with
  | nil => exact ⟨.array [], .of_succ (fun fuel rest _ _ => rfl) rfl⟩
  | cons item items =>
    obtain ⟨forms, hvalues, hread⟩ := exists_forms (List.cons_ne_nil item items) h
    refine ⟨.array forms, .of_succ (fun fuel rest hfuel _ => ?_) ?_⟩
    · rw [toList_compact_arr, List.length_cons, List.length_append, List.length_singleton] at hfuel
      obtain ⟨c, cs, hcs, hblank, hc⟩ := head_itemsText item items
      have hitems := @hread fuel rest (by omega)
      rw [hcs, List.cons_append] at hitems
      rw [toList_compact_arr, List.cons_append, List.append_assoc, List.singleton_append, hcs,
        List.cons_append, readValue_bracket hblank hc, hitems]
      rfl
    · rw [valueWithin, if_neg (Nat.succ_ne_zero depth), Nat.add_sub_cancel, hvalues]
      rfl

theorem exists_readsBack_obj {fields : List (String × Json)} (hsorted : fields.Pairwise (·.1 < ·.1))
    (h : ∀ field ∈ fields, ∃ form, ReadsBack depth field.2 form) :
    ∃ form, ReadsBack (depth + 1) (.obj fields) form := by
  cases fields with
  | nil => exact ⟨.object [], .of_succ (fun fuel rest _ _ => rfl) rfl⟩
  | cons field fields =>
    obtain ⟨forms, hvalues, hread⟩ := exists_fieldForms (List.cons_ne_nil field fields) h
    refine ⟨.object forms, .of_succ (fun fuel rest hfuel _ => ?_) ?_⟩
    · rw [toList_compact_obj, List.length_cons, List.length_append, List.length_singleton] at hfuel
      obtain ⟨cs, hcs⟩ := head_fieldsText field fields
      have hfields := @hread fuel rest (by omega)
      have hstep : ∀ cs, Form.readValue (fuel + 1) ('\x7b' :: '"' :: cs) =
          (Form.readFields fuel ('"' :: cs)).map fun (fields, rest) => (.object fields, rest) :=
        fun cs => rfl
      rw [hcs, List.cons_append] at hfields
      rw [toList_compact_obj, List.cons_append, List.append_assoc, List.singleton_append, hcs,
        List.cons_append, hstep, hfields]
      rfl
    · rw [valueWithin, if_neg (Nat.succ_ne_zero depth), Nat.add_sub_cancel, hvalues [] hsorted]
      rfl

/-- The text of a plain value is read as a form that has this value. -/
theorem exists_readsBack (h : Plain depth value) : ∃ form, ReadsBack depth value form := by
  induction h with
  | null => exact ⟨.null, .of_succ (fun fuel rest _ _ => rfl) rfl⟩
  | bool b => cases b <;> exact ⟨.bool _, .of_succ (fun fuel rest _ _ => rfl) rfl⟩
  | int hlow hhigh => exact ⟨_, readsBack_int _ hlow hhigh⟩
  | str s => exact ⟨_, readsBack_str _ s⟩
  | arr _ ih => exact exists_readsBack_arr ih
  | obj hsorted _ ih => exact exists_readsBack_obj hsorted ih

/-- A plain value is read from its text without white space. -/
theorem parse?_compact (h : Plain maxDepth value) : parse? (compact value) = some value := by
  obtain ⟨form, hform⟩ := exists_readsBack h
  have hread : Form.readValue ((compact value).toList.length + 1) ((compact value).toList ++ []) =
      some (form, []) := hform.read (Nat.le_succ _) nofun
  rw [List.append_nil] at hread
  rw [parse?, Form.parse?, Option.bind_eq_bind]
  dsimp only
  rw [hread]
  exact hform.value

end AskSql.Json
