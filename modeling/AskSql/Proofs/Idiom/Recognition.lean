import AskSql.Proofs.Idiom.Spelling

/-! Every form of an operation is recognised as that operation, on the same argument and with the
right clock. -/

namespace AskSql.Idiom

open Text Sql

/-- An operation on the text `arg`, whose result has `clock`. -/
def Operation.idiom (clock : Clock) (arg : List Char) : Operation → Idiom
  | .extract part => .extract part arg
  | .truncate part => .truncate part arg
  | .shift s => .shift s.unit s.amount arg clock

/-! ### Names, numbers and modifiers -/

theorem dropWhile_quote_append {cs : List Char} (hne : cs ≠ []) (h : ∀ c ∈ cs, isWordChar c = true)
    (rest : List Char) : (cs ++ rest).dropWhile (· == '\'') = cs ++ rest := by
  obtain ⟨c, cs, rfl⟩ := List.exists_cons_of_ne_nil hne
  simp [beq_quote_of_isWordChar (h c (by simp))]

/-- A word is looked up in small letters. -/
theorem unitKey_of_isWordChar {word : List Char} (hne : word ≠ [])
    (h : ∀ c ∈ word, isWordChar c = true) : unitKey word = String.ofList (lowerAscii word) := by
  have htrim : Trimmed word := trimmed_of_forall hne fun c hc => isBlank_of_isWordChar (h c hc)
  have hfront := dropWhile_quote_append hne h []
  have hback := dropWhile_quote_append (List.reverse_ne_nil_iff.2 hne) (by simpa using h) []
  rw [List.append_nil] at hfront hback
  rw [unitKey, htrim.trim_eq, hfront, hback, List.reverse_reverse]

/-- A word is looked up in small letters, in single quotes or not. -/
theorem unitKey_word {word text : List Char} (h : IsWord word)
    (htext : text = word ∨ text = quoted word) :
    unitKey text = String.ofList (lowerAscii word) := by
  rcases htext with rfl | rfl
  · exact unitKey_of_isWordChar h.ne_nil h.isWordChar
  · have hfront : (quoted word).dropWhile (· == '\'') = word ++ ['\''] := by
      simpa [quoted] using dropWhile_quote_append h.ne_nil h.isWordChar ['\'']
    have hlast : (word ++ ['\'']).reverse.dropWhile (· == '\'') = word.reverse := by
      simpa using dropWhile_quote_append (List.reverse_ne_nil_iff.2 h.ne_nil)
        (by simpa using h.isWordChar) []
    rw [unitKey, (trimmed_quoted word).trim_eq, hfront, hlast, List.reverse_reverse]

theorem ofText?_keyword {word : List Char} {part : DatePart}
    (h : lowerAscii word = part.keyword.toList) : DatePart.ofText? word = some part := by
  rw [DatePart.ofText?, unitKey_word (letters_of_keyword h) (.inl rfl), h, String.ofList_toList]
  cases part <;> decide

/-- The time value begins with a quote. -/
theorem isNowLiteral_of_head {text : List Char} (h : ∃ c ∈ text.head?, isWordChar c = true) :
    isNowLiteral text = false := by
  obtain ⟨c, hc, hword⟩ := h
  cases hnow : isNowLiteral text with
  | false => rfl
  | true =>
    have hstart : trimStart text = text := trimStart_of_head ⟨c, hc, isBlank_of_isWordChar hword⟩
    rw [isNowLiteral, trim, hstart, sameAscii, beq_iff_eq] at hnow
    obtain ⟨back, hback⟩ := trimEnd_isPrefix text
    cases hend : trimEnd text with
    | nil => simp [hend] at hnow
    | cons d front =>
      rw [hend, List.map_cons] at hnow
      have hd : d.toLower = '\'' := (List.cons.inj hnow).1
      obtain rfl : d = c := by
        rw [← hback, hend] at hc
        simpa using hc
      rcases toLower_eq_or_isAlpha d with heq | halpha
      · rw [heq] at hd
        rw [hd] at hword
        exact absurd hword (by decide)
      · rw [← isAlpha_toLower, hd] at halpha
        exact absurd halpha (by decide)

theorem int64?_eq_none_of_mem {text : List Char} (h : '(' ∈ text) :
    int64? (text.filter (· ≠ ' ')) = none := by
  cases hn : int64? (text.filter (· ≠ ' ')) with
  | none => rfl
  | some n =>
    have hmem : '(' ∈ text.filter (· ≠ ' ') := List.mem_filter.2 ⟨h, by decide⟩
    rcases (isNumber_of_int64? hn).chars _ hmem with hc | hc | hc <;> exact absurd hc (by decide)

/-- A modifier has a digit, which a period to start does not. -/
theorem QuotedBoth.lowerAscii_ne {number word text : List Char} (h : QuotedBoth number word text)
    (hnumber : IsNumber number) {key : String} (hkey : ∀ c ∈ key.toList, c.isDigit = false) :
    String.ofList (lowerAscii text) ≠ key := by
  obtain ⟨left, gap, right, -, -, -, -⟩ := h
  obtain ⟨sign, digits, rfl, -, hne, hdigits⟩ := hnumber.split
  obtain ⟨c, digits, rfl⟩ := List.exists_cons_of_ne_nil hne
  have hc := hdigits c (by simp)
  rintro rfl
  have hmem : c ∈ lowerAscii (quoted (left ++ (sign ++ c :: digits) ++ gap ++ word ++ right)) := by
    rw [lowerAscii, List.mem_map]
    exact ⟨c, by simp [quoted], toLower_of_isDigit hc⟩
  have hdigit := hkey c (by rw [String.toList_ofList]; exact hmem)
  simp [hc] at hdigit

/-! ### Forms that share a function -/

theorem beforeKeyword?_prefix {word : String} {text front : List Char}
    (h : beforeKeyword? word text = some front) : front <+: text := by
  simp only [beforeKeyword?, Option.bind_eq_bind, Option.bind_eq_some_iff] at h
  obtain ⟨middle, hmiddle, cs, hcs, hfront⟩ := h
  obtain rfl : cs.reverse = front := by simpa using hfront
  have hblank : cs <:+ middle := by
    cases middle with
    | nil => simp [blanks?] at hcs
    | cons c middle =>
      rw [blanks?] at hcs
      split at hcs
      · obtain rfl : trimStart middle = cs := by simpa using hcs
        exact (List.dropWhile_suffix _).trans (List.suffix_cons c middle)
      · simp at hcs
  have hsuffix := hblank.trans (keywordChars?_suffix hmiddle)
  rw [← List.reverse_prefix] at hsuffix
  simpa using hsuffix

theorem callParts_eq_none {text : List Char}
    (h : ∀ c ∈ text.head?, isBlank c = false ∧ isNameStart c = false) : callParts text = none := by
  cases text with
  | nil => rfl
  | cons c text =>
    obtain ⟨hblank, hstart⟩ := h c (by simp)
    have hhead : trimStart (c :: text) = c :: text := trimStart_of_head ⟨c, by simp, hblank⟩
    obtain ⟨back, hback⟩ := trimEnd_isPrefix (c :: text)
    rw [callParts, trim, hhead]
    cases hend : trimEnd (c :: text) with
    | nil => rfl
    | cons d front =>
      obtain rfl : d = c := by
        rw [hend] at hback
        exact (List.cons.inj hback).1
      simp [hstart]

/-- An interval with a number is not the one back to a Monday. -/
theorem IntervalOf.weekdayInterval?_eq_none {number word interval : List Char}
    (h : IntervalOf number word interval) (hnumber : IsNumber number) (hword : IsWord word)
    (base : List Char) : weekdayInterval? base interval = none := by
  have htrim := (h.trimmed hword).trim_eq
  obtain ⟨hkeyword, gap, hgap, hne, hbody⟩ := h
  rename_i keyword body
  obtain ⟨c, hc, hblank, hstart⟩ := hbody.head hnumber
  have hparts : ∀ cs, beforeKeyword? "day" body = some cs → callParts cs = none := by
    intro cs hcs
    obtain ⟨back, hback⟩ := beforeKeyword?_prefix hcs
    refine callParts_eq_none fun d hd => ?_
    rw [← hback, List.head?_append, Option.mem_def.1 hd] at hc
    obtain rfl : d = c := by simpa using hc
    exact ⟨hblank, hstart⟩
  have hblanks : blanks? (gap ++ body) = some body := by
    rw [blanks?_append hne hgap, trimStart_of_head ⟨c, hc, hblank⟩]
  rw [weekdayInterval?, htrim, List.append_assoc, keyword?_append hkeyword]
  cases hb : callParts base with
  | none => rfl
  | some parts =>
    cases hday : beforeKeyword? "day" body with
    | none =>
      simp only [Option.bind_eq_bind, Option.bind_some, Option.bind_none, hblanks, hday, ite_self]
    | some cs =>
      simp only [Option.bind_eq_bind, Option.bind_some, Option.bind_none, hblanks, hday,
        hparts cs hday, ite_self]

theorem partFrom?_eq {part : DatePart} {word fromWord gap gap' arg : List Char}
    (hpart : lowerAscii word = part.keyword.toList) (hfrom : Keyword "from" fromWord)
    (hgap : blank gap = true) (hne : gap ≠ []) (hgap' : blank gap' = true) (hne' : gap' ≠ [])
    (harg : Trimmed arg) :
    partFrom? (word ++ gap ++ fromWord ++ gap' ++ arg) = some (part, arg) := by
  have hword := letters_of_keyword hpart
  have hsplit : word ++ gap ++ fromWord ++ gap' ++ arg =
      word ++ (gap ++ (fromWord ++ (gap' ++ arg))) := by simp
  have htake := @word_append _ (gap ++ (fromWord ++ (gap' ++ arg))) hword.isWordChar (by
    intro c hc
    obtain ⟨d, gap, rfl⟩ := List.exists_cons_of_ne_nil hne
    obtain rfl : d = c := by simpa using hc
    exact isWordChar_of_isBlank (List.all_eq_true.1 hgap d (by simp)))
  have hstart : trimStart (fromWord ++ (gap' ++ arg)) = fromWord ++ (gap' ++ arg) := by
    obtain ⟨c, hc, hb⟩ := (hfrom.trimmed (by decide) (by decide)).head
    exact trimStart_of_head ⟨c, by simp [List.head?_append, Option.mem_def.1 hc], hb⟩
  have harg' : arg.isEmpty = false := by simp [harg.ne_nil]
  rw [hsplit]
  simp only [partFrom?, htake, ofText?_keyword hpart, hpart, blanks?_append hne hgap, hstart,
    keyword?_append hfrom, blanks?_append hne' hgap', trimStart_of_head harg.head, harg.trim_eq,
    harg', Option.bind_eq_bind, Option.bind_some, if_true]
  rfl

theorem lowerAscii_quoted (text : List Char) :
    lowerAscii (quoted text) = quoted (lowerAscii text) := by
  rw [lowerAscii, quoted, List.map_append, List.map_cons]
  rfl

theorem dateCall?_startOf {part : DatePart} {start : List Char} (hweek : part ≠ .week)
    (h : lowerAscii start = "start of ".toList ++ part.keyword.toList) (arg : List Char) :
    dateCall? .date [arg, quoted start] = some (.truncate part arg) := by
  rw [dateCall?, lowerAscii_quoted, h]
  cases part with
  | year => rfl
  | month => rfl
  | day => rfl
  | week => contradiction

theorem dateCall?_monday {sunday back : List Char}
    (hsunday : lowerAscii sunday = "weekday 0".toList)
    (hback : lowerAscii back = "-6 days".toList) (arg : List Char) :
    dateCall? .date [arg, quoted sunday, quoted back] = some (.truncate .week arg) := by
  have hs : sameAscii (quoted sunday) "'weekday 0'".toList = true := by
    rw [sameAscii, ← lowerAscii, lowerAscii_quoted, hsunday]
    decide
  have hb : sameAscii (quoted back) "'-6 days'".toList = true := by
    rw [sameAscii, ← lowerAscii, lowerAscii_quoted, hback]
    decide
  simp only [dateCall?, hs, hb, and_self, if_true]

/-- The keyword of a clock. -/
def clockWord : Clock → List Char
  | .date => "CURRENT_DATE".toList
  | .now => "CURRENT_TIMESTAMP".toList

/-- A base with a modifier is shifted by what the modifier reads, if that can be read.  The time
value `'now'` stands for a clock. -/
theorem dateCall?_quotedBoth {number word modifier : List Char}
    (h : QuotedBoth number word modifier)
    (hnumber : IsNumber number) (hword : IsWord word) (clock : Clock) (base : List Char) :
    dateCall? clock [base, modifier] = (ScannedInterval.value? ⟨number, word, []⟩).map fun value =>
      .shift value.2 value.1 (if isNowLiteral base then clockWord clock else base) clock := by
  have hyear := @QuotedBoth.lowerAscii_ne _ _ _ h hnumber "'start of year'" (by decide)
  have hmonth := @QuotedBoth.lowerAscii_ne _ _ _ h hnumber "'start of month'" (by decide)
  have hday := @QuotedBoth.lowerAscii_ne _ _ _ h hnumber "'start of day'" (by decide)
  simp only [dateCall?, if_neg hyear, if_neg hmonth, if_neg hday, h.modifier?_eq hnumber hword]
  cases ScannedInterval.value? ⟨number, word, []⟩ with
  | none => rfl
  | some value => cases clock <;> rfl

theorem dateCall?_modifier {amount : Int} {unit : TimeUnit} {modifier : List Char}
    (h : Modifier amount unit modifier) (clock : Clock) (base : List Char) :
    dateCall? clock [base, modifier] =
      some (.shift unit amount (if isNowLiteral base then clockWord clock else base) clock) := by
  obtain ⟨number, word, hq, hboth⟩ := h.quotedBoth
  rw [dateCall?_quotedBoth hboth hq.isNumber hq.isWord, hq.value?_eq]
  rfl

/-- Only an offset that begins with a minus leads to a Monday. -/
theorem alignedWeek?_eq_none (unit base : List Char) {offset : List Char}
    (h : ∃ c ∈ offset.head?, isWordChar c = true) : alignedWeek? unit offset base = none := by
  obtain ⟨c, hc, hword⟩ := h
  have hstart : trimStart offset = offset :=
    trimStart_of_head ⟨c, hc, isBlank_of_isWordChar hword⟩
  have hminus : char? '-' (trim offset) = none := char?_eq_none fun hm => by
    obtain ⟨back, hback⟩ := trimEnd_isPrefix offset
    rw [trim, hstart] at hm
    rw [← hback, List.head?_append, hm] at hc
    obtain rfl : '-' = c := by simpa using hc
    exact absurd hword (by decide)
  have hnone : weekdayOffset? (trim offset) = none := by
    simp only [weekdayOffset?, hminus, Option.bind_eq_bind, Option.bind_none]
  cases hu : TimeUnit.ofText? unit with
  | none => simp only [alignedWeek?, hu, Option.bind_eq_bind, Option.bind_none]
  | some unit =>
    simp only [alignedWeek?, hu, hnone, Option.bind_eq_bind, Option.bind_some, Option.bind_none,
      ite_self]

theorem flooredDate?_eq {part : DatePart} {name inner diff difference arg : List Char}
    (h : Reads DatePart.ofText? part name) (hinner : Reads DatePart.ofText? part inner)
    (hdiff : sameAscii diff "DATEDIFF".toList = true)
    (hcall : Written diff [inner, ['0'], arg] difference) (harg : Clean arg) :
    flooredDate? name difference ['0'] = some (.truncate part arg) := by
  have hzero : IsArg ['0'] := ⟨by decide, by decide⟩
  obtain ⟨body, hcall, hsplit, -⟩ := hcall.isCall (isName_of_sameAscii hdiff (by decide))
    (by simpa using ⟨hinner.isArg, hzero, harg.isArg⟩) (by simp)
  have htrim : trim ['0'] = ['0'] := rfl
  simp only [flooredDate?, h.value, htrim, hcall.callParts_eq, hdiff, hsplit, hinner.value,
    Option.bind_eq_bind, Option.bind_some, ne_eq, not_true_eq_false, if_false, Bool.not_true,
    Bool.false_eq_true, and_self, if_true]

theorem alignedWeek?_eq {day offset cast body base arg : List Char}
    (hday : Reads TimeUnit.ofText? .day day) (hoffset : Offset arg offset)
    (hcast : DateFunction.ofName? cast = some .cast) (hbody : CastBody arg body)
    (hbase : Written cast [body] base) (harg : Clean arg) :
    alignedWeek? day offset base = some arg := by
  have htrim := (hoffset.isArg harg.isArg).trimmed.trim_eq
  have hbodyArg := hbody.isArg harg.isArg
  obtain ⟨inner, hcall, -, hinner⟩ := hbase.isCall (isName_of_ofName? hcast)
    (by simpa using hbodyArg) (by simp)
  simp only [alignedWeek?, hday.value, htrim, hoffset.weekdayOffset?_eq harg.isArg.trimmed,
    hcall.callParts_eq, hcast, hinner body rfl, hbody.castToDate?_eq harg.isArg.trimmed,
    harg.isArg.trimmed.trim_eq, Option.bind_eq_bind, Option.bind_some, ne_eq, not_true_eq_false,
    if_false, if_true]

/-- Each form is recognised as its operation on its argument. -/
theorem Form.recognise_eq {clock : Clock} {arg : List Char} {operation : Operation}
    {function : DateFunction} {args : List (List Char)} {clockOf : List Char → TimeUnit → Clock}
    (h : Form clock arg operation function args) (harg : Clean arg)
    (hstart : ∃ c ∈ arg.head?, isWordChar c = true)
    (hclock : ∀ s, operation = .shift s → clockOf arg s.unit = clock) :
    recogniseWith clockOf function args = some (operation.idiom clock arg) := by
  have hne : arg ≠ [] := harg.isArg.trimmed.ne_nil
  have htrim : trim arg = arg := harg.isArg.trimmed.trim_eq
  have hnow : isNowLiteral arg = false := isNowLiteral_of_head hstart
  cases h with
  | part => simp only [recogniseWith, hne, if_false, Operation.idiom]
  | strftime h => simp only [recogniseWith, h, Option.map_some, Operation.idiom]
  | extract hpart hfrom gap gap' hgap hgapNe hgap' hgapNe' =>
    simp only [recogniseWith, Option.map_some, Operation.idiom,
      partFrom?_eq hpart hfrom hgap hgapNe hgap' hgapNe' harg.isArg.trimmed]
  | datePart h => simp only [recogniseWith, h.value, Option.map_some, Operation.idiom]
  | dateTrunc h => simp only [recogniseWith, h.value, Option.map_some, Operation.idiom]
  | dateFormat h => simp only [recogniseWith, h, Option.map_some, Operation.idiom]
  | date => simp [recogniseWith, dateCall?, hnow, hne, Operation.idiom]
  | startOf hweek h => simp only [recogniseWith, dateCall?_startOf hweek h, Operation.idiom]
  | monday hsunday hback =>
    simp only [recogniseWith, dateCall?_monday hsunday hback, Operation.idiom]
  | @floored part name inner diff difference h hinner hdiff hcall =>
    have haligned := alignedWeek?_eq_none name ['0']
      (hcall.head (isName_of_sameAscii hdiff (by decide)))
    simp only [recogniseWith, int64?_eq_none_of_mem hcall.paren_mem, haligned,
      flooredDate?_eq h hinner hdiff hcall harg, Operation.idiom]
  | @aligned day offset cast body base hday hoffset hcast hbody hbase =>
    simp only [recogniseWith, int64?_eq_none_of_mem hoffset.paren_mem,
      alignedWeek?_eq hday hoffset hcast hbody hbase harg, Operation.idiom]
  | weekday hdate hbase hinterval =>
    obtain ⟨inner, hcall, -, hinner⟩ := hbase.isCall (isName_of_ofName? hdate)
      (by simpa using harg.isArg) (by simp)
    simp only [recogniseWith, Operation.idiom,
      hinterval.weekdayInterval?_eq harg.isArg hcall.callParts_eq hdate (hinner arg rfl)]
  | dateAdd h hnumber =>
    simp only [recogniseWith, hnumber, h.value, Option.map_some, Operation.idiom, hclock _ rfl]
  | addInterval h =>
    simp only [recogniseWith, h.interval?_eq, Option.map_some, Operation.idiom, hclock _ rfl]
  | subInterval h hneg =>
    obtain ⟨number, word, hq, hinterval⟩ := h.intervalOf
    simp only [recogniseWith, hinterval.weekdayInterval?_eq_none hq.isNumber hq.isWord,
      h.interval?_eq, hneg, Option.map_some, Operation.idiom, hclock _ rfl]
  | modifier h hfunction =>
    subst hfunction
    have hcall := dateCall?_modifier h clock arg
    rw [hnow, if_neg (by simp)] at hcall
    cases clock with
    | date => exact hcall
    | now => exact hcall

/-! ### Clocks -/

theorem callParts_eq_none_of_not_mem {text : List Char} (h : '(' ∉ text) :
    callParts text = none := by
  have htrim : ∀ c ∈ trim text, c ∈ text := fun c hc =>
    (List.dropWhile_suffix _).mem ((trimEnd_isPrefix _).mem hc)
  rw [callParts]
  split
  · split
    · rename_i cs hcs
      have hmem : '(' ∈ trimStart ((trim text).dropWhile isNameChar) := by rw [hcs]; simp
      exact absurd (htrim _ ((List.dropWhile_suffix _).mem ((List.dropWhile_suffix _).mem hmem))) h
    · rfl
  · rfl

/-- What has been read up to a closing parenthesis ends with it. -/
theorem closeCallFrom_split {region : Region} {depth : Nat} {text inner rest : List Char}
    (h : closeCallFrom region depth text = some (inner, rest)) : text = inner ++ ')' :: rest := by
  induction text generalizing region depth inner with
  | nil => simp [closeCallFrom] at h
  | cons c text ih =>
    have hmore : ∀ {region depth},
        (closeCallFrom region depth text).map (fun read => (c :: read.1, read.2)) =
          some (inner, rest) → c :: text = inner ++ ')' :: rest := by
      intro region depth h
      obtain ⟨⟨taken, left⟩, htaken, heq⟩ := Option.map_eq_some_iff.1 h
      obtain ⟨rfl, rfl⟩ : c :: taken = inner ∧ left = rest := by simpa using heq
      rw [ih htaken]
      rfl
    unfold closeCallFrom at h
    split at h
    · rename_i hclose
      cases depth with
      | zero =>
        obtain ⟨rfl, rfl⟩ : [] = inner ∧ text = rest := by simpa using h
        rw [hclose.2]
        rfl
      | succ depth => exact hmore h
    · exact hmore h

/-- A call ends with a parenthesis. -/
theorem callParts_eq_none_of_last {text : List Char}
    (h : ∃ c ∈ text.getLast?, isBlank c = false ∧ c ≠ ')') : callParts text = none := by
  obtain ⟨c, hc, hblank, hclose⟩ := h
  have hlast : (trim text).getLast? = some c := by
    have hne : trimStart text ≠ [] := fun hnil => by
      have hall := List.dropWhile_eq_nil_iff.1 hnil c (List.mem_of_getLast? hc)
      simp [hblank] at hall
    obtain ⟨front, hfront⟩ : trimStart text <:+ text := List.dropWhile_suffix _
    have hstart : (trimStart text).getLast? = some c := by
      rw [← hfront, List.getLast?_append_of_ne_nil _ hne] at hc
      exact hc
    rw [trim, trimEnd_of_last ⟨c, hstart, hblank⟩, hstart]
  rw [callParts]
  split
  · split
    · rename_i cs hcs
      split
      · rename_i inner hinner
        have hsuffix : '(' :: cs <:+ trim text :=
          hcs ▸ (List.dropWhile_suffix _).trans (List.dropWhile_suffix _)
        obtain ⟨front, hfront⟩ := hsuffix
        rw [← hfront, closeCallFrom_split hinner] at hlast
        have heq : ')' = c := by simpa [List.getLast?_append, List.getLast?_cons] using hlast
        exact absurd heq.symm hclose
      · rfl
    · rfl
  · rfl

theorem Column.callParts_eq (column : Column) : callParts column.text = none := by
  refine callParts_eq_none_of_not_mem fun hmem => ?_
  rcases column.chars _ hmem with h | h <;> exact absurd h (by decide)

theorem Column.isNowClock_eq (column : Column) : isNowClock column.text = false := by
  have hsame : sameAscii column.text "CURRENT_TIMESTAMP".toList = false := by
    cases hs : sameAscii column.text "CURRENT_TIMESTAMP".toList with
    | false => rfl
    | true =>
      have hlower : column.text.map Char.toLower = "current_timestamp".toList := beq_iff_eq.1 hs
      have hchar : ∀ c ∈ column.text, isWordChar c = true ∧ fold c = c.toLower := by
        intro c hc
        have hall : ∀ d ∈ "current_timestamp".toList, d.isAlpha = true ∨ d = '_' := by decide
        rcases toLower_eq_or_isAlpha c with heq | halpha
        · rcases hall _ (hlower ▸ List.mem_map_of_mem hc) with h | h
          · rw [heq] at h
            exact ⟨isWordChar_of_isAlpha h, fold_of_isAlpha h⟩
          · rw [heq] at h
            subst h
            decide
        · exact ⟨isWordChar_of_isAlpha halpha, fold_of_isAlpha halpha⟩
      have hword : (word column.text).1 = column.text := by
        have h := @word_append _ [] (fun c hc => (hchar c hc).1) (by simp)
        rw [List.append_nil] at h
        rw [h]
      have hfold : column.text.map fold = "current_timestamp".toList := by
        rw [← hlower]
        exact List.map_congr_left fun c hc => (hchar c hc).2
      have hplain := column.plain
      rw [hword, clockKeyword?, hfold] at hplain
      exact absurd hplain (by decide)
  simp only [isNowClock, hsame, column.callParts_eq]
  rfl

theorem isNowClock_eq_false {text name inner : List Char} {function : DateFunction}
    (hparen : '(' ∈ text) (hparts : callParts text = some (name, inner))
    (hname : DateFunction.ofName? name = some function) (hmoment : function ≠ .moment)
    (hdatetime : function ≠ .datetime) : isNowClock text = false := by
  have hsame : sameAscii text "CURRENT_TIMESTAMP".toList = false := by
    cases hs : sameAscii text "CURRENT_TIMESTAMP".toList with
    | false => rfl
    | true =>
      have hlower : text.map Char.toLower = "current_timestamp".toList := beq_iff_eq.1 hs
      have hmem : '('.toLower ∈ text.map Char.toLower := List.mem_map_of_mem hparen
      rw [hlower] at hmem
      exact absurd hmem (by decide)
  simp only [isNowClock, hsame, hparts, hname, Bool.false_or]
  split
  · rename_i h
    exact absurd (Option.some.inj h) hmoment
  · rename_i h
    exact absurd (Option.some.inj h) hdatetime
  · rfl

/-- The clock of what is recognised in a base, if that is a shift, and the clock of a date
otherwise. -/
def shiftClock : Option Idiom → Clock
  | some (.shift _ _ _ found) => found
  | _ => .date

/-- The clock of a base that is a call is that of the shift which the call spells. -/
theorem clockWithin_call {text name inner : List Char} {function : DateFunction} {depth : Nat}
    (htrim : trim text = text) (hparts : callParts text = some (name, inner))
    (hname : DateFunction.ofName? name = some function) (hdatetime : function ≠ .datetime)
    (hnow : isNowClock text = false) (unit : TimeUnit) :
    clockWithin (depth + 1) text unit = if unit.isSubDay then .now else
      shiftClock (recogniseWith (clockWithin depth) function (splitArgs inner)) := by
  cases function with
  | datetime => contradiction
  | _ =>
    simp only [clockWithin, htrim, hparts, hname, hnow, Bool.or_false]
    rfl

/-- The expression stands in an argument of each form. -/
theorem Form.sublist {clock : Clock} {arg : List Char} {operation : Operation}
    {function : DateFunction} {args : List (List Char)}
    (h : Form clock arg operation function args) :
    ∃ a ∈ args, arg.Sublist a := by
  cases h with
  | extract => exact ⟨_, List.mem_cons_self, List.sublist_append_right _ _⟩
  | @floored part name inner diff difference h hinner hdiff hcall =>
    exact ⟨difference, by simp, List.sublist_of_cons_sublist (hcall.sublist (by simp))⟩
  | @aligned day offset cast body base hday hoffset hcast hbody hbase =>
    refine ⟨base, by simp, ?_⟩
    have hcast := List.sublist_of_cons_sublist (@Written.sublist _ _ body _ hbase (by simp))
    obtain ⟨-, -, gap, gap', -, -, -, -⟩ := hbody
    simp only [List.append_assoc] at hcast
    exact (List.sublist_append_left _ _).trans hcast
  | @weekday date base interval hdate hbase hinterval =>
    exact ⟨base, by simp, List.sublist_of_cons_sublist (hbase.sublist (by simp))⟩
  | _ => exact ⟨arg, by simp, List.Sublist.refl _⟩

theorem Form.ne_moment {clock : Clock} {arg : List Char} {operation : Operation}
    {function : DateFunction} {args : List (List Char)}
    (h : Form clock arg operation function args) :
    function ≠ .moment := by
  cases h with
  | modifier h hfunction =>
    subst hfunction
    split <;> simp
  | _ => simp

/-- Only a shift of a moment is a call of `DATETIME`. -/
theorem Form.clock_of_datetime {clock : Clock} {arg : List Char} {operation : Operation}
    {args : List (List Char)} (h : Form clock arg operation .datetime args) : clock = .now := by
  cases h with
  | modifier h hfunction =>
    cases clock with
    | date => simp at hfunction
    | now => rfl

namespace Spells

variable {expr : Expr} {text : List Char}

theorem head (h : Spells expr text) : ∃ c ∈ text.head?, isWordChar c = true := by
  cases h with
  | column column => exact column.start
  | apply _ _ hname htext => exact htext.head (isName_of_ofName? hname)

/-- The clock of a shifted base is the clock of the expression it spells, or `now` when the unit is
shorter than a day. -/
theorem clockWithin_eq (h : Spells expr text) {depth : Nat} (hdepth : text.length < depth)
    (unit : TimeUnit) : clockWithin depth text unit =
      if unit.isSubDay then .now else expr.clock := by
  induction h generalizing depth unit with
  | column column =>
    obtain ⟨depth, rfl⟩ := Nat.exists_eq_succ_of_ne_zero (Nat.ne_zero_of_lt hdepth)
    simp only [clockWithin, column.isArg.trimmed.trim_eq, column.isNowClock_eq, column.callParts_eq,
      Bool.or_false, Expr.clock]
  | @apply operation expr arg name text function args harg hform hname htext ih =>
    obtain ⟨depth, rfl⟩ := Nat.exists_eq_succ_of_ne_zero (Nat.ne_zero_of_lt hdepth)
    have hargs := hform.clean harg.clean
    obtain ⟨inner, hcall, hsplit, -⟩ := htext.isCall (isName_of_ofName? hname)
      (fun a ha => (hargs a ha).isArg) hform.ne_nil
    obtain ⟨a, ha, hsublist⟩ := hform.sublist
    have hle := hsublist.length_le
    have hlt := htext.length_lt ha
    -- The clock that recognition finds inside is the one that the operation gives.
    have hclock : ∀ s, operation = .shift s →
        clockWithin depth arg s.unit = operation.clock expr.clock := by
      rintro s rfl
      exact ih (by omega) s.unit
    have hidiom := hform.recognise_eq harg.clean harg.head hclock
    by_cases hdatetime : function = .datetime
    · subst hdatetime
      have hnow : operation.clock expr.clock = .now := hform.clock_of_datetime
      rw [clockWithin, hcall.trimmed.trim_eq, hcall.callParts_eq]
      simp only [hname, Expr.clock, hnow, ite_self]
    · have hnow :=
        isNowClock_eq_false htext.paren_mem hcall.callParts_eq hname hform.ne_moment hdatetime
      rw [clockWithin_call hcall.trimmed.trim_eq hcall.callParts_eq hname hdatetime hnow,
        hsplit, hidiom]
      cases operation <;> rfl

end Spells

end AskSql.Idiom
