import AskSql.Proofs.Clause.Faithful
import AskSql.Proofs.Json.ReadBack

/-! Clauses read back from the texts that they are written as.  The field of a filter ends at the
first operator behind it, which is the one that was written: none begins in a field that has neither
an equals sign nor an angle bracket nor the first word of an operator, and none at the blank behind
it.  Whatever follows is the value, so operators and colons in it make no difference.  The direction
of a sort follows the last colon, so colons in the field make none either. -/

namespace AskSql.Clause

open Text

variable {keys : List String} {text rest token back field word : List Char} {op : FilterOperator}

/-! ### Operators in either case -/

theorem fold_eq_of_toLower {c k : Char} (h : c.toLower = k) (hk : k.isAlpha = true) :
    fold c = k := by
  have hletter : c.isAlpha = true := by rwa [← h, Idiom.isAlpha_toLower] at hk
  rw [fold, if_neg, if_neg, h]
  · rintro rfl
    exact absurd hletter (by decide)
  · rintro rfl
    exact absurd hletter (by decide)

theorem eq_of_toLower_eq {c k : Char} (h : c.toLower = k) (hk : k.isAlpha = false) : c = k := by
  rcases Sql.toLower_eq_or_isAlpha c with hsame | hletter
  · exact hsame.symm.trans h
  · rw [← Idiom.isAlpha_toLower, h, hk] at hletter
    contradiction

theorem map_fold_of_map_toLower {key : String} (hkey : IsKey key)
    (h : token.map Char.toLower = key.toList) : token.map fold = key.toList := by
  rw [← h, List.map_inj_left]
  intro c hc
  exact fold_eq_of_toLower rfl (hkey.2 _ (h ▸ List.mem_map_of_mem hc))

theorem eq_of_map_toLower {cs ks : List Char} (hks : ∀ k ∈ ks, k.isAlpha = false)
    (h : cs.map Char.toLower = ks.map Char.toLower) : cs = ks := by
  induction ks generalizing cs with
  | nil => simpa using h
  | cons k ks ih =>
    obtain ⟨c, cs, rfl, hc, hcs⟩ := List.map_eq_cons_iff.1 h
    have hk := hks k (by simp)
    have hlower : k.toLower = k := (Sql.toLower_eq_or_isAlpha k).resolve_right (by simp [hk])
    rw [eq_of_toLower_eq (hc.trans hlower) hk,
      ih (fun d hd => hks d (List.mem_cons_of_mem k hd)) hcs]

theorem WordsOf.behind (h : WordsOf keys text) : WordsBehind keys (' ' :: text) := by
  obtain ⟨htoken, htext⟩ := h
  exact @WordsBehind.cons _ _ [' '] _ _ (by simp) (by decide) htoken htext

/-- Keywords that are apart by single spaces, in either case of ASCII, are written as such. -/
theorem wordsOf_of_map_toLower (hne : keys ≠ []) (hkeys : ∀ key ∈ keys, IsKey key)
    (h : text.map Char.toLower = [' '].intercalate (keys.map String.toList)) :
    WordsOf keys text := by
  induction keys generalizing text with
  | nil => contradiction
  | cons key keys ih =>
    have hkey := hkeys key (by simp)
    cases keys with
    | nil =>
      rw [List.map_singleton, List.intercalate_singleton] at h
      rw [← List.append_nil text]
      exact .mk (map_fold_of_map_toLower hkey h) .nil
    | cons next keys =>
      rw [List.map_cons, List.map_cons, List.intercalate_cons_cons, List.append_assoc] at h
      obtain ⟨token, behind, rfl, htoken, hbehind⟩ := List.map_eq_append_iff.1 h
      obtain ⟨c, text, rfl, hc, htext⟩ := List.map_eq_cons_iff.1 hbehind
      obtain rfl := eq_of_toLower_eq hc (by decide)
      have hrest : WordsOf (next :: keys) text :=
        ih (List.cons_ne_nil next keys)
          (fun other hother => hkeys other (List.mem_cons_of_mem _ hother))
          (by rw [htext, List.map_cons]; rfl)
      exact .mk (map_fold_of_map_toLower hkey htoken) hrest.behind

/-- Every operator is a symbol or is made of keywords. -/
theorem symbol_or_words (op : FilterOperator) :
    op ∈ symbolOperators ∨ ∃ entry ∈ wordOperators, entry.2 = op ∧
      op.keyword.toList.map Char.toLower = [' '].intercalate (entry.1.map String.toList) := by
  cases op <;> decide

/-- An operator in either case of ASCII is written as one. -/
theorem writtenAs_of_sameAscii {before : Option Char} (h : sameAscii word op.keyword.toList = true)
    (hbefore : ∀ b ∈ before, isWordChar b = false)
    (hrest : ∀ c ∈ rest.head?, isWordChar c = false) :
    WrittenAs before rest op word := by
  have hlower : word.map Char.toLower = op.keyword.toList.map Char.toLower := eq_of_beq h
  rcases symbol_or_words op with hop | ⟨entry, hentry, rfl, hkeyword⟩
  · have hplain : ∀ op ∈ symbolOperators, ∀ k ∈ op.keyword.toList, k.isAlpha = false := by decide
    rw [eq_of_map_toLower (hplain op hop) hlower]
    exact .symbol hop
  · have hne : ∀ entry ∈ wordOperators, entry.1 ≠ [] := by decide
    exact .words hentry hbefore
      (wordsOf_of_map_toLower (hne entry hentry) (isKey_of_mem hentry) (hlower.trans hkeyword))
      hrest

theorem operatorOf_of_sameAscii (h : sameAscii word op.keyword.toList = true) :
    operatorOf word = op := by
  have hwritten : WrittenAs none [] op word := writtenAs_of_sameAscii h nofun nofun
  have hkelvin : '\u212a' ∉ word := by
    intro hmem
    have hlower : word.map Char.toLower = op.keyword.toList.map Char.toLower := eq_of_beq h
    have hall : ∀ op : FilterOperator, '\u212a' ∉ op.keyword.toList.map Char.toLower := by
      intro op
      cases op <;> decide
    exact hall op (hlower ▸ List.mem_map.2 ⟨'\u212a', hmem, by decide⟩)
  rw [operatorOf_eq hwritten.spells, if_neg hkelvin]

/-! ### Fields without operators -/

/-- A phrase that names a field and holds nothing of an operator: it has no white space around it,
none of the characters of which each symbol has one, and no first word of an operator in words. -/
structure FieldText (field : List Char) : Prop where
  trimmed : Trimmed field
  symbols : ∀ c ∈ field, c ∉ ['=', '<', '>']
  words : ∀ key ∈ ["in", "like", "not", "is"], hasWord key field = false

instance (field : List Char) : Decidable (FieldText field) :=
  decidable_of_iff (Trimmed field ∧ (∀ c ∈ field, c ∉ ['=', '<', '>']) ∧
      ∀ key ∈ ["in", "like", "not", "is"], hasWord key field = false)
    ⟨fun h => ⟨h.1, h.2.1, h.2.2⟩, fun h => ⟨h.trimmed, h.symbols, h.words⟩⟩

/-- What holds no white space ends before a blank. -/
theorem exists_of_append_eq_blank {tail : List Char} (hink : ∀ c ∈ token, isBlank c = false)
    (h : token ++ back = tail ++ ' ' :: rest) :
    ∃ gap, tail = token ++ gap ∧ back = gap ++ ' ' :: rest := by
  rcases List.append_eq_append_iff.1 h with ⟨gap, htail, hback⟩ | ⟨gap, htoken, hrest⟩
  · exact ⟨gap, htail, hback⟩
  · cases gap with
    | nil => exact ⟨[], by simpa using htoken.symm, by simpa using hrest.symm⟩
    | cons c gap =>
      have hc := hink c (by rw [htoken]; simp)
      rw [← (List.cons.inj hrest).1] at hc
      exact absurd hc (by decide)

theorem WordsBehind.head (h : WordsBehind keys text)
    (hrest : ∀ c ∈ rest.head?, isWordChar c = false) :
    ∀ c ∈ (text ++ rest).head?, isWordChar c = false := by
  cases h with
  | nil => exact hrest
  | cons hne hgap htoken h =>
    rw [List.append_assoc]
    exact head_of_gap hne hgap _

/-- No operator begins in a field or at the blank behind it. -/
theorem FieldText.operator?_eq_none {front tail : List Char} (h : FieldText (front ++ tail))
    (rest : List Char) : operator? front.getLast? (tail ++ ' ' :: rest) = none := by
  rw [Option.eq_none_iff_forall_ne_some]
  rintro ⟨text, behind⟩ hoperator
  obtain ⟨hcs, op, hwritten⟩ := operator?_eq_some hoperator
  cases hwritten with
  | symbol hop =>
    have hall : ∀ op ∈ symbolOperators, (∀ c ∈ op.keyword.toList, isBlank c = false) ∧
        ∃ c ∈ op.keyword.toList, c ∈ ['=', '<', '>'] := by decide
    obtain ⟨hink, c, hc, hmark⟩ := hall op hop
    obtain ⟨gap, rfl, -⟩ := exists_of_append_eq_blank hink hcs.symm
    exact h.symbols c (by simp [hc]) hmark
  | @words entry _ hentry hbefore hwords hrest =>
    have hfirst : ∀ entry ∈ wordOperators, ∀ key ∈ entry.1.head?,
        key ∈ ["in", "like", "not", "is"] := by
      decide
    have hkeys := isKey_of_mem hentry
    have hmem := hfirst entry hentry
    generalize entry.1 = keys at hkeys hmem hwords
    obtain ⟨htoken, htext⟩ := hwords
    rename_i key keys token text
    have hkey := hkeys key (by simp)
    rw [List.append_assoc] at hcs
    obtain ⟨gap, rfl, hbehind⟩ := exists_of_append_eq_blank (token_ink hkey htoken).2 hcs.symm
    have hafter : ∀ c ∈ gap.head?, isWordChar c = false := by
      intro c hc
      refine htext.head hrest c ?_
      rw [hbehind, List.head?_append, Option.mem_def.1 hc]
      rfl
    have hword := hasWord_of_keyword hkey.2 hkey.1 htoken hbefore hafter
    rw [h.words key (hmem key rfl)] at hword
    contradiction

/-! ### Filters -/

/-- The search for an operator passes over what none begins in. -/
theorem splitFilterFrom_append {before skipped cs : List Char}
    (h : ∀ front c back, skipped = front ++ c :: back → front.reverse ++ before ≠ [] →
      operator? (front.reverse ++ before).head? (c :: (back ++ cs)) = none) :
    splitFilterFrom before (skipped ++ cs) = splitFilterFrom (skipped.reverse ++ before) cs := by
  induction skipped generalizing before with
  | nil => rfl
  | cons c skipped ih =>
    have hhere : (if before.isEmpty then none
        else operator? before.head? (c :: (skipped ++ cs))) = none := by
      split
      · rfl
      · rename_i hempty
        exact h [] c skipped rfl (by simpa using hempty)
    rw [List.cons_append, splitFilterFrom, hhere]
    dsimp only
    rw [ih, List.reverse_cons, List.append_assoc, List.singleton_append]
    intro front d back hskipped _
    have hnext := h (c :: front) d back (by rw [hskipped, List.cons_append])
    rw [List.reverse_cons, List.append_assoc, List.singleton_append] at hnext
    exact hnext (by simp)

theorem ne_nil_of_sameAscii (h : sameAscii word op.keyword.toList = true) : word ≠ [] := by
  rintro rfl
  cases op <;> contradiction

/-- A field, an operator and what follows are taken apart again. -/
theorem splitFilter_written (hfield : FieldText field)
    (hword : sameAscii word op.keyword.toList = true) (hrest : ∀ c ∈ rest.head?, isBlank c = true) :
    splitFilter (field ++ ' ' :: (word ++ rest)) = some ⟨field, word, trim rest⟩ := by
  have hstart : trimStart (field ++ ' ' :: (word ++ rest)) = field ++ ' ' :: (word ++ rest) := by
    obtain ⟨c, hc, hblank⟩ := hfield.trimmed.head
    exact trimStart_of_head ⟨c, by rw [List.head?_append, Option.mem_def.1 hc]; rfl, hblank⟩
  have hskip : splitFilterFrom [] (field ++ ' ' :: (word ++ rest)) =
      splitFilterFrom field.reverse (' ' :: (word ++ rest)) := by
    rw [splitFilterFrom_append, List.append_nil]
    rintro front c back rfl -
    rw [List.append_nil, List.head?_reverse]
    exact hfield.operator?_eq_none _
  have hblank : splitFilterFrom field.reverse (' ' :: (word ++ rest)) =
      splitFilterFrom (' ' :: field.reverse) (word ++ rest) := by
    have hwhole : FieldText (field ++ []) := by rwa [List.append_nil]
    have hnone := hwhole.operator?_eq_none (word ++ rest)
    rw [List.nil_append] at hnone
    rw [splitFilterFrom, List.head?_reverse, hnone, ite_self]
  have hfound : splitFilterFrom (' ' :: field.reverse) (word ++ rest) =
      some ⟨field, word, trim rest⟩ := by
    have hwritten : WrittenAs (some ' ') rest op word :=
      writtenAs_of_sameAscii hword (by decide) fun c hc => isWordChar_of_isBlank (hrest c hc)
    have hoperator := hwritten.operator? fun hhead => absurd (hrest '=' hhead) (by decide)
    obtain ⟨c, cs, rfl⟩ := List.exists_cons_of_ne_nil (ne_nil_of_sameAscii hword)
    have htrim : trim (field ++ [' ']) = field := by
      have hpadded : trim ([] ++ field ++ [' ']) = field := hfield.trimmed.trim_padded rfl rfl
      simpa using hpadded
    rw [List.cons_append, splitFilterFrom]
    rw [List.cons_append] at hoperator
    simp [hoperator, htrim]
  rw [splitFilter, hstart, Option.orElse_eq_orElse, Option.orElse_eq_or]
  dsimp only
  rw [hskip, hblank, hfound, Option.some_or]

/-- What stands behind an operator, and the value that it is read as: nothing but white space behind
an operator without a value, and the text of a value or a text that is none behind another. -/
inductive Behind (op : FilterOperator) : String → Json → Prop
  | nothing {gap : String} (hunary : op.isUnary = true) (hgap : isBlankText gap = true) :
    Behind op gap .null
  | json {value : Json} (hunary : op.isUnary = false)
    (hread : Json.parse? value.compact = some value) :
    Behind op (" " ++ value.compact) value
  | plain {text : String} (hunary : op.isUnary = false) (htrimmed : Trimmed text.toList)
    (hread : Json.parse? text = none) : Behind op (" " ++ text) (.str text)

theorem Behind.head {behind : String} {value : Json} (h : Behind op behind value) :
    ∀ c ∈ behind.toList.head?, isBlank c = true := by
  have hspace : ∀ text : String, ∀ c ∈ (" " ++ text).toList.head?, isBlank c = true := by
    intro text c hc
    rw [String.toList_append] at hc
    obtain rfl : ' ' = c := Option.some.inj hc
    rfl
  cases h with
  | nothing _ hgap => exact fun c hc => List.all_eq_true.1 hgap c (List.mem_of_head? hc)
  | json => exact hspace _
  | plain => exact hspace _

/-- The value of a filter is read from what stands behind its operator. -/
theorem Behind.readValue {behind : String} {value : Json} (h : Behind op behind value) :
    (op.isUnary = true ∨ trim behind.toList ≠ []) ∧
      (if op.isUnary then .null else readValue (.ofList (trim behind.toList))) = value := by
  have hpadded : ∀ {text : String}, Trimmed text.toList → trim (" " ++ text).toList =
      text.toList := by
    intro text htrimmed
    have htrim : trim ([' '] ++ text.toList ++ []) = text.toList := htrimmed.trim_padded rfl rfl
    rw [List.append_nil] at htrim
    rw [String.toList_append]
    exact htrim
  cases h with
  | nothing hunary => exact ⟨.inl hunary, if_pos hunary⟩
  | json hunary hread =>
    have htrimmed := Json.trimmed_compact value
    rw [hpadded htrimmed, hunary, if_neg (by simp), String.ofList_toList, Clause.readValue, hread]
    exact ⟨.inr htrimmed.ne_nil, rfl⟩
  | plain hunary htrimmed hread =>
    rw [hpadded htrimmed, hunary, if_neg (by simp), String.ofList_toList, Clause.readValue, hread]
    exact ⟨.inr htrimmed.ne_nil, rfl⟩

/-- A filter that has been written is read as what it was. -/
theorem parseFilter_written {field word behind : String} {value : Json}
    (hfield : FieldText field.toList)
    (hword : sameAscii word.toList op.keyword.toList = true) (hbehind : Behind op behind value) :
    parseFilter (field ++ " " ++ word ++ behind) = .ok (.filter field op value false) := by
  have htext : (field ++ " " ++ word ++ behind).toList =
      field.toList ++ ' ' :: (word.toList ++ behind.toList) := by
    simp
  have hsplit := splitFilter_written hfield hword hbehind.head
  rw [← htext] at hsplit
  have hop := operatorOf_of_sameAscii hword
  obtain ⟨hsome, hvalue⟩ := hbehind.readValue
  rw [parseFilter_of_split hsplit (by rwa [hop]), hop, hvalue, String.ofList_toList]

/-! ### Sorts -/

theorem splitLast?_append {x : Char} {front back : List Char} (h : x ∉ back) :
    splitLast? x (front ++ x :: back) = some (front, back) := by
  have hne : ∀ c ∈ back.reverse, decide (c ≠ x) = true := by
    intro c hc
    rw [decide_eq_true_iff]
    rintro rfl
    exact h (List.mem_reverse.1 hc)
  have hstop : ∀ c ∈ (x :: front.reverse).head?, decide (c ≠ x) = false := by
    rintro c ⟨⟩
    simp
  have hreverse : (front ++ x :: back).reverse = back.reverse ++ x :: front.reverse := by simp
  rw [splitLast?, hreverse, dropWhile_append hne hstop, takeWhile_append hne hstop]
  simp

/-- A direction in either case of ASCII is a word in letters. -/
theorem isAlpha_of_direction {direction : SortDirection}
    (h : word.map Char.toLower = direction.keyword.toList.map Char.toLower) :
    word ≠ [] ∧ ∀ c ∈ word, c.isAlpha = true := by
  have hall : direction.keyword.toList.map Char.toLower ≠ [] ∧
      ∀ k ∈ direction.keyword.toList.map Char.toLower, k.isAlpha = true := by
    cases direction <;> decide
  rw [← h] at hall
  refine ⟨by simpa using hall.1, fun c hc => ?_⟩
  rw [← Idiom.isAlpha_toLower]
  exact hall.2 _ (List.mem_map_of_mem hc)

theorem trimmed_of_isAlpha (hne : word ≠ []) (h : ∀ c ∈ word, c.isAlpha = true) : Trimmed word where
  head := ⟨_, List.head?_eq_some_head hne,
    isBlank_of_isWordChar (Idiom.isWordChar_of_isAlpha (h _ (List.head_mem hne)))⟩
  last := ⟨_, List.getLast?_eq_some_getLast hne,
    isBlank_of_isWordChar (Idiom.isWordChar_of_isAlpha (h _ (List.getLast_mem hne)))⟩

/-- A sort that has been written is read as what it was. -/
theorem parseSort_written (phrase : String) {word : String} {direction : SortDirection}
    (h : sameAscii word.toList direction.keyword.toList = true) :
    parseSort (phrase ++ ":" ++ word) = .sort (trimmed phrase) direction := by
  have htext : (phrase ++ ":" ++ word).toList = phrase.toList ++ ':' :: word.toList := by simp
  have hlower : word.toList.map Char.toLower = direction.keyword.toList.map Char.toLower :=
    eq_of_beq h
  obtain ⟨hne, hletters⟩ := isAlpha_of_direction hlower
  have hcolon : ':' ∉ word.toList := fun hmem => absurd (hletters ':' hmem) (by decide)
  rw [parseSort, htext, splitLast?_append hcolon]
  dsimp only
  rw [(trimmed_of_isAlpha hne hletters).trim_eq, sameAscii, sameAscii, hlower]
  cases direction <;> rfl

/-! ### Reading back -/

/-- Clauses are read back from the texts that they are written as.  A filter is written as its
field, its operator in either case and its value, and is read as this one whatever its value holds,
where a value is written without white space or, if it is a text that is no value, as it stands.
Every plain value is read from its own text.  A sort is written with its direction behind a
colon. -/
theorem parse_written :
    (∀ value : Json, Json.Plain Json.maxDepth value → Json.parse? value.compact = some value) ∧
    (∀ (field word behind : String) (op : FilterOperator) (value : Json), FieldText field.toList →
      sameAscii word.toList op.keyword.toList = true → Behind op behind value →
      parseFilter (field ++ " " ++ word ++ behind) = .ok (.filter field op value false)) ∧
    ∀ (phrase word : String) (direction : SortDirection),
      sameAscii word.toList direction.keyword.toList = true →
      parseSort (phrase ++ ":" ++ word) = .sort (trimmed phrase) direction :=
  ⟨fun _ => Json.parse?_compact, fun _ _ _ _ _ => parseFilter_written,
    fun phrase _ _ => parseSort_written phrase⟩

/-- Values that hold operators, colons and quotes do not come in the way. -/
theorem parse_written_total :
    parseFilter "net! total nOt iN [\"a >= b NOT IN c:\\n\",-5,null]" =
      .ok (.filter "net! total" .notIn
        (.arr [.str "a >= b NOT IN c:\n", .num (.int (-5)), .null]) false) ∧
    parseFilter "net! total >= IS NULL = \"x:y\"" =
      .ok (.filter "net! total" .ge (.str "IS NULL = \"x:y\"") false) ∧
    parseFilter "net! total is NULL" = .ok (.filter "net! total" .isNull .null false) ∧
    parseSort " net:desc :dEsc" = .sort "net:desc" .desc := by
  obtain ⟨hcompact, hfilter, hsort⟩ := parse_written
  have hfield : FieldText "net! total".toList := by decide +kernel
  have hvalue : Json.Plain Json.maxDepth
      (.arr [.str "a >= b NOT IN c:\n", .num (.int (-5)), .null]) := by
    refine .arr fun item hitem => ?_
    simp only [List.mem_cons, List.not_mem_nil, or_false] at hitem
    rcases hitem with rfl | rfl | rfl
    · exact .str _
    · exact .int (by decide) (by decide)
    · exact .null
  have hlist := hfilter "net! total" "nOt iN" _ .notIn _ hfield (by decide)
    (.json rfl (hcompact _ hvalue))
  have hplain : Json.parse? "IS NULL = \"x:y\"" = none := by
    have hform : (Json.Form.parse? "IS NULL = \"x:y\"").isNone = true := by decide +kernel
    rw [Json.parse?, Option.isNone_iff_eq_none.1 hform]
    rfl
  have hgreater :=
    hfilter "net! total" ">=" _ .ge _ hfield (by decide) (.plain rfl (by decide) hplain)
  have hnull :=
    hfilter "net! total" "is NULL" "" .isNull _ hfield (by decide) (.nothing rfl (by decide))
  have hcompactText : Json.compact (.arr [.str "a >= b NOT IN c:\n", .num (.int (-5)), .null]) =
      "[\"a >= b NOT IN c:\\n\",-5,null]" := by decide +kernel
  rw [hcompactText] at hlist
  exact ⟨hlist, hgreater, hnull, hsort " net:desc " "dEsc" .desc (by decide)⟩

end AskSql.Clause
