import AskSql.Proofs.Clause.Operators

/-! Whether a filter says what the text says that it is read from.  A text that reads as a filter is
cut into a field, an operator and a value, with white space around them and nothing else.  The
filter has all three, the operator as it is spelled and the value as JSON or as it stands, but for
two slips: an operator spelled with a Kelvin sign is taken for the last of the operators, and
whatever follows an operator without a value is left out.  Where neither happens the filter is
faithful to its text. -/

namespace AskSql.Text

variable {cs : List Char}

/-- Case-blind matching takes white space as it is and nothing else for it. -/
theorem isBlank_fold (c : Char) : isBlank (fold c) = isBlank c := by
  rw [fold]
  split
  · rename_i hlong
    rw [hlong]
    decide
  · split
    · rename_i hkelvin
      rw [hkelvin]
      decide
    · rcases Sql.toLower_eq_or_isAlpha c with hsame | halpha
      · rw [hsame]
      · rw [isBlank_of_isWordChar (Idiom.isWordChar_of_isAlpha halpha),
          isBlank_of_isWordChar (Idiom.isWordChar_of_isAlpha (by rwa [Idiom.isAlpha_toLower]))]

theorem ink_map_fold (cs : List Char) : ink (cs.map fold) = (ink cs).map fold := by
  have hsame : (fun c => !isBlank c) ∘ fold = fun c => !isBlank c := by
    funext c
    rw [Function.comp_apply, isBlank_fold]
  rw [ink, ink, List.filter_map, hsame]

end AskSql.Text

namespace AskSql.Clause

open Text

variable {cs text field operator value rest : List Char} {op : FilterOperator}
  {before : List Char} {written : WrittenFilter} {clause : Clause}

/-- The parts of a filter make up a text, white space around them aside. -/
def Cut (text : List Char) (written : WrittenFilter) : Prop :=
  ∃ left gap gap' right, blank left = true ∧ blank gap = true ∧ blank gap' = true ∧
    blank right = true ∧
    text = left ++ written.field ++ gap ++ written.operator ++ gap' ++ written.value ++ right

/-- A text consists of a field, a spelling of `op` and a value, up to white space around the three,
between the words of the operator, and up to the case of the operator. -/
def Reads (text field : List Char) (op : FilterOperator) (value : List Char) : Prop :=
  ∃ operator, Spells op operator ∧ Cut text ⟨field, operator, value⟩

/-- A filter says what the text says: nothing of it is left out, no other operator is read, and the
value is read from the text behind the operator, which an operator without a value does not have. -/
def Faithful (text : String) : Clause → Prop
  | .filter field op value _ =>
    ∃ behind : String, Reads text.toList field.toList op behind.toList ∧
      if op.isUnary then behind = "" ∧ value = .null else value = readValue behind
  | .sort .. | .groupBy _ => False

/-! ### Where a text is cut -/

theorem splitFilterFrom_eq_some (h : splitFilterFrom before cs = some written) :
    ∃ front rest op, before.reverse ++ cs = front ++ (written.operator ++ rest) ∧
      written.field = trim front ∧ written.value = trim rest ∧ Spells op written.operator := by
  induction cs generalizing before with
  | nil => contradiction
  | cons c cs ih =>
    rw [splitFilterFrom] at h
    split at h
    · rename_i operator rest hoperator
      split at hoperator
      · contradiction
      · obtain ⟨hcs, op, hwritten⟩ := operator?_eq_some hoperator
        obtain rfl := Option.some.inj h
        exact ⟨before.reverse, rest, op, by rw [hcs], rfl, rfl, hwritten.spells⟩
    · obtain ⟨front, rest, op, hcs, hparts⟩ := ih h
      exact ⟨front, rest, op, by simpa using hcs, hparts⟩

theorem splitFilter_eq_some (h : splitFilter cs = some written) :
    ∃ front rest op, cs = front ++ (written.operator ++ rest) ∧ written.field = trim front ∧
      written.value = trim rest ∧ Spells op written.operator := by
  obtain ⟨gap, hgap, hblank⟩ := exists_trimStart cs
  rw [splitFilter, Option.orElse_eq_orElse, Option.orElse_eq_or, Option.or_eq_some_iff] at h
  rcases h with h | ⟨-, h⟩
  · obtain ⟨front, rest, op, hcs, hfield, hvalue, hspells⟩ := splitFilterFrom_eq_some h
    refine ⟨gap ++ front, rest, op, ?_, ?_, hvalue, hspells⟩
    · rw [List.append_assoc, ← hcs]
      exact hgap
    · rw [hfield, trim, trim, trimStart_append hblank]
  · split at h
    · obtain ⟨⟨operator, rest⟩, hoperator, rfl⟩ := Option.map_eq_some_iff.1 h
      obtain ⟨hcs, op, hwritten⟩ := operator?_eq_some hoperator
      exact ⟨gap, rest, op, by rw [← hcs]; exact hgap, (trim_of_blank hblank).symm, rfl,
        hwritten.spells⟩
    · contradiction

/-- The parts that a text is split into make it up, and the operator is one. -/
theorem cut_splitFilter (h : splitFilter cs = some written) :
    Cut cs written ∧ (∃ op, Spells op written.operator) ∧ trim written.value = written.value := by
  obtain ⟨front, rest, op, rfl, hfield, hvalue, hspells⟩ := splitFilter_eq_some h
  obtain ⟨left, gap, hfront, hleft, hgap⟩ := exists_trim front
  obtain ⟨gap', right, hrest, hgap', hright⟩ := exists_trim rest
  rw [← hfield] at hfront
  rw [← hvalue] at hrest
  refine ⟨⟨left, gap, gap', right, hleft, hgap, hgap', hright, ?_⟩, ⟨op, hspells⟩, ?_⟩
  · conv_lhs => rw [hfront, hrest]
    simp only [List.append_assoc]
  · rw [hvalue, trim_trim]

/-! ### What a cut leaves open -/

theorem Cut.ink_eq (h : Cut text written) :
    ink text = ink written.field ++ (ink written.operator ++ ink written.value) := by
  obtain ⟨left, gap, gap', right, hleft, hgap, hgap', hright, rfl⟩ := h
  simp only [ink_append, ink_of_blank hleft, ink_of_blank hgap, ink_of_blank hgap',
    ink_of_blank hright, List.nil_append, List.append_nil, List.append_assoc]

/-- The letters of an operator, white space left out. -/
theorem Spells.map_ink (h : Spells op operator) :
    (ink operator).map fold = (ink op.keyword.toList).map fold := by
  rw [← ink_collapse, ← ink_map_fold, h, ink_map_fold]

/-- Two cuts of a text with the same field agree in what stands behind it. -/
theorem Cut.behind_eq (h : Cut text written) (h' : Cut text ⟨written.field, operator, value⟩) :
    ink written.operator ++ ink written.value = ink operator ++ ink value :=
  List.append_cancel_left (h.ink_eq.symm.trans h'.ink_eq)

/-- Only `LIKE` has a letter that the Kelvin sign stands for. -/
theorem eq_like_of_kelvin (h : Spells op operator) (hkelvin : '\u212a' ∈ operator) :
    op = .like := by
  have hink : '\u212a' ∈ ink operator := mem_ink.2 ⟨hkelvin, by decide⟩
  have hk : fold '\u212a' ∈ (ink op.keyword.toList).map fold := by
    rw [← h.map_ink]
    exact List.mem_map_of_mem hink
  have hall : ∀ op : FilterOperator, fold '\u212a' ∈ (ink op.keyword.toList).map fold →
      op = .like := by
    intro op
    cases op <;> decide
  exact hall op hk

/-- `IS NOT NULL` does not read as `LIKE`, whatever follows. -/
theorem not_reads_of_kelvin (hcut : Cut text written) (hspells : Spells op written.operator)
    (hkelvin : '\u212a' ∈ written.operator) (value : List Char) :
    ¬Reads text written.field .isNotNull value := by
  rintro ⟨operator, hoperator, hcut'⟩
  have hbehind := congrArg (List.map fold) (hcut.behind_eq hcut')
  obtain rfl := eq_like_of_kelvin hspells hkelvin
  rw [List.map_append, List.map_append, hspells.map_ink, hoperator.map_ink] at hbehind
  have hfirst : 'l' = 'i' := (List.cons.inj hbehind).1
  exact absurd hfirst (by decide)

/-- A text that ends with its operator has no value. -/
theorem value_eq_nil_of_reads (hcut : Cut text written) (hspells : Spells op written.operator)
    (htrim : trim written.value = written.value) (h : Reads text written.field op []) :
    written.value = [] := by
  obtain ⟨operator, hoperator, hcut'⟩ := h
  have hbehind := congrArg List.length (hcut.behind_eq hcut')
  have hsame : (ink written.operator).length = (ink operator).length := by
    have hmap := congrArg List.length (hspells.map_ink.trans hoperator.map_ink.symm)
    rwa [List.length_map, List.length_map] at hmap
  have hnil : ink ([] : List Char) = [] := rfl
  rw [List.length_append, List.length_append, hnil, List.length_nil, hsame] at hbehind
  have hvalue : ink written.value = [] := List.eq_nil_of_length_eq_zero (by omega)
  rw [← htrim, trim_of_blank (ink_eq_nil_iff.1 hvalue)]

/-! ### Filters and their texts -/

/-- The filter that the parts of a text are read as. -/
theorem parseFilter_eq_ok {text : String} (h : parseFilter text = .ok clause) :
    ∃ written, splitFilter text.toList = some written ∧
      clause = .filter (.ofList written.field) (operatorOf written.operator)
        (if (operatorOf written.operator).isUnary then .null
          else readValue (.ofList written.value)) false := by
  rw [parseFilter] at h
  split at h
  · contradiction
  · rename_i written hsplit
    refine ⟨written, hsplit, ?_⟩
    dsimp only at h
    split at h
    · rename_i hunary
      rw [if_pos hunary]
      exact (Except.ok.inj h).symm
    · rename_i hunary
      rw [if_neg hunary]
      split at h
      · contradiction
      · exact (Except.ok.inj h).symm

theorem parseFilter_of_split {text : String} (h : splitFilter text.toList = some written)
    (hvalue : (operatorOf written.operator).isUnary = true ∨ written.value ≠ []) :
    parseFilter text = .ok (.filter (.ofList written.field) (operatorOf written.operator)
      (if (operatorOf written.operator).isUnary then .null
        else readValue (.ofList written.value)) false) := by
  rw [parseFilter, h]
  dsimp only
  split
  · rfl
  · rename_i hunary
    have hne : written.value ≠ [] := hvalue.resolve_left hunary
    rw [if_neg (by simpa using hne)]

/-- The parts of a text that reads as a filter make it up, and the filter is made of these parts,
where an operator spelled with a Kelvin sign counts as the last one and an operator without a value
has none.  The filter is faithful to the text exactly if the operator has no Kelvin sign and nothing
follows an operator without a value. -/
theorem faithful_parseFilter_iff {text : String} (h : parseFilter text = .ok clause) :
    ∃ written op, splitFilter text.toList = some written ∧ Cut text.toList written ∧
      Spells op written.operator ∧
      clause = .filter (.ofList written.field)
        (if '\u212a' ∈ written.operator then .isNotNull else op)
        (if '\u212a' ∈ written.operator ∨ op.isUnary = true then .null
          else readValue (.ofList written.value)) false ∧
      (Faithful text clause ↔
        '\u212a' ∉ written.operator ∧ (op.isUnary = true → written.value = [])) := by
  obtain ⟨written, hsplit, hclause⟩ := parseFilter_eq_ok h
  obtain ⟨hcut, ⟨op, hspells⟩, htrim⟩ := cut_splitFilter hsplit
  rw [operatorOf_eq hspells] at hclause
  refine ⟨written, op, hsplit, hcut, hspells, ?_, ?_⟩
  · rw [hclause]
    by_cases hkelvin : '\u212a' ∈ written.operator
    · simp [hkelvin, FilterOperator.isUnary]
    · simp [hkelvin]
  · rw [hclause, Faithful, String.toList_ofList]
    by_cases hkelvin : '\u212a' ∈ written.operator
    · rw [if_pos hkelvin]
      refine iff_of_false ?_ fun hfaithful => hfaithful.1 hkelvin
      rintro ⟨behind, hreads, -⟩
      exact not_reads_of_kelvin hcut hspells hkelvin _ hreads
    · rw [if_neg hkelvin]
      constructor
      · rintro ⟨behind, hreads, hvalue⟩
        refine ⟨hkelvin, fun hunary => ?_⟩
        rw [if_pos hunary] at hvalue
        rw [hvalue.1] at hreads
        exact value_eq_nil_of_reads hcut hspells htrim hreads
      · rintro ⟨-, hnone⟩
        refine ⟨.ofList written.value, ⟨written.operator, hspells, ?_⟩, ?_⟩
        · rw [String.toList_ofList]
          exact hcut
        · split
          · rename_i hunary
            rw [hnone hunary]
            exact ⟨rfl, rfl⟩
          · rfl

/-- A filter on a missing city says nothing of what follows, one with a Kelvin sign in its `LIKE` is
read as another, and one with two blanks in its `NOT IN` is faithful. -/
theorem faithful_city :
    (parseFilter "city IS NULL 5" = .ok (.filter "city" .isNull .null false) ∧
      ¬Faithful "city IS NULL 5" (.filter "city" .isNull .null false)) ∧
    (parseFilter "city LI\u212aE Rome" = .ok (.filter "city" .isNotNull .null false) ∧
      ¬Faithful "city LI\u212aE Rome" (.filter "city" .isNotNull .null false)) ∧
    parseFilter "city not  in Rome" = .ok (.filter "city" .notIn (.str "Rome") false) ∧
      Faithful "city not  in Rome" (.filter "city" .notIn (.str "Rome") false) := by
  have hnull : splitFilter "city IS NULL 5".toList =
      some ⟨"city".toList, "IS NULL".toList, "5".toList⟩ := by decide +kernel
  have hlike : splitFilter "city LI\u212aE Rome".toList =
      some ⟨"city".toList, "LI\u212aE".toList, "Rome".toList⟩ := by decide +kernel
  have hlist : splitFilter "city not  in Rome".toList =
      some ⟨"city".toList, "not  in".toList, "Rome".toList⟩ := by decide +kernel
  have hnullOk : parseFilter "city IS NULL 5" = .ok (.filter "city" .isNull .null false) :=
    parseFilter_of_split hnull (by decide +kernel)
  have hlikeOk : parseFilter "city LI\u212aE Rome" = .ok (.filter "city" .isNotNull .null false) :=
    parseFilter_of_split hlike (by decide +kernel)
  have hlistOk : parseFilter "city not  in Rome" =
      .ok (.filter "city" .notIn (.str "Rome") false) := by
    have hform : (Json.Form.parse? "Rome").isNone = true := by decide +kernel
    have hplain : readValue "Rome" = .str "Rome" := by
      rw [readValue, Json.parse?, Option.isNone_iff_eq_none.1 hform]
      rfl
    rw [← hplain]
    exact parseFilter_of_split hlist (by decide +kernel)
  have hnullOp : ∀ op, Spells op "IS NULL".toList → op = .isNull := by
    intro op
    cases op <;> decide +kernel
  have hlistOp : ∀ op, Spells op "not  in".toList → op = .notIn := by
    intro op
    cases op <;> decide +kernel
  refine ⟨⟨hnullOk, ?_⟩, ⟨hlikeOk, ?_⟩, hlistOk, ?_⟩
  · obtain ⟨written, op, hsplit, -, hspells, -, hfaithful⟩ := faithful_parseFilter_iff hnullOk
    obtain rfl := Option.some.inj (hnull.symm.trans hsplit)
    obtain rfl := hnullOp op hspells
    rw [hfaithful]
    exact fun h => absurd (h.2 rfl) (by decide)
  · obtain ⟨written, op, hsplit, -, -, -, hfaithful⟩ := faithful_parseFilter_iff hlikeOk
    obtain rfl := Option.some.inj (hlike.symm.trans hsplit)
    rw [hfaithful]
    exact fun h => h.1 (by decide)
  · obtain ⟨written, op, hsplit, -, hspells, -, hfaithful⟩ := faithful_parseFilter_iff hlistOk
    obtain rfl := Option.some.inj (hlist.symm.trans hsplit)
    obtain rfl := hlistOp op hspells
    exact hfaithful.2 ⟨by decide, by decide⟩

end AskSql.Clause
