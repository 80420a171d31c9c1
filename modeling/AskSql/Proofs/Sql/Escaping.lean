import AskSql.Proofs.Sql.Lexer
import AskSql.Proofs.Text.Case

/-! Identifiers as a statement has them and as a database reads them.  Quoting puts no dot into a
part, so an escaped name has the parts of the name, each of them escaped.  A part that has been
escaped once stays.  A part that began with no quote is a word that is not reserved, or one quoted
identifier of the dialect, and its content is the part itself, so that two such names never become
one. -/

namespace AskSql.Sql

open Text

variable {dialect : Dialect} {part rest : List Char}

/-! ### Quoted identifiers -/

/-- The content of a quoted identifier from inside it and what comes after it.  It ends at the first
closing character that is not written twice. -/
def readIdentifier (closing : Char) : List Char → Option (List Char × List Char)
  | [] => none
  | [c] => if c = closing then some ([], []) else none
  | c :: d :: cs =>
    if c = closing then
      if d = closing then (readIdentifier closing cs).map (pushContent closing)
      else some ([], d :: cs)
    else (readIdentifier closing (d :: cs)).map (pushContent c)

/-- The content of a text that is one quoted identifier of the dialect, from its first character to
its last. -/
def quotedContent? (dialect : Dialect) : List Char → Option (List Char)
  | [] => none
  | c :: cs =>
    if c = (identifierQuotes dialect).1 then
      match readIdentifier (identifierQuotes dialect).2 cs with
      | some (content, []) => some content
      | _ => none
    else none

/-- What a part of an identifier names: the content of a quoted identifier, or the part itself. -/
def partContent (dialect : Dialect) (part : List Char) : List Char :=
  (quotedContent? dialect part).getD part

/-- The content of a quoted identifier is read as what was written. -/
theorem readIdentifier_doubled {closing : Char} (h : rest.head? ≠ some closing) :
    readIdentifier closing (doubled closing part ++ closing :: rest) = some (part, rest) := by
  induction part with
  | nil =>
    cases rest with
    | nil => simp [doubled, readIdentifier]
    | cons d rest =>
      have hd : d ≠ closing := by simpa using h
      simp [doubled, readIdentifier, hd]
  | cons c part ih =>
    rw [doubled, List.flatMap_cons, ← doubled]
    by_cases hc : c = closing
    · simp [hc, readIdentifier, ih, pushContent]
    · obtain ⟨d, cs, hcons⟩ : ∃ d cs, doubled closing part ++ closing :: rest = d :: cs :=
        List.exists_cons_of_ne_nil (by simp)
      rw [hcons] at ih
      rw [if_neg hc, List.singleton_append, List.cons_append, hcons, readIdentifier, if_neg hc, ih]
      rfl

@[simp] theorem quotedContent?_quotePart (dialect : Dialect) (part : List Char) :
    quotedContent? dialect (quotePart dialect part) = some part := by
  have hquote : quotePart dialect part = (identifierQuotes dialect).1 ::
      (doubled (identifierQuotes dialect).2 part ++ [(identifierQuotes dialect).2]) := rfl
  rw [hquote, quotedContent?, if_pos rfl, readIdentifier_doubled (by simp)]

/-- Only a text that begins with a quote is a quoted identifier. -/
theorem quotedContent?_of_bare (h : isQuotedPart part = false) :
    quotedContent? dialect part = none := by
  cases part with
  | nil => rfl
  | cons c cs =>
    rw [quotedContent?, if_neg]
    rintro rfl
    revert h
    cases dialect <;> simp [isQuotedPart, identifierQuotes]

/-! ### Parts -/

/-- A word of letters, digits and underscores that does not begin with an ASCII digit and is no
reserved word of the dialect, in any case. -/
structure BareWord (dialect : Dialect) (part : List Char) : Prop where
  ne_nil : part ≠ []
  chars : ∀ c ∈ part, isAlphanumeric c = true ∨ c = '_'
  start : ∀ c ∈ part.head?, c.isDigit = false
  unreserved : ∀ word ∈ reservedWords dialect, sameAscii part word.toList = false

/-- Reserved words are listed in capitals. -/
theorem upperAscii_of_mem_reservedWords {word : String} (h : word ∈ reservedWords dialect) :
    upperAscii word.toList = word.toList := by
  have hall : ∀ word ∈ reservedWords dialect, word.toList.map Char.toUpper = word.toList := by
    cases dialect <;> decide +kernel
  exact hall word h

/-- A reserved word is recognised in any case. -/
theorem isReserved_of_sameAscii {word : String} (hword : word ∈ reservedWords dialect)
    (h : sameAscii part word.toList = true) : isReserved dialect part = true := by
  rw [isReserved, upperAscii_eq_of_sameAscii h, upperAscii_of_mem_reservedWords hword,
    String.ofList_toList]
  exact List.contains_iff_mem.2 hword

theorem bareWord_of_isPlainPart (hplain : isPlainPart part = true)
    (hfree : isReserved dialect part = false) : BareWord dialect part := by
  simp only [isPlainPart, Bool.and_eq_true, Bool.not_eq_true', List.isEmpty_eq_false_iff,
    List.all_eq_true, Bool.or_eq_true, beq_iff_eq] at hplain
  refine ⟨hplain.1.1, hplain.1.2, fun c hc => ?_, fun word hword => ?_⟩
  · have hstart := hplain.2
    rw [Option.mem_def.1 hc] at hstart
    simpa using hstart
  · rw [Bool.eq_false_iff]
    intro hsame
    rw [isReserved_of_sameAscii hword hsame] at hfree
    contradiction

/-- A quoted part begins with a quote. -/
theorem isQuotedPart_quotePart (dialect : Dialect) (part : List Char) :
    isQuotedPart (quotePart dialect part) = true := by
  cases dialect <;> rfl

/-- A part that has been escaped stays. -/
@[simp] theorem escapePart_escapePart (dialect : Dialect) (part : List Char) :
    escapePart dialect (escapePart dialect part) = escapePart dialect part := by
  by_cases h : (isQuotedPart part || (isPlainPart part && !isReserved dialect part)) = true
  · have hstays : escapePart dialect part = part := if_pos h
    rw [hstays, hstays]
  · have hquoted : escapePart dialect part = quotePart dialect part := if_neg h
    rw [hquoted, escapePart, isQuotedPart_quotePart, Bool.true_or, if_pos rfl]

/-- Quoting puts no dot into a part. -/
theorem dot_not_mem_escapePart (h : '.' ∉ part) : '.' ∉ escapePart dialect part := by
  have hquotes : '.' ≠ (identifierQuotes dialect).1 ∧ '.' ≠ (identifierQuotes dialect).2 := by
    cases dialect <;> decide
  have hdoubled : '.' ∉ doubled (identifierQuotes dialect).2 part := by
    intro hmem
    obtain ⟨c, hc, hdot⟩ := List.mem_flatMap.1 hmem
    split at hdot
    · exact hquotes.2 (by simpa using hdot)
    · exact h ((List.mem_singleton.1 hdot) ▸ hc)
  rw [escapePart]
  split
  · exact h
  · simp [quotePart, hquotes, hdoubled]

/-- What a part that begins with no quote becomes: a bare word, which is the part itself, or the
quoted identifier with the part as its content. -/
theorem escapePart_reads (h : isQuotedPart part = false) :
    BareWord dialect (escapePart dialect part) ∧ escapePart dialect part = part ∨
      quotedContent? dialect (escapePart dialect part) = some part := by
  rw [escapePart, h, Bool.false_or]
  split
  · rename_i hstays
    obtain ⟨hplain, hfree⟩ := Bool.and_eq_true_iff.1 hstays
    exact Or.inl ⟨bareWord_of_isPlainPart hplain (by simpa using hfree), rfl⟩
  · exact Or.inr (quotedContent?_quotePart dialect part)

theorem partContent_escapePart (h : isQuotedPart part = false) :
    partContent dialect (escapePart dialect part) = part := by
  rcases @escapePart_reads dialect _ h with ⟨-, hstays⟩ | hquoted
  · rw [hstays, partContent, quotedContent?_of_bare h, Option.getD_none]
  · rw [partContent, hquoted, Option.getD_some]

/-! ### Names -/

/-- The dotted parts of a name. -/
def nameParts (name : String) : List (List Char) :=
  name.toList.splitOn '.'

/-- A name none of whose parts begins with a quote. -/
def Unquoted (name : String) : Prop :=
  ∀ part ∈ nameParts name, isQuotedPart part = false

instance (name : String) : Decidable (Unquoted name) :=
  inferInstanceAs (Decidable (∀ part ∈ _, _))

/-- No dot is left in the parts of a text. -/
theorem dot_not_mem_of_mem_splitOn {text : List Char} (h : part ∈ text.splitOn '.') :
    '.' ∉ part := by
  induction text generalizing part with
  | nil => simp_all
  | cons c text ih =>
    rw [List.splitOn_cons_eq_if_modifyHead] at h
    split at h
    · rcases List.mem_cons.1 h with rfl | h
      · exact List.not_mem_nil
      · exact ih h
    · rename_i hc
      have hdot : '.' ≠ c := fun heq => hc (beq_iff_eq.2 heq.symm)
      obtain ⟨first, parts, hparts⟩ := List.exists_cons_of_ne_nil (List.splitOn_ne_nil '.' text)
      rw [hparts] at h ih
      rcases List.mem_cons.1 h with rfl | h
      · simp [hdot, ih List.mem_cons_self]
      · exact ih (List.mem_cons_of_mem _ h)

/-- A name is made up of its parts. -/
theorem nameParts_inj {name other : String} (h : nameParts name = nameParts other) :
    name = other := by
  have hjoin : ∀ text : String, ['.'].intercalate (nameParts text) = text.toList := fun text =>
    List.intercalate_splitOn '.'
  rw [← String.toList_inj, ← hjoin name, h, hjoin other]

/-- The parts of an escaped name are the escaped parts of the name. -/
theorem nameParts_escapeIdentifier (dialect : Dialect) (name : String) :
    nameParts (escapeIdentifier dialect name) = (nameParts name).map (escapePart dialect) := by
  rw [nameParts, escapeIdentifier, String.toList_ofList, escapeChars, ← nameParts]
  refine List.splitOn_intercalate '.' ?_ (by simp [nameParts])
  intro part hpart
  obtain ⟨raw, hraw, rfl⟩ := List.mem_map.1 hpart
  exact dot_not_mem_escapePart (dot_not_mem_of_mem_splitOn hraw)

/-- The parts of a name can be read off the escaped name, if none of them begins with a quote. -/
theorem map_partContent_nameParts {name : String} (h : Unquoted name) :
    (nameParts (escapeIdentifier dialect name)).map (partContent dialect) = nameParts name := by
  rw [nameParts_escapeIdentifier, List.map_map]
  calc (nameParts name).map (partContent dialect ∘ escapePart dialect)
      = (nameParts name).map id :=
        List.map_congr_left fun part hpart => partContent_escapePart (h part hpart)
    _ = nameParts name := List.map_id _

/-- Escaping a name twice is escaping it once.  If no part of a name begins with a quote, each part
of the escaped name is a bare word or one quoted identifier, their contents are the parts of the
name, and no other such name is escaped to the same text. -/
theorem escapeIdentifier_reads (dialect : Dialect) (name : String) :
    escapeIdentifier dialect (escapeIdentifier dialect name) = escapeIdentifier dialect name ∧
      (Unquoted name →
        (∀ part ∈ nameParts (escapeIdentifier dialect name),
          BareWord dialect part ∨ ∃ content, quotedContent? dialect part = some content) ∧
        (nameParts (escapeIdentifier dialect name)).map (partContent dialect) = nameParts name ∧
        ∀ other, Unquoted other →
          escapeIdentifier dialect other = escapeIdentifier dialect name → other = name) := by
  refine ⟨?_, fun hname => ⟨?_, map_partContent_nameParts hname, ?_⟩⟩
  · apply nameParts_inj
    simp only [nameParts_escapeIdentifier, List.map_map, Function.comp_def, escapePart_escapePart]
  · intro part hpart
    rw [nameParts_escapeIdentifier] at hpart
    obtain ⟨raw, hraw, rfl⟩ := List.mem_map.1 hpart
    exact (escapePart_reads (hname raw hraw)).imp And.left fun h => ⟨raw, h⟩
  · intro other hother heq
    apply nameParts_inj
    rw [← @map_partContent_nameParts dialect _ hother, heq, map_partContent_nameParts hname]

/-- A reserved word and a part with a bracket in it stand in brackets and are read back from
there. -/
theorem escapeIdentifier_reads_order :
    Unquoted "sales.Order.a]b" ∧
      escapeIdentifier .sqlServer "sales.Order.a]b" = "sales.[Order].[a]]b]" ∧
      escapeIdentifier .sqlServer "sales.[Order].[a]]b]" = "sales.[Order].[a]]b]" ∧
      (nameParts "sales.[Order].[a]]b]").map (partContent .sqlServer) =
        nameParts "sales.Order.a]b" := by
  have hunquoted : Unquoted "sales.Order.a]b" := by decide +kernel
  have hescaped : escapeIdentifier .sqlServer "sales.Order.a]b" = "sales.[Order].[a]]b]" := by
    decide +kernel
  obtain ⟨htwice, hreads⟩ := escapeIdentifier_reads .sqlServer "sales.Order.a]b"
  have hparts := (hreads hunquoted).2.1
  rw [hescaped] at htwice hparts
  exact ⟨hunquoted, hescaped, htwice, hparts⟩

end AskSql.Sql
