import AskSql.Proofs.Condition.Joined
import AskSql.Proofs.Idiom.Names
import AskSql.Proofs.Text.Case

/-! Names in a condition.  A name that is read as words and quoted texts, none of them a keyword,
stands in an atom wherever it stands, and what comes next is read as if it came first.  The column
of an attribute is such a name as a statement has it, unless a part of it that the configuration has
quoted is quoted in another way than the dialect quotes. -/

namespace AskSql.Sql

open Text

variable {dialect : Dialect} {reader : Reader} {text front back : List Char} {t : Token}
  {ts us : List Token} {level : Level}

/-! ### Tokens of an atom -/

/-- Whether a token opens and closes nothing and reads none of the keywords in `keys`. -/
def Token.isApart (keys : List String) (t : Token) : Bool :=
  t != .mark '(' && t != .mark ')' && keys.all fun key => !t.reads key

/-- Whether a token belongs to an atom wherever it stands. -/
def Token.isPlain (t : Token) : Bool :=
  t.isApart ["or", "and", "between", "not"]

/-- Whether a token belongs to an atom where it is not the first. -/
def Token.isInner (t : Token) : Bool :=
  t.isApart ["or", "and", "between"]

theorem Token.isInner_of_isPlain (h : t.isPlain = true) : t.isInner = true := by
  simp only [isPlain, isInner, isApart, List.all_cons, List.all_nil, Bool.and_eq_true] at h ⊢
  tauto

/-- Tokens between which no connective counts and which leave the level as it is. -/
structure Contained (ts : List Token) : Prop where
  after : ∀ level, after? level ts = some level
  cut : ∀ level, ∀ key ∈ ["or", "and"], cut? key level ts = none

theorem contained_nil : Contained [] :=
  ⟨fun _ => rfl, fun _ _ _ => rfl⟩

theorem Contained.append (h : Contained ts) (h' : Contained us) : Contained (ts ++ us) where
  after level := by rw [after?_append, h.after, Option.bind_some, h'.after]
  cut level key hkey := by
    rw [cut?_append (h.cut level key hkey) (h.after level), h'.cut level key hkey]
    rfl

theorem contained_of_isInner (h : t.isInner = true) : Contained [t] := by
  simp only [Token.isInner, Token.isApart, List.all_cons, List.all_nil, Bool.and_eq_true,
    bne_iff_ne, Bool.not_eq_true'] at h
  obtain ⟨⟨hopen, hclose⟩, hor, hand, hbetween, -⟩ := h
  have hnext : ∀ level : Level, level.next t = some level := fun level => by
    simp [Level.next, depthAfter, waitsAfter, hopen, hclose, hand, hbetween]
  refine ⟨fun level => by rw [after?_cons, hnext]; rfl, fun level key hkey => ?_⟩
  have hkey : t.reads key = false := by
    rcases List.mem_pair.1 hkey with rfl | rfl
    · exact hor
    · exact hand
  exact cut?_eq_none (by simpa using hkey)

theorem contained_of_forall (h : ∀ t ∈ ts, t.isInner = true) : Contained ts := by
  induction ts with
  | nil => exact contained_nil
  | cons t ts ih =>
    obtain ⟨ht, hts⟩ := List.forall_mem_cons.1 h
    exact (contained_of_isInner ht).append (ih hts)

theorem Contained.parenthesized (h : Contained ts) :
    Contained (.mark '(' :: (ts ++ [.mark ')'])) := by
  have hopen : ∀ level : Level, level.next (.mark '(') = some ⟨level.depth + 1, level.between⟩ := by
    intro level
    by_cases hdepth : level.depth = 0 <;>
      simp [Level.next, depthAfter, waitsAfter, Token.reads, hdepth]
  have hclose : ∀ level : Level,
      Level.next ⟨level.depth + 1, level.between⟩ (.mark ')') = some level := fun _ => rfl
  refine ⟨fun level => ?_, fun level key hkey => ?_⟩
  · rw [after?_cons, hopen, Option.bind_some, after?_append, h.after, Option.bind_some, after?_cons,
      hclose]
    rfl
  · rw [cut?, if_neg (by simp [Token.reads]), hopen]
    simp only
    rw [cut?_append (h.cut _ key hkey) (h.after _), cut?, if_neg (by simp), hclose]
    rfl

/-- An atom begins with a token of its own. -/
theorem parses_atom (ht : t.isPlain = true) (h : Contained (t :: ts)) :
    Parses (t :: ts) (.atom (t :: ts)) := by
  have hcut := h.cut {}
  simp only [Token.isPlain, Token.isApart, List.all_cons, List.all_nil, Bool.and_eq_true,
    bne_iff_ne, Bool.not_eq_true'] at ht
  obtain ⟨⟨hopen, -⟩, -, -, -, hnot, -⟩ := ht
  exact .atom
    (split_atom_iff.2 ⟨hcut "or" (by simp), hcut "and" (by simp), by simp [negated?, hnot],
    by simp [group?, hopen]⟩) (by simp) (h.after {})

/-- Tokens that stand in an atom wherever they stand. -/
structure Operand (ts : List Token) : Prop where
  ne_nil : ts ≠ []
  plain : ∀ t ∈ ts, t.isPlain = true

theorem Operand.contained (h : Operand ts) : Contained ts :=
  contained_of_forall fun t ht => Token.isInner_of_isPlain (h.plain t ht)

/-! ### Texts that stand by themselves -/

/-- The last token that a reader has read, if it ends where no word and no quotes go on. -/
inductive Reader.Ends : Reader → Token → Prop
  | word (text : List Char) : Ends (.word text) (.word text.reverse)
  | shut (close : Char) (text : List Char) : Ends (.shut close text) (.quoted text.reverse)

/-- Whether `c` ends the words and quoted texts before it. -/
def isEnding (c : Char) : Bool :=
  !isNamePart c && !(['\'', '"', '`', ']'].contains c)

theorem Reader.Ends.rest? {last : Token} (h : reader.Ends last) : reader.rest? = some [last] := by
  cases h <;> rfl

/-- Behind a token that has ended, a character is read as if it came first. -/
theorem Reader.Ends.next {last : Token} {c : Char} (h : reader.Ends last)
    (hbehind : Behind front reader) (hc : isEnding c = true) :
    reader.next dialect c = (last :: (enter dialect none c).1, (enter dialect none c).2) := by
  rw [isEnding, Bool.and_eq_true, Bool.not_eq_true', Bool.not_eq_true'] at hc
  cases h with
  | word text => rw [Reader.next, if_neg (by simp [hc.1])]
  | shut close text =>
    have hne : c ≠ close := by
      rintro rfl
      rw [List.contains_iff_mem.2 hbehind.1] at hc
      exact absurd hc.2 (by decide)
    rw [Reader.next, if_neg hne]

/-- A text that is read in the same way behind every mark and blank, as an operand. -/
structure Stands (dialect : Dialect) (text : List Char) (done : List Token) (last : Token) :
    Prop where
  reads : ∃ reader : Reader, reader.Ends last ∧
    ∀ before, (Reader.code before).read dialect text = (done, reader)
  plain : ∀ t ∈ done ++ [last], t.isPlain = true

namespace Stands

variable {done : List Token} {last : Token}

theorem operand (h : Stands dialect text done last) : Operand (done ++ [last]) :=
  ⟨by simp, h.plain⟩

theorem tokens?_code (h : Stands dialect text done last) (before : Option Char) :
    (Reader.code before).tokens? dialect text = some (done ++ [last]) := by
  obtain ⟨reader, hends, hread⟩ := h.reads
  rw [Reader.tokens?, hread before, hends.rest?]
  rfl

theorem tokens?_eq (h : Stands dialect text done last) :
    tokens? dialect text = some (done ++ [last]) :=
  h.tokens?_code none

/-- What a reader makes of such a text and what comes next. -/
theorem read_append (h : Stands dialect text done last) (before : Option Char) {c : Char}
    (hc : isEnding c = true) :
    (Reader.code before).read dialect (text ++ [c]) =
      (done ++ last :: (Reader.enter dialect none c).1, (Reader.enter dialect none c).2) := by
  obtain ⟨reader, hends, hread⟩ := h.reads
  have hbehind : reader.Behind text := by
    have hstart := @Reader.behind_start dialect text
    rwa [hread none] at hstart
  rw [Reader.read_append, hread before, Reader.read, hends.next hbehind hc]
  simp

theorem tokens?_append (h : Stands dialect text done last) (before : Option Char) {c : Char}
    (hc : isEnding c = true) (back : List Char) :
    (Reader.code before).tokens? dialect (text ++ c :: back) =
      ((Reader.enter dialect none c).2.tokens? dialect back).map
        (done ++ [last] ++ (Reader.enter dialect none c).1 ++ ·) := by
  have hsplit : text ++ c :: back = (text ++ [c]) ++ back := by simp
  rw [hsplit, Reader.tokens?_append, h.read_append before hc]
  simp

/-- Two such texts with a dot between them are one. -/
theorem dot {more : List Token} {final : Token} (h : Stands dialect front done last)
    (h' : Stands dialect back more final) :
    Stands dialect (front ++ '.' :: back) (done ++ last :: .mark '.' :: more) final := by
  obtain ⟨reader, hends, hread⟩ := h'.reads
  have hdot : Reader.enter dialect none '.' = ([.mark '.'], .code (some '.')) :=
    enter_separatorMark (by decide) dialect none
  refine ⟨⟨reader, hends, fun before => ?_⟩, ?_⟩
  · have hsplit : front ++ '.' :: back = (front ++ ['.']) ++ back := by simp
    rw [hsplit, Reader.read_append, h.read_append before (by decide), hdot, hread]
    simp
  · have hplain := h.plain
    have hplain' := h'.plain
    simp only [List.mem_append, List.mem_cons] at hplain hplain' ⊢
    rintro t ((ht | rfl | rfl | ht) | ht)
    · exact hplain t (Or.inl ht)
    · exact hplain t (Or.inr (Or.inl rfl))
    · decide
    · exact hplain' t (Or.inl ht)
    · exact hplain' t (Or.inr ht)

end Stands

/-! ### Names -/

/-- Whether what begins with `c` is read in the same way behind every mark. -/
theorem enter_eq {c : Char} (h : isNamePart c = true ∨ closing? dialect c ≠ none)
    (before : Option Char) : Reader.enter dialect before c = Reader.enter dialect none c := by
  rw [Reader.enter, Reader.enter]
  split
  · rfl
  · rename_i hname
    obtain ⟨close, hclose⟩ := Option.ne_none_iff_exists'.1 (h.resolve_left hname)
    rw [hclose]

theorem read_eq {c : Char} (h : isNamePart c = true ∨ closing? dialect c ≠ none)
    (before : Option Char) : (Reader.code before).read dialect (c :: text) =
      (Reader.code none).read dialect (c :: text) := by
  rw [Reader.read, Reader.read, Reader.next, Reader.next, enter_eq h]

/-- Whether a name consists of words and quoted texts that are no keywords, from its first character
to its last. -/
def isOperandName (dialect : Dialect) (name : List Char) : Bool :=
  name.head?.any isNamePart &&
    match (Reader.code none).read dialect name with
    | (done, .word last) => (done ++ [Token.word last.reverse]).all (·.isPlain)
    | _ => false

theorem stands_of_isOperandName (h : isOperandName dialect text = true) :
    ∃ done last, Stands dialect text done last := by
  rw [isOperandName, Bool.and_eq_true] at h
  obtain ⟨hhead, h⟩ := h
  obtain ⟨c, rest, rfl⟩ : ∃ c rest, text = c :: rest := by
    cases text with
    | nil => contradiction
    | cons c rest => exact ⟨c, rest, rfl⟩
  split at h
  · rename_i done last hread
    refine ⟨done, .word last.reverse, ⟨_, .word last, fun before => ?_⟩, ?_⟩
    · rw [read_eq (Or.inl (by simpa using hhead)), hread]
    · exact List.all_eq_true.1 h
  · contradiction

/-- Whether a text is read as one quoted text. -/
def isQuotedText (dialect : Dialect) (text : List Char) : Bool :=
  match (Reader.code none).read dialect text with
  | ([], .shut _ _) => true
  | _ => false

/-- Each part of a physical name that begins with a quote is one quoted text in the dialect. -/
def WellQuoted (dialect : Dialect) (name : String) : Prop :=
  ∀ part ∈ name.toList.splitOn '.', isQuotedPart part = true → isQuotedText dialect part = true

instance (dialect : Dialect) (name : String) : Decidable (WellQuoted dialect name) :=
  inferInstanceAs (Decidable (∀ part ∈ _, _))

theorem toUpper_fold {c : Char} (hs : fold c ≠ 's') (hk : fold c ≠ 'k') :
    (fold c).toUpper = c.toUpper := by
  unfold fold at hs hk ⊢
  split
  · simp_all
  · split
    · simp_all
    · exact toUpper_toLower c

/-- A word that is not reserved is no keyword. -/
theorem isPlain_of_unreserved {part : List Char} (h : isReserved dialect part = false) :
    (Token.word part).isPlain = true := by
  have hkeys : ∀ key ∈ ["or", "and", "between", "not"], (Token.word part).reads key = false := by
    intro key hkey
    by_contra hreads
    have hfold : part.map fold = key.toList := by simpa [Token.reads] using hreads
    have hall : ∀ key ∈ ["or", "and", "between", "not"], 's' ∉ key.toList ∧ 'k' ∉ key.toList ∧
        (reservedWords dialect).contains (String.ofList (key.toList.map Char.toUpper)) = true := by
      cases dialect <;> decide
    obtain ⟨hs, hk, hreserved⟩ := hall key hkey
    have hupper : upperAscii part = key.toList.map Char.toUpper := by
      rw [← hfold, List.map_map]
      refine List.map_congr_left fun c hc => (toUpper_fold ?_ ?_).symm
      · rintro heq
        exact hs (hfold ▸ heq ▸ List.mem_map_of_mem hc)
      · rintro heq
        exact hk (hfold ▸ heq ▸ List.mem_map_of_mem hc)
    rw [isReserved, hupper, hreserved] at h
    contradiction
  simp only [List.forall_mem_cons] at hkeys
  simp [Token.isPlain, Token.isApart, hkeys]

theorem exists_of_isQuotedPart {part : List Char} (h : isQuotedPart part = true) :
    ∃ c rest, part = c :: rest ∧ c ∈ ['[', '"', '`'] := by
  cases part with
  | nil => contradiction
  | cons c rest => exact ⟨c, rest, rfl, by simpa [isQuotedPart, or_assoc] using h⟩

/-- A quoted text stands by itself. -/
theorem stands_of_isQuotedText {c : Char} (hc : c ∈ ['[', '"', '`'])
    (h : isQuotedText dialect (c :: text) = true) :
    ∃ done last, Stands dialect (c :: text) done last := by
  have hall : ∀ d ∈ ['[', '"', '`'], isNamePart d = false ∧ isBlank d = false ∧
      d ≠ '#' := by decide
  obtain ⟨hname, hblank, hsharp⟩ := hall c hc
  rw [isQuotedText] at h
  split at h
  · rename_i close content hread
    -- A character that opens no quotes in the dialect would be a mark of its own.
    have hopens : closing? dialect c ≠ none := by
      intro hnone
      rw [Reader.read, Reader.next, Reader.enter, hname, hnone] at hread
      simp [beginsComment, hblank, hsharp] at hread
    refine ⟨[], .quoted content.reverse, ⟨_, .shut close content, fun before => ?_⟩, ?_⟩
    · rw [read_eq (Or.inr hopens), hread]
    · simp [Token.isPlain, Token.isApart, Token.reads]
  · contradiction

/-- A quoted text is one token. -/
theorem tokens?_of_isQuotedText (h : isQuotedText dialect text = true) :
    ∃ content, tokens? dialect text = some [.quoted content] := by
  rw [isQuotedText] at h
  split at h
  · rename_i close content hread
    exact ⟨content.reverse, by rw [tokens?, Reader.tokens?, hread]; rfl⟩
  · contradiction

/-- A text with its closing quotes written twice is one quoted text between quotes. -/
theorem isQuotedText_doubled {opening close : Char} {content : List Char}
    (hname : isNamePart opening = false) (hclose : closing? dialect opening = some close)
    (h : Escapes dialect close → '\\' ∉ content) :
    isQuotedText dialect (opening :: doubled close content ++ [close]) = true := by
  have hread : (Reader.code none).read dialect (opening :: doubled close content ++ [close]) =
      ([], .shut close (close :: ((doubled close content).reverse ++ [opening]))) := by
    rw [List.cons_append, Reader.read, Reader.next, Reader.enter, hname, hclose]
    simp only [Bool.false_eq_true, if_false]
    rw [Reader.read_append, Reader.read_doubled h]
    simp [Reader.read, Reader.next]
  rw [isQuotedText, hread]

theorem isQuotedText_quotePart (dialect : Dialect) (part : List Char) :
    isQuotedText dialect (quotePart dialect part) = true := by
  have hquotes : ∃ opening close, identifierQuotes dialect = (opening, close) ∧
      isNamePart opening = false ∧ closing? dialect opening = some close ∧
      ¬Escapes dialect close := by
    cases dialect <;> exact ⟨_, _, rfl, by decide, by decide, by decide⟩
  obtain ⟨opening, close, heq, hname, hclose, hescapes⟩ := hquotes
  rw [quotePart, heq]
  exact isQuotedText_doubled hname hclose fun h => absurd h hescapes

theorem stands_word {word : List Char} (hne : word ≠ []) (hchars : ∀ c ∈ word, isNamePart c = true)
    (hplain : (Token.word word).isPlain = true) : Stands dialect word [] (.word word) := by
  obtain ⟨c, rest, rfl⟩ := List.exists_cons_of_ne_nil hne
  obtain ⟨hc, hrest⟩ := List.forall_mem_cons.1 hchars
  have hread : (Reader.code none).read dialect (c :: rest) = ([], .word (c :: rest).reverse) := by
    rw [Reader.read, Reader.next, Reader.enter, if_pos hc, Reader.read_word hrest]
    simp
  refine ⟨⟨.word (c :: rest).reverse, ?_, fun before => by rw [read_eq (Or.inl hc), hread]⟩,
    by simpa⟩
  have hends := Reader.Ends.word (c :: rest).reverse
  rwa [List.reverse_reverse] at hends

/-- A part of a physical name stands by itself as a statement has it. -/
theorem stands_escapePart {part : List Char}
    (h : isQuotedPart part = true → isQuotedText dialect part = true) :
    ∃ done last, Stands dialect (escapePart dialect part) done last := by
  rw [escapePart]
  split
  · rename_i hkept
    rcases Bool.or_eq_true_iff.1 hkept with hquoted | hplain
    · obtain ⟨c, rest, rfl, hc⟩ := exists_of_isQuotedPart hquoted
      exact stands_of_isQuotedText hc (h hquoted)
    · obtain ⟨hplain, hreserved⟩ := Bool.and_eq_true_iff.1 hplain
      simp only [isPlainPart, Bool.and_eq_true, Bool.not_eq_true', List.isEmpty_eq_false_iff,
        List.all_eq_true] at hplain
      refine ⟨_, _, stands_word hplain.1.1 (fun c hc => ?_)
        (isPlain_of_unreserved (by simpa using hreserved))⟩
      rcases Bool.or_eq_true_iff.1 (hplain.1.2 c hc) with halpha | hline
      · rw [isNamePart, halpha, Bool.or_true]
      · rw [eq_of_beq hline]
        decide
  · have hquoted : ∃ c rest, quotePart dialect part = c :: rest ∧ c ∈ ['[', '"', '`'] := by
      cases dialect <;> exact ⟨_, _, rfl, by decide⟩
    obtain ⟨c, rest, heq, hc⟩ := hquoted
    rw [heq]
    exact stands_of_isQuotedText hc (heq ▸ isQuotedText_quotePart dialect part)

theorem stands_intercalate {parts : List (List Char)} (hne : parts ≠ [])
    (h : ∀ part ∈ parts, ∃ done last, Stands dialect part done last) :
    ∃ done last, Stands dialect (['.'].intercalate parts) done last := by
  induction parts with
  | nil => contradiction
  | cons part parts ih =>
    obtain ⟨⟨done, last, hpart⟩, hparts⟩ := List.forall_mem_cons.1 h
    cases parts with
    | nil => exact ⟨done, last, by simpa using hpart⟩
    | cons next parts =>
      obtain ⟨more, final, hmore⟩ := ih (by simp) hparts
      exact ⟨_, _, by simpa using hpart.dot hmore⟩

/-- The column of an attribute stands by itself as a statement has it. -/
theorem stands_escapeChars {name : String} (h : WellQuoted dialect name) :
    ∃ done last, Stands dialect (escapeChars dialect name.toList) done last := by
  refine stands_intercalate (by simp) fun part hpart => ?_
  obtain ⟨raw, hraw, rfl⟩ := List.mem_map.1 hpart
  exact stands_escapePart (h raw hraw)

/-- A text that begins an atom and stays within it. -/
def Leads (dialect : Dialect) (text : List Char) : Prop :=
  ∃ t ts, tokens? dialect text = some (t :: ts) ∧ t.isPlain = true ∧ Contained (t :: ts)

/-- A column whose quoted parts are quoted as the dialect quotes begins an atom. -/
theorem leads_column {name : String} (h : WellQuoted dialect name) :
    Leads dialect (escapeIdentifier dialect name).toList := by
  obtain ⟨done, last, hstands⟩ := stands_escapeChars h
  have htokens := hstands.tokens?_eq
  have hoperand := hstands.operand
  obtain ⟨t, ts, heq⟩ := List.exists_cons_of_ne_nil hoperand.ne_nil
  rw [heq] at htokens hoperand
  rw [escapeIdentifier, String.toList_ofList]
  exact ⟨t, ts, htokens, hoperand.plain t (by simp), hoperand.contained⟩

end AskSql.Sql
