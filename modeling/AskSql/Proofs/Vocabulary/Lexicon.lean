import AskSql.Proofs.Compiler.Fresh
import AskSql.Proofs.Vocabulary.Scan

/-! A resolver and the dictionary that it reads from, through any run of requests and of terms put
straight into the dictionary.  The dictionary only grows, and the index in use is that of the
dictionary as it was at some earlier time.  So a term that the resolver has added names its phrase
from then on.  A phrase that is refused as known already need not be known: the dictionary may hold
it as an alias of a term that no index keeps. -/

namespace AskSql.Vocabulary

/-! ### Kept terms of a longer list -/

section
variable {schema : Schema} {terms more : List Term} {term : Term} {key : String}

/-- What a normal form names among the kept terms is the first that it names at all. -/
theorem find?_foldl_keep (hkey : key.isEmpty = false) (terms kept : List Term) :
    (terms.foldl keep kept).find? (·.isNamed key) =
      (kept.find? (·.isNamed key)).or (terms.find? (·.isNamed key)) := by
  induction terms generalizing kept with
  | nil => simp
  | cons term terms ih =>
    rw [List.foldl_cons, ih, keep, List.find?_cons]
    cases hnamed : term.isNamed key with
    | false =>
      split
      · rfl
      · simp [List.find?_append, hnamed]
    | true =>
      have hname : normalize term.canonical = key := by simpa [Term.isNamed] using hnamed
      have hblank : isBlankText term.canonical = false := by
        rw [← normalize_isEmpty, hname, hkey]
      rw [hname, hblank, Bool.false_or]
      cases hkept : kept.find? (·.isNamed key) with
      | none =>
        have hany : ¬kept.any (·.isNamed key) = true := by
          simpa [List.find?_eq_none] using hkept
        simp [hany, List.find?_append, hkept, hnamed]
      | some first =>
        have hfirst := List.find?_some hkept
        have hany : kept.any (·.isNamed key) = true :=
          List.any_eq_true.2 ⟨first, List.mem_of_find?_eq_some hkept, hfirst⟩
        simp [hany, hkept]

/-- Further terms change nothing about what a normal form leads to, unless they are named by it. -/
theorem termFor?_append (h : termFor? terms key = some term)
    (hmore : ∀ other ∈ more, other.isNamed key = false) :
    termFor? (terms ++ more) key = some term := by
  rw [termFor?] at h ⊢
  split at h
  · contradiction
  · have hnone : more.find? (·.isNamed key) = none := by simpa [List.find?_eq_none] using hmore
    rw [if_neg ‹_›, List.find?_append, List.find?_append, hnone, Option.or_none,
      Option.or_eq_some_iff]
    rcases Option.or_eq_some_iff.1 h with h | ⟨hno, h⟩
    · exact Or.inl h
    · exact Or.inr ⟨hno, by rw [h, Option.some_or]⟩

@[simp] theorem isNamed_located (schema : Schema) (term : Term) (key : String) :
    (located schema term).isNamed key = term.isNamed key :=
  rfl

/-- A longer dictionary keeps what a shorter one does. -/
theorem keptTerms_append (schema : Schema) (records later : List Term) :
    ∃ more, more.Sublist (later.map (located schema)) ∧
      keptTerms schema (records ++ later) = keptTerms schema records ++ more := by
  obtain ⟨more, hmore, heq⟩ := foldl_keep_eq (later.map (located schema)) (keptTerms schema records)
  refine ⟨more, hmore, ?_⟩
  rw [← heq, keptTerms, keptTerms, List.map_append, ← List.append_assoc, List.foldl_append]

theorem isKnown_mono {seen records : List Term} (hseen : seen <+: records)
    (h : isKnown schema seen key = true) : isKnown schema records key = true := by
  obtain ⟨later, rfl⟩ := hseen
  obtain ⟨more, -, hkept⟩ := keptTerms_append schema seen later
  show (keptTerms schema (seen ++ later)).any (·.goesBy key) = true
  have hold : (keptTerms schema seen).any (·.goesBy key) = true := h
  rw [hkept, List.any_append, hold, Bool.true_or]

/-- Whether neither the schema nor a list of dictionary terms has a term that a normal form names.
-/
def Unnamed (schema : Schema) (records : List Term) (key : String) : Prop :=
  ∀ term ∈ schemaTerms schema ++ records.map (located schema), term.isNamed key = false

/-- A normal form that is not known names no term, kept or not. -/
theorem unnamed_of_isKnown_eq_false {records : List Term} (hkey : key.isEmpty = false)
    (hknown : isKnown schema records key = false) : Unnamed schema records key := by
  intro term hterm
  cases hnamed : term.isNamed key with
  | false => rfl
  | true =>
    obtain ⟨first, hfirst, hname⟩ := List.any_eq_true.1
      (any_isNamed_foldl_keep hkey (List.any_eq_true.2 ⟨term, hterm, hnamed⟩))
    have hgoes : isKnown schema records key = true :=
      List.any_eq_true.2 ⟨first, hfirst, by simp [Term.goesBy_eq, hname]⟩
    rw [hknown] at hgoes
    exact Bool.noConfusion hgoes

theorem unnamed_of_not_known {seen records : List Term} (hkey : key.isEmpty = false)
    (hknown : isKnown schema seen key = false)
    (hrecords : ∀ term ∈ records, term.isNamed key = false) : Unnamed schema records key := by
  intro term hterm
  rcases List.mem_append.1 hterm with hterm | hterm
  · exact unnamed_of_isKnown_eq_false hkey hknown term (List.mem_append_left _ hterm)
  · obtain ⟨record, hrecord, rfl⟩ := List.mem_map.1 hterm
    exact hrecords record hrecord

/-- A term that is the first to be named by a normal form stays the first, whatever comes later. -/
theorem find?_of_unnamed {records : List Term} (hnew : Unnamed schema records key)
    (hnamed : term.isNamed key = true) (later : List Term) :
    (schemaTerms schema ++ (records ++ term :: later).map (located schema)).find? (·.isNamed key) =
      some (located schema term) := by
  have hnone :
      (schemaTerms schema ++ records.map (located schema)).find? (·.isNamed key) = none :=
    List.find?_eq_none.2 fun other hother => by simp [hnew other hother]
  rw [List.map_append, ← List.append_assoc, List.find?_append, hnone, List.map_cons,
    List.find?_cons, isNamed_located, hnamed]
  rfl

/-- It is what the normal form leads to. -/
theorem termFor?_keptTerms {records later : List Term} (hkey : key.isEmpty = false)
    (hnew : Unnamed schema records key) (hnamed : term.isNamed key = true) :
    termFor? (keptTerms schema (records ++ term :: later)) key = some (located schema term) := by
  have hfind : (keptTerms schema (records ++ term :: later)).find? (·.isNamed key) =
      some (located schema term) := by
    rw [keptTerms, find?_foldl_keep hkey, find?_of_unnamed hnew hnamed]
    rfl
  rw [termFor?, if_neg (by simp [hkey]), hfind, Option.some_or]

/-- And it is one of the dictionary terms of the index. -/
theorem located_mem_dictionaryTerms {records : List Term}
    (hink : isBlankText term.canonical = false)
    (hnew : Unnamed schema records (normalize term.canonical)) (later : List Term) :
    located schema term ∈ (TermIndex.build schema (records ++ term :: later)).dictionaryTerms := by
  have hkept : located schema term ∈ keptTerms schema (records ++ term :: later) :=
    mem_foldl_keep.2 (Or.inr ⟨hink, rfl, find?_of_unnamed hnew term.isNamed_self later⟩)
  rw [← (TermIndex.dictionaryTerms_build schema _).1, List.mem_append] at hkept
  refine hkept.resolve_left fun hschema => ?_
  rw [keptTerms, List.map_nil, List.append_nil] at hschema
  rcases mem_foldl_keep.1 hschema with hnil | ⟨-, -, hfirst⟩
  · contradiction
  · have hnamed := hnew _ (List.mem_append_left _ (List.mem_of_find?_eq_some hfirst))
    rw [isNamed_located, Term.isNamed_self] at hnamed
    exact Bool.noConfusion hnamed

end

/-! ### Lexica -/

/-- A resolver and the dictionary that it reads from. -/
structure Lexicon where
  resolver : Resolver
  dictionary : Dictionary

namespace Lexicon

/-- What can be done with a lexicon.  A term that is put goes straight into the dictionary of a
tenant. -/
inductive Act
  | resolve (phrase : String)
  | knows (phrase : String)
  | terms
  | dictionaryTerms
  | add (phrase table column : String) (aggregation : Option Aggregation)
    (dateField : Option String)
  | refresh
  | put (tenant : String) (term : Term)

/-- What a phrase denotes. -/
def resolve (lexicon : Lexicon) (phrase : String) : Except Fault Term :=
  (lexicon.resolver.resolve lexicon.dictionary phrase).1

/-- Whether a phrase is known. -/
def knows (lexicon : Lexicon) (phrase : String) : Bool :=
  (lexicon.resolver.knows lexicon.dictionary phrase).1

/-- Adds a phrase for a column.  Returns whether it was added. -/
def add (lexicon : Lexicon) (phrase table column : String) (aggregation : Option Aggregation)
    (dateField : Option String) : Except Fault Bool × Lexicon :=
  let (added, resolver, dictionary) :=
    lexicon.resolver.add lexicon.dictionary phrase table column aggregation dateField
  (added, ⟨resolver, dictionary⟩)

/-- The lexicon after something has been done. -/
def after (lexicon : Lexicon) : Act → Lexicon
  | .resolve phrase => ⟨(lexicon.resolver.resolve lexicon.dictionary phrase).2, lexicon.dictionary⟩
  | .knows phrase => ⟨(lexicon.resolver.knows lexicon.dictionary phrase).2, lexicon.dictionary⟩
  | .terms => ⟨(lexicon.resolver.terms lexicon.dictionary).2, lexicon.dictionary⟩
  | .dictionaryTerms =>
    ⟨(lexicon.resolver.dictionaryTerms lexicon.dictionary).2, lexicon.dictionary⟩
  | .add phrase table column aggregation dateField =>
    (lexicon.add phrase table column aggregation dateField).2
  | .refresh => ⟨lexicon.resolver.refresh lexicon.dictionary, lexicon.dictionary⟩
  | .put tenant term => ⟨lexicon.resolver, lexicon.dictionary.add tenant term⟩

/-- The lexicon after a list of acts. -/
def afterAll (lexicon : Lexicon) (acts : List Act) : Lexicon :=
  acts.foldl after lexicon

/-- The lexicon of a schema before anything has been done. -/
def start (schema : Schema) (threshold : Rat) : Lexicon :=
  ⟨{ schema, threshold }, .empty⟩

/-- Whether a lexicon is what some acts make of an empty one. -/
def Reachable (lexicon : Lexicon) : Prop :=
  ∃ schema threshold acts, lexicon = (start schema threshold).afterAll acts

/-- The schema of a lexicon. -/
abbrev schema (lexicon : Lexicon) : Schema :=
  lexicon.resolver.schema

/-- The dictionary terms of the tenant of a lexicon. -/
def records (lexicon : Lexicon) : List Term :=
  lexicon.dictionary.terms lexicon.schema.tenant

/-- The lexicon with one more term in its dictionary and no index in use. -/
def withTerm (lexicon : Lexicon) (term : Term) : Lexicon :=
  ⟨{ lexicon.resolver with index := none }, lexicon.dictionary.add lexicon.schema.tenant term⟩

variable {lexicon : Lexicon}

@[simp] theorem records_withTerm (lexicon : Lexicon) (term : Term) :
    (lexicon.withTerm term).records = lexicon.records ++ [term] :=
  Dictionary.terms_add_self _ _ _

/-! ### What an act does -/

/-- A phrase is added unless a part of the mapping is blank, the index knows the phrase or a
dictionary term goes by it. -/
theorem add_cases (lexicon : Lexicon) (phrase table column : String)
    (aggregation : Option Aggregation) (dateField : Option String) :
    let result := lexicon.add phrase table column aggregation dateField
    ((isBlankText phrase || isBlankText table || isBlankText column) = true ∧
        result = (.error .blankMapping, lexicon)) ∨
      ((isBlankText phrase || isBlankText table || isBlankText column) = false ∧
        (lexicon.knows phrase || lexicon.records.any (·.goesBy (normalize phrase))) = true ∧
        result = (.ok false, lexicon)) ∨
      ((isBlankText phrase || isBlankText table || isBlankText column) = false ∧
        (lexicon.knows phrase || lexicon.records.any (·.goesBy (normalize phrase))) = false ∧
        result = (.ok true, lexicon.withTerm
          { canonical := trimmed phrase, table := trimmed table, column := trimmed column,
            aggregation, dateField })) := by
  simp only [add, Resolver.add, normalize_isEmpty]
  by_cases hblank : (isBlankText phrase || isBlankText table || isBlankText column) = true
  · rw [if_pos hblank]
    exact Or.inl ⟨hblank, rfl⟩
  · rw [if_neg hblank]
    rw [Bool.not_eq_true] at hblank
    by_cases hknown :
        (lexicon.knows phrase || lexicon.records.any (·.goesBy (normalize phrase))) = true
    · exact Or.inr (Or.inl ⟨hblank, hknown, by rw [if_pos]; exact hknown⟩)
    · refine Or.inr (Or.inr ⟨hblank, by simpa using hknown, ?_⟩)
      rw [if_neg]
      · rfl
      · exact hknown

/-- The index in use, if any, is that of the dictionary at a time when it began with `first`. -/
structure Since (lexicon : Lexicon) (first : List Term) : Prop where
  records : first <+: lexicon.records
  index : ∀ index ∈ lexicon.resolver.index, ∃ seen, first <+: seen ∧ seen <+: lexicon.records ∧
    index = .build lexicon.schema seen

namespace Since

variable {first : List Term}

theorem unindexed (h : lexicon.resolver.index = none) (hfirst : first <+: lexicon.records) :
    Since lexicon first :=
  ⟨hfirst, by simp [h]⟩

theorem withTerm (lexicon : Lexicon) (term : Term) :
    (lexicon.withTerm term).Since (lexicon.records ++ [term]) :=
  unindexed rfl ⟨[], by rw [List.append_nil, records_withTerm]⟩

theorem currentIndex_eq (h : lexicon.Since first) :
    ∃ seen, first <+: seen ∧ seen <+: lexicon.records ∧
      lexicon.resolver.currentIndex lexicon.dictionary = .build lexicon.schema seen := by
  rw [Resolver.currentIndex]
  cases hindex : lexicon.resolver.index with
  | none => exact ⟨lexicon.records, h.records, List.prefix_rfl, rfl⟩
  | some index => exact h.index index hindex

/-- A request that needs the index leaves the index in use. -/
theorem indexed (h : lexicon.Since first) :
    Since ⟨lexicon.resolver.indexed lexicon.dictionary, lexicon.dictionary⟩ first := by
  refine ⟨h.records, fun index hindex => ?_⟩
  obtain rfl := Option.some.inj hindex
  exact h.currentIndex_eq

theorem add (h : lexicon.Since first) (phrase table column : String)
    (aggregation : Option Aggregation) (dateField : Option String) :
    (lexicon.add phrase table column aggregation dateField).2.Since first := by
  rcases lexicon.add_cases phrase table column aggregation dateField with ⟨-, heq⟩ | ⟨-, -, heq⟩ |
    ⟨-, -, heq⟩
  · rw [heq]
    exact h
  · rw [heq]
    exact h
  · rw [heq]
    apply unindexed rfl
    rw [records_withTerm]
    exact h.records.trans (List.prefix_append _ _)

/-- A term that is put makes the dictionary of its tenant longer. -/
theorem put (h : lexicon.Since first) (tenant : String) (term : Term) :
    Since ⟨lexicon.resolver, lexicon.dictionary.add tenant term⟩ first := by
  have hgrows : lexicon.records <+:
      (⟨lexicon.resolver, lexicon.dictionary.add tenant term⟩ : Lexicon).records := by
    show _ <+: (lexicon.dictionary.add tenant term).terms lexicon.schema.tenant
    by_cases htenant : lexicon.schema.tenant = tenant
    · rw [← htenant, Dictionary.terms_add_self]
      exact List.prefix_append _ _
    · rw [Dictionary.terms_add_of_ne _ _ htenant]
      exact List.prefix_rfl
  refine ⟨h.records.trans hgrows, fun index hindex => ?_⟩
  obtain ⟨seen, hfirst, hseen, heq⟩ := h.index index hindex
  exact ⟨seen, hfirst, hseen.trans hgrows, heq⟩

theorem after (h : lexicon.Since first) (act : Act) : (lexicon.after act).Since first := by
  cases act with
  | resolve phrase =>
    show Since ⟨(lexicon.resolver.resolve lexicon.dictionary phrase).2, lexicon.dictionary⟩ first
    rw [Resolver.resolve]
    split
    · exact h
    · exact h.indexed
  | knows | terms | dictionaryTerms => exact h.indexed
  | add phrase table column aggregation dateField =>
    exact h.add phrase table column aggregation dateField
  | refresh =>
    refine ⟨h.records, fun index hindex => ⟨lexicon.records, h.records, List.prefix_rfl, ?_⟩⟩
    exact (Option.some.inj hindex).symm
  | put tenant term => exact h.put tenant term

theorem afterAll (h : lexicon.Since first) (acts : List Act) :
    (lexicon.afterAll acts).Since first := by
  induction acts generalizing lexicon with
  | nil => exact h
  | cons act acts ih => exact ih (h.after act)

end Since

theorem Reachable.since (h : lexicon.Reachable) : lexicon.Since [] := by
  obtain ⟨schema, threshold, acts, rfl⟩ := h
  exact Since.afterAll (.unindexed rfl List.nil_prefix) acts

theorem schema_add (lexicon : Lexicon) (phrase table column : String)
    (aggregation : Option Aggregation) (dateField : Option String) :
    (lexicon.add phrase table column aggregation dateField).2.schema = lexicon.schema := by
  rcases lexicon.add_cases phrase table column aggregation dateField with ⟨-, heq⟩ | ⟨-, -, heq⟩ |
    ⟨-, -, heq⟩
  all_goals rw [heq]
  rfl

theorem schema_after (lexicon : Lexicon) (act : Act) :
    (lexicon.after act).schema = lexicon.schema := by
  cases act with
  | resolve phrase =>
    rw [after, Resolver.resolve]
    split <;> rfl
  | add phrase table column aggregation dateField =>
    rw [after]
    exact lexicon.schema_add phrase table column aggregation dateField
  | knows | terms | dictionaryTerms | refresh | put => rfl

theorem schema_afterAll (lexicon : Lexicon) (acts : List Act) :
    (lexicon.afterAll acts).schema = lexicon.schema := by
  induction acts generalizing lexicon with
  | nil => rfl
  | cons act acts ih => exact (ih _).trans (lexicon.schema_after act)

/-! ### Terms that have been added -/

variable {first seen : List Term} {term : Term} {phrase other table column : String}

theorem knows_eq
    (hindex : lexicon.resolver.currentIndex lexicon.dictionary = .build lexicon.schema seen) :
    lexicon.knows phrase =
      (termFor? (keptTerms lexicon.schema seen) (normalize phrase)).isSome := by
  show ((lexicon.resolver.currentIndex lexicon.dictionary).find? _).isSome = _
  rw [hindex, TermIndex.find?_build]
  rfl

theorem resolve_eq
    (hindex : lexicon.resolver.currentIndex lexicon.dictionary = .build lexicon.schema seen)
    (hfound : termFor? (keptTerms lexicon.schema seen) (normalize phrase) = some term) :
    lexicon.resolve phrase = .ok term := by
  have hkey : ¬(normalize phrase).isEmpty = true := by
    intro hempty
    rw [termFor?, if_pos hempty] at hfound
    cases hfound
  rw [resolve, Resolver.resolve, if_neg hkey]
  show Resolver.lookUp (lexicon.resolver.currentIndex lexicon.dictionary) _ phrase = _
  rw [hindex, Resolver.lookUp, TermIndex.find?_build, ← keptTerms, hfound]
  rfl

theorem knows_congr (h : normalize other = normalize phrase) :
    lexicon.knows other = lexicon.knows phrase := by
  rw [knows, knows, Resolver.knows, Resolver.knows, h]

/-- Whether a phrase is known, denotes a column and cannot be added again. -/
structure Denotes (lexicon : Lexicon) (phrase table column : String) : Prop where
  knows : lexicon.knows phrase = true
  resolve : ∃ term, lexicon.resolve phrase = .ok term ∧ term.table = table ∧ term.column = column
  add : ∀ table column aggregation dateField,
    (lexicon.add phrase table column aggregation dateField).1 =
      if isBlankText table || isBlankText column then .error .blankMapping else .ok false

/-- A term that was the first to be named by a phrase when it was put into the dictionary is what
the phrase denotes, if no index from before is in use. -/
theorem Since.denotes {records : List Term} (h : lexicon.Since (records ++ [term]))
    (hphrase : isBlankText phrase = false)
    (hnew : Unnamed lexicon.schema records (normalize phrase))
    (hnamed : term.isNamed (normalize phrase) = true) :
    lexicon.Denotes phrase term.table term.column := by
  have hkey : (normalize phrase).isEmpty = false := by rw [normalize_isEmpty, hphrase]
  obtain ⟨seen, ⟨later, rfl⟩, -, hindex⟩ := h.currentIndex_eq
  have hfound :
      termFor? (keptTerms lexicon.schema (records ++ [term] ++ later)) (normalize phrase) =
        some (located lexicon.schema term) := by
    rw [List.append_assoc, List.singleton_append]
    exact termFor?_keptTerms hkey hnew hnamed
  have hknown : lexicon.knows phrase = true := by rw [knows_eq hindex, hfound, Option.isSome_some]
  refine ⟨hknown, ⟨_, resolve_eq hindex hfound, rfl, rfl⟩, ?_⟩
  intro table column aggregation dateField
  rcases lexicon.add_cases phrase table column aggregation dateField with ⟨hblank, heq⟩ |
    ⟨hblank, -, heq⟩ | ⟨-, hfresh, -⟩
  · rw [hphrase, Bool.false_or] at hblank
    rw [heq, if_pos hblank]
  · rw [hphrase, Bool.false_or] at hblank
    rw [heq, if_neg (by rw [hblank]; exact Bool.false_ne_true)]
  · rw [hknown, Bool.true_or] at hfresh
    exact Bool.noConfusion hfresh

/-- No term of the schema or of the dictionary is named by a phrase that can be added. -/
theorem Since.unnamed (h : lexicon.Since first) (hphrase : isBlankText phrase = false)
    (hnew : (lexicon.knows phrase || lexicon.records.any (·.goesBy (normalize phrase))) = false) :
    Unnamed lexicon.schema lexicon.records (normalize phrase) := by
  have hkey : (normalize phrase).isEmpty = false := by rw [normalize_isEmpty, hphrase]
  obtain ⟨seen, -, -, hindex⟩ := h.currentIndex_eq
  rw [Bool.or_eq_false_iff, knows_eq hindex, termFor?_isSome hkey] at hnew
  refine unnamed_of_not_known hkey hnew.1 fun term hterm => ?_
  have hgoes := List.any_eq_false.1 hnew.2 term hterm
  rw [Term.goesBy_eq, Bool.or_eq_true, not_or] at hgoes
  exact Bool.eq_false_iff.2 hgoes.1

/-- Whether the index in use, if any, is that of the dictionary as it is. -/
def UpToDate (lexicon : Lexicon) : Prop :=
  ∀ index ∈ lexicon.resolver.index, index = .build lexicon.schema lexicon.records

theorem UpToDate.currentIndex_eq (h : lexicon.UpToDate) :
    lexicon.resolver.currentIndex lexicon.dictionary = .build lexicon.schema lexicon.records := by
  rw [Resolver.currentIndex]
  cases hindex : lexicon.resolver.index with
  | none => rfl
  | some index => exact h index hindex

/-- A known phrase denotes the term that its normal form leads to. -/
theorem UpToDate.resolve_known (h : lexicon.UpToDate) (hknown : lexicon.knows phrase = true) :
    ∃ found, termFor? (keptTerms lexicon.schema lexicon.records) (normalize phrase) = some found ∧
      lexicon.resolve phrase = .ok found := by
  rw [knows_eq h.currentIndex_eq] at hknown
  obtain ⟨found, hfound⟩ := Option.isSome_iff_exists.1 hknown
  exact ⟨found, hfound, resolve_eq h.currentIndex_eq hfound⟩

/-- It goes on denoting that term when one that it does not name comes to the end of the dictionary.
-/
theorem UpToDate.resolve_withTerm (h : lexicon.UpToDate) (hknown : lexicon.knows phrase = true)
    (hnamed : term.isNamed (normalize phrase) = false) :
    ∃ found, lexicon.resolve phrase = .ok found ∧
      (lexicon.withTerm term).resolve phrase = .ok found := by
  obtain ⟨found, hfound, hresolve⟩ := h.resolve_known hknown
  have hnext : (lexicon.withTerm term).UpToDate := by
    intro index hindex
    cases hindex
  obtain ⟨more, hmore, hkept⟩ := keptTerms_append lexicon.schema lexicon.records [term]
  refine ⟨found, hresolve, resolve_eq hnext.currentIndex_eq ?_⟩
  show termFor? (keptTerms lexicon.schema (lexicon.withTerm term).records) _ = _
  rw [records_withTerm, hkept]
  refine termFor?_append hfound fun other hother => ?_
  obtain rfl := List.mem_singleton.1 (hmore.subset hother)
  exact hnamed

/-- A phrase that has been added denotes its column, whatever is done then. -/
theorem Reachable.denotes_of_add (h : lexicon.Reachable) {aggregation : Option Aggregation}
    {dateField : Option String}
    (hadd : (lexicon.add phrase table column aggregation dateField).1 = .ok true) (acts : List Act)
    (hother : normalize other = normalize phrase) :
    ((lexicon.add phrase table column aggregation dateField).2.afterAll acts).Denotes other
      (trimmed table) (trimmed column) := by
  rcases lexicon.add_cases phrase table column aggregation dateField with ⟨-, heq⟩ | ⟨-, -, heq⟩ |
    ⟨hblank, hnew, heq⟩
  · rw [heq] at hadd
    cases hadd
  · rw [heq] at hadd
    cases hadd
  · rw [Bool.or_eq_false_iff, Bool.or_eq_false_iff] at hblank
    have hphrase : isBlankText other = false := by
      rw [← normalize_isEmpty, hother, normalize_isEmpty, hblank.1.1]
    rw [heq]
    refine ((Since.withTerm lexicon _).afterAll acts).denotes hphrase ?_ ?_
    · rw [schema_afterAll, hother]
      exact h.since.unnamed hblank.1.1 hnew
    · simp [Term.isNamed, hother]

/-- A phrase is added by putting one term at the end of the dictionary of the tenant.  From then on
the phrase is known and denotes the column, whatever is done, and cannot be added again.  A phrase
that was known denotes what it did, if the index was up to date.  When nothing is added, the
dictionary stays as it is. -/
theorem add_lasts (h : lexicon.Reachable) (phrase table column : String)
    (aggregation : Option Aggregation) (dateField : Option String) :
    let result := lexicon.add phrase table column aggregation dateField
    (result.1 = .ok true →
        result.2.records = lexicon.records ++
          [{ canonical := trimmed phrase, table := trimmed table, column := trimmed column,
             aggregation, dateField }] ∧
        (∀ tenant, tenant ≠ lexicon.schema.tenant →
          result.2.dictionary.terms tenant = lexicon.dictionary.terms tenant) ∧
        ∀ acts other, normalize other = normalize phrase →
          (result.2.afterAll acts).Denotes other (trimmed table) (trimmed column)) ∧
      (result.1 ≠ .ok true → result.2.dictionary = lexicon.dictionary) ∧
      (lexicon.UpToDate → ∀ other, lexicon.knows other = true →
        ∃ term, lexicon.resolve other = .ok term ∧ result.2.resolve other = .ok term) := by
  have hsame : lexicon.UpToDate → ∀ other, lexicon.knows other = true →
      ∃ term, lexicon.resolve other = .ok term ∧ lexicon.resolve other = .ok term := by
    intro hfresh other hknown
    obtain ⟨term, -, hterm⟩ := hfresh.resolve_known hknown
    exact ⟨term, hterm, hterm⟩
  intro result
  rcases lexicon.add_cases phrase table column aggregation dateField with ⟨-, heq⟩ | ⟨-, -, heq⟩ |
    ⟨-, hnew, heq⟩
  · have hresult : result = _ := heq
    rw [hresult]
    exact ⟨nofun, fun _ => rfl, hsame⟩
  · have hresult : result = _ := heq
    rw [hresult]
    exact ⟨nofun, fun _ => rfl, hsame⟩
  · have hresult : result = _ := heq
    refine ⟨fun hadd => ⟨?_, fun tenant htenant => ?_, fun acts other hother => ?_⟩, ?_, ?_⟩
    · rw [hresult, records_withTerm]
    · rw [hresult]
      exact Dictionary.terms_add_of_ne _ _ htenant
    · exact h.denotes_of_add hadd acts hother
    · intro hne
      exact absurd (by rw [hresult]) hne
    · intro hfresh other hknown
      rw [hresult]
      refine hfresh.resolve_withTerm hknown (Bool.eq_false_iff.2 fun hnamed => ?_)
      have hother : normalize other = normalize phrase := by
        rw [Term.isNamed, normalize_trimmed, beq_iff_eq] at hnamed
        exact hnamed.symm
      rw [← knows_congr hother, hknown, Bool.true_or] at hnew
      exact Bool.noConfusion hnew

/-- The lexicon of the trade before anything has been done. -/
def trade : Lexicon :=
  start tradeSchema defaultThreshold

/-- A phrase that has been added stays, though the same phrase is then put into the dictionary for
another column. -/
theorem add_vip :
    trade.Reachable ∧
      (trade.add "VIP " "Clients" "ClientId" none none).1 = .ok true ∧
      ((trade.add "VIP " "Clients" "ClientId" none none).2.afterAll
        [.put "trade" { canonical := "vip", table := "Suppliers", column := "SupplierNo" },
          .refresh]).Denotes "vip" "Clients" "ClientId" ∧
      ∃ term, trade.resolve "parties" = .ok term ∧
        (trade.add "VIP " "Clients" "ClientId" none none).2.resolve "parties" = .ok term := by
  have hreach : trade.Reachable := ⟨_, _, [], rfl⟩
  have hadd : (trade.add "VIP " "Clients" "ClientId" none none).1 = .ok true := by decide +kernel
  obtain ⟨hlasts, -, hkeeps⟩ := add_lasts hreach "VIP " "Clients" "ClientId" none none
  refine ⟨hreach, hadd, ?_, hkeeps nofun "parties" (by decide +kernel)⟩
  exact (hlasts hadd).2.2 _ "vip" (by decide +kernel)

/-- A phrase that has been added is not refused as known when the column is left blank. -/
theorem add_vip_blank :
    trade.Reachable ∧
      (trade.add "vip" "Clients" "ClientId" none none).1 = .ok true ∧
      normalize "VIP" = normalize "vip" ∧
      ((trade.add "vip" "Clients" "ClientId" none none).2.add "VIP" "" "ClientId" none none).1 =
        .error .blankMapping ∧
      ((trade.add "vip" "Clients" "ClientId" none none).2.add "VIP" "" "ClientId" none none).1 ≠
        .ok false := by
  refine ⟨⟨_, _, [], rfl⟩, ?_⟩
  decide +kernel

/-! ### Phrases that are refused as known -/

theorem knows_refresh (lexicon : Lexicon) (hphrase : isBlankText phrase = false) :
    (lexicon.after .refresh).knows phrase =
      isKnown lexicon.schema lexicon.records (normalize phrase) := by
  have hindex : (lexicon.after .refresh).resolver.currentIndex lexicon.dictionary =
      .build lexicon.schema lexicon.records :=
    rfl
  rw [knows_eq hindex, termFor?_isSome (by rw [normalize_isEmpty, hphrase])]
  rfl

theorem isKnown_iff {schema : Schema} {records : List Term} {key : String} :
    isKnown schema records key = true ↔
      ∃ term ∈ schemaTerms schema ++ records.map (located schema),
        isBlankText term.canonical = false ∧
        IsFirst (schemaTerms schema ++ records.map (located schema)) term ∧
        term.goesBy key = true := by
  rw [isKnown, List.any_eq_true]
  constructor
  · rintro ⟨term, hkept, hgoes⟩
    rcases mem_foldl_keep.1 hkept with hnil | ⟨hink, -, hfirst⟩
    · cases hnil
    · exact ⟨term, List.mem_of_find?_eq_some hfirst, hink, hfirst, hgoes⟩
  · rintro ⟨term, -, hink, hfirst, hgoes⟩
    exact ⟨term, mem_foldl_keep.2 (Or.inr ⟨hink, rfl, hfirst⟩), hgoes⟩

/-- Whatever the index in use knows is known to an index that is built anew. -/
theorem Since.knows_refresh (h : lexicon.Since first) (hphrase : isBlankText phrase = false)
    (hknown : lexicon.knows phrase = true) : (lexicon.after .refresh).knows phrase = true := by
  obtain ⟨seen, -, hseen, hindex⟩ := h.currentIndex_eq
  rw [knows_eq hindex, termFor?_isSome (by rw [normalize_isEmpty, hphrase])] at hknown
  rw [Lexicon.knows_refresh lexicon hphrase]
  exact isKnown_mono hseen hknown

/-- A phrase that is refused as known is known to an index that is built anew exactly if a term that
is kept goes by it.  That is so if the index in use knew it, and if no dictionary term has aliases.
-/
theorem knows_refresh_iff (h : lexicon.Reachable) {aggregation : Option Aggregation}
    {dateField : Option String} {added : Bool}
    (hadd : (lexicon.add phrase table column aggregation dateField).1 = .ok added) :
    let terms := schemaTerms lexicon.schema ++ lexicon.records.map (located lexicon.schema)
    let refreshed := (lexicon.add phrase table column aggregation dateField).2.after .refresh
    (refreshed.knows phrase = true ↔ added = true ∨
        ∃ term ∈ terms, isBlankText term.canonical = false ∧ IsFirst terms term ∧
          term.goesBy (normalize phrase) = true) ∧
      (lexicon.knows phrase = true ∨ (∀ record ∈ lexicon.records, record.aliases = []) →
        refreshed.knows phrase = true) := by
  dsimp only
  rw [← isKnown_iff]
  rcases lexicon.add_cases phrase table column aggregation dateField with ⟨-, heq⟩ |
    ⟨hblank, hknown, heq⟩ | ⟨-, -, heq⟩
  · rw [heq] at hadd
    cases hadd
  · rw [heq] at hadd ⊢
    cases hadd
    rw [Bool.or_eq_false_iff, Bool.or_eq_false_iff] at hblank
    have hphrase := hblank.1.1
    refine ⟨by simp [lexicon.knows_refresh hphrase], ?_⟩
    rintro (hindexed | hplain)
    · exact h.since.knows_refresh hphrase hindexed
    · rcases Bool.or_eq_true_iff.1 hknown with hindexed | hrecord
      · exact h.since.knows_refresh hphrase hindexed
      · have hkey : (normalize phrase).isEmpty = false := by rw [normalize_isEmpty, hphrase]
        show (lexicon.after .refresh).knows phrase = true
        rw [lexicon.knows_refresh hphrase, records, ← isKnown_or_knows hkey hplain,
          Dictionary.knows, ← records, hrecord, Bool.or_true]
  · have htrue : added = true := by
      rw [heq] at hadd
      exact (Except.ok.inj hadd).symm
    subst htrue
    have hknown : ((lexicon.add phrase table column aggregation dateField).2.after .refresh).knows
        phrase = true :=
      (h.denotes_of_add hadd [.refresh] rfl).knows
    exact ⟨iff_of_true hknown (Or.inl rfl), fun _ => hknown⟩

/-- The lexicon of the trade with a dictionary term that no index keeps: the clients are called
parties before it. -/
def tradeWithPartners : Lexicon :=
  trade.after (.put "trade"
    { canonical := "parties", table := "Clients", column := "ClientId", aliases := ["partners"] })

/-- An alias of a term that is not kept is refused as known, and is not known. -/
theorem not_knows_partners :
    tradeWithPartners.Reachable ∧
      (tradeWithPartners.add "partners" "Clients" "ClientId" none none).1 = .ok false ∧
      ((tradeWithPartners.add "partners" "Clients" "ClientId" none none).2.after .refresh).knows
        "partners" = false := by
  have hreach : tradeWithPartners.Reachable :=
    ⟨tradeSchema, defaultThreshold, [.put "trade" _], rfl⟩
  have hadd : (tradeWithPartners.add "partners" "Clients" "ClientId" none none).1 = .ok false := by
    decide +kernel
  refine ⟨hreach, hadd, Bool.eq_false_iff.2 fun hknown => ?_⟩
  have hkept := ((knows_refresh_iff hreach hadd).1.1 hknown).resolve_left Bool.false_ne_true
  revert hkept
  decide +kernel

end Lexicon

end AskSql.Vocabulary
