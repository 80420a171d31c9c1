import AskSql.Compiler
import AskSql.Proofs.Vocabulary.Index

/-! Compilation with nothing kept from one request to the next.  A resolver is fresh for a schema
and the dictionary terms of its tenant if the index that it keeps, if any, is the one that would be
built now.  Whatever is done with a fresh resolver comes out as if the index were built on the spot,
and leaves the resolver fresh; so a runtime whose resolver is fresh compiles a question as a
function of the schema, the terms and the request. -/

namespace AskSql

open Vocabulary

variable {schema : Schema} {dictionary : Dictionary} {terms : List Term} {resolver : Resolver}

/-! ### Nothing kept -/

/-- What a phrase denotes, given a schema and dictionary terms.  A blank phrase denotes nothing. -/
def Vocabulary.denoted (schema : Schema) (terms : List Term) (phrase : String) :
    Except Fault Term :=
  if (normalize phrase).isEmpty then .error (.unknownTerm phrase)
  else Resolver.lookUp (.build schema terms) defaultThreshold phrase

/-- A query with one more clause, where `denoted` says what a phrase denotes. -/
def Clause.bindOneBy (denoted : String → Except Fault Term) (node : QueryNode) (clause : Clause) :
    Except Fault QueryNode :=
  match node with
  | .shortcut shortcut => .error (.shortcutWithClause shortcut.name)
  | .select query =>
    match query.source? with
    | none => .error .noSource
    | some source =>
      ((denoted clause.field).bind (attributeFor clause.field source.name)).map fun target =>
        .select (apply query clause target)

/-- A question with its clauses bound, where `denoted` says what a phrase denotes. -/
def Clause.bindBy (denoted : String → Except Fault Term) (policy : UnboundPolicy)
    (parsed : ParsedQuestion) : List Clause → Except Fault ParsedQuestion
  | [] => .ok parsed
  | clause :: clauses =>
    match bindOneBy denoted parsed.node clause with
    | .ok node => bindBy denoted policy { parsed with node } clauses
    | .error fault =>
      if !isDroppable fault || policy = .fail then .error fault
      else
        let warnings := parsed.warnings ++ [dropWarning clause fault]
        bindBy denoted policy { parsed with warnings } clauses

/-- The answer to a request, given a schema and dictionary terms. -/
def compileFresh (schema : Schema) (terms : List Term) (request : Request) :
    Except Fault Compiled :=
  let known := (TermIndex.build schema terms).dictionaryTerms
  let parsed := Question.parse schema known request.question
  let dialect := request.dialect.getD schema.dialect
  if !parsed.isExecutable then .ok ⟨none, dialect, parsed⟩
  else do
    let parsed ← Clause.bindBy (denoted schema terms) request.policy parsed request.clauses
    let sql ← Sql.statement dialect schema parsed.node
    return ⟨some sql, dialect, parsed⟩

/-- Whether a normal form is that of a canonical phrase or an alias of a term that is kept. -/
def Vocabulary.isKnown (schema : Schema) (terms : List Term) (key : String) : Bool :=
  ((schemaTerms schema ++ terms.map (located schema)).foldl keep []).any (·.goesBy key)

theorem Vocabulary.knows_build {key : String} (hkey : key.isEmpty = false) :
    (TermIndex.build schema terms).knows key = isKnown schema terms key := by
  rw [TermIndex.knows, TermIndex.find?_build, termFor?_isSome hkey, isKnown]

/-- A dictionary of terms without aliases knows no phrase that its terms and the schema do not make
known. -/
theorem Vocabulary.isKnown_or_knows {key : String} (hkey : key.isEmpty = false)
    (hplain : ∀ term ∈ dictionary.terms schema.tenant, term.aliases = []) :
    (isKnown schema (dictionary.terms schema.tenant) key || dictionary.knows schema.tenant key) =
      isKnown schema (dictionary.terms schema.tenant) key := by
  rw [Bool.or_eq_left_iff_imp]
  intro hknows
  obtain ⟨term, hterm, hgoes⟩ := List.any_eq_true.1 hknows
  have hnamed : (located schema term).isNamed key = true := by
    simpa [Term.goesBy, hplain term hterm, Term.isNamed, located] using hgoes
  have hany : (schemaTerms schema ++ (dictionary.terms schema.tenant).map (located schema)).any
      (·.isNamed key) = true :=
    List.any_eq_true.2 ⟨_, List.mem_append_right _ (List.mem_map_of_mem hterm), hnamed⟩
  obtain ⟨kept, hkept, hname⟩ := List.any_eq_true.1 (any_isNamed_foldl_keep hkey hany)
  exact List.any_eq_true.2 ⟨kept, hkept, by simp [Term.goesBy_eq, hname]⟩

theorem Vocabulary.Dictionary.terms_add_self (dictionary : Dictionary) (tenant : String)
    (term : Term) : (dictionary.add tenant term).terms tenant =
      dictionary.terms tenant ++ [term] := by
  rw [terms, add, Keyed.get?_insert_self, Option.getD_some]

theorem Vocabulary.Dictionary.terms_add_of_ne (dictionary : Dictionary) {tenant other : String}
    (term : Term) (h : other ≠ tenant) :
    (dictionary.add tenant term).terms other = dictionary.terms other := by
  rw [terms, add, Keyed.get?_insert_of_ne _ _ h, ← terms]

/-! ### Fresh resolvers -/

/-- The index that a resolver keeps, if any, is that of the schema and the dictionary terms. -/
structure Vocabulary.Resolver.Fresh (resolver : Resolver) (schema : Schema) (terms : List Term) :
    Prop where
  schema_eq : resolver.schema = schema
  threshold_eq : resolver.threshold = defaultThreshold
  index_eq : ∀ index ∈ resolver.index, index = .build schema terms

namespace Vocabulary.Resolver.Fresh

theorem unindexed (schema : Schema) (terms : List Term) :
    Fresh { schema } schema terms :=
  ⟨rfl, rfl, by simp⟩

theorem currentIndex_eq (h : resolver.Fresh schema (dictionary.terms schema.tenant)) :
    resolver.currentIndex dictionary = .build schema (dictionary.terms schema.tenant) := by
  rw [currentIndex]
  cases hindex : resolver.index with
  | none => rw [Option.getD_none, freshIndex, h.schema_eq]
  | some index => exact h.index_eq index hindex

theorem indexed (h : resolver.Fresh schema (dictionary.terms schema.tenant)) :
    (resolver.indexed dictionary).Fresh schema (dictionary.terms schema.tenant) :=
  ⟨h.schema_eq, h.threshold_eq, by simp [Resolver.indexed, h.currentIndex_eq]⟩

theorem resolve (h : resolver.Fresh schema (dictionary.terms schema.tenant)) (phrase : String) :
    (resolver.resolve dictionary phrase).1 =
        denoted schema (dictionary.terms schema.tenant) phrase ∧
      (resolver.resolve dictionary phrase).2.Fresh schema (dictionary.terms schema.tenant) := by
  rw [Resolver.resolve, denoted]
  split
  · exact ⟨rfl, h⟩
  · exact ⟨by rw [h.currentIndex_eq, h.threshold_eq], h.indexed⟩

theorem dictionaryTerms (h : resolver.Fresh schema (dictionary.terms schema.tenant)) :
    (resolver.dictionaryTerms dictionary).1 =
        (TermIndex.build schema (dictionary.terms schema.tenant)).dictionaryTerms ∧
      (resolver.dictionaryTerms dictionary).2.Fresh schema (dictionary.terms schema.tenant) :=
  ⟨by rw [Resolver.dictionaryTerms, h.currentIndex_eq], h.indexed⟩

theorem bindOne (h : resolver.Fresh schema (dictionary.terms schema.tenant)) (node : QueryNode)
    (clause : Clause) :
    (Clause.bindOne resolver dictionary node clause).1 =
        Clause.bindOneBy (denoted schema (dictionary.terms schema.tenant)) node clause ∧
      (Clause.bindOne resolver dictionary node clause).2.Fresh schema
        (dictionary.terms schema.tenant) := by
  cases node with
  | shortcut => exact ⟨rfl, h⟩
  | select query =>
    rw [Clause.bindOne, Clause.bindOneBy]
    cases query.source? with
    | none => exact ⟨rfl, h⟩
    | some source =>
      obtain ⟨hterm, hfresh⟩ := h.resolve clause.field
      dsimp only
      rw [← hterm]
      exact ⟨rfl, hfresh⟩

theorem bind (h : resolver.Fresh schema (dictionary.terms schema.tenant)) (policy : UnboundPolicy)
    (parsed : ParsedQuestion) (clauses : List Clause) :
    (Clause.bind resolver dictionary policy parsed clauses).1.map (·.1) =
        Clause.bindBy (denoted schema (dictionary.terms schema.tenant)) policy parsed clauses ∧
      (Clause.bind resolver dictionary policy parsed clauses).2.Fresh schema
        (dictionary.terms schema.tenant) := by
  induction clauses generalizing resolver parsed with
  | nil => exact ⟨rfl, h⟩
  | cons clause clauses ih =>
    obtain ⟨hone, hnext⟩ := h.bindOne parsed.node clause
    rw [Clause.bind, Clause.bindBy, ← hone]
    cases hbound : Clause.bindOne resolver dictionary parsed.node clause with
    | mk one next =>
      rw [hbound] at hnext
      cases one with
      | ok node =>
        obtain ⟨hrest, hlast⟩ := ih hnext { parsed with node }
        refine ⟨?_, hlast⟩
        dsimp only at hrest ⊢
        rw [← hrest]
        cases (Clause.bind next dictionary policy { parsed with node } clauses).1 <;> rfl
      | error fault =>
        dsimp only
        split
        · exact ⟨rfl, hnext⟩
        · exact ih hnext _

theorem compileClauses (h : resolver.Fresh schema (dictionary.terms schema.tenant))
    (dialect : Dialect) (request : Request) (parsed : ParsedQuestion) :
    (compileClauses resolver dictionary dialect request parsed).1 =
        (do
          let parsed ← Clause.bindBy (denoted schema (dictionary.terms schema.tenant))
            request.policy parsed request.clauses
          let sql ← Sql.statement dialect schema parsed.node
          return ⟨some sql, dialect, parsed⟩) ∧
      (AskSql.compileClauses resolver dictionary dialect request parsed).2.Fresh schema
        (dictionary.terms schema.tenant) := by
  obtain ⟨hbound, hfresh⟩ := h.bind request.policy parsed request.clauses
  refine ⟨?_, hfresh⟩
  rw [AskSql.compileClauses, ← hbound]
  simp only [hfresh.schema_eq]
  cases (Clause.bind resolver dictionary request.policy parsed request.clauses).1 <;> rfl

/-- A phrase is added unless a part of the mapping is blank or the phrase is known. -/
theorem add_eq (h : resolver.Fresh schema (dictionary.terms schema.tenant))
    (hplain : ∀ term ∈ dictionary.terms schema.tenant, term.aliases = [])
    (phrase table column : String) (aggregation : Option Aggregation) (dateField : Option String) :
    resolver.add dictionary phrase table column aggregation dateField =
      if isBlankText phrase || isBlankText table || isBlankText column then
        (.error .blankMapping, resolver, dictionary)
      else if isKnown schema (dictionary.terms schema.tenant) (normalize phrase) then
        (.ok false, resolver, dictionary)
      else
        (.ok true, { resolver with index := none },
          dictionary.add schema.tenant
            { canonical := trimmed phrase, table := trimmed table, column := trimmed column,
              aggregation, dateField }) := by
  rw [Resolver.add, normalize_isEmpty]
  split
  · rfl
  · rename_i hblank
    have hkey : (normalize phrase).isEmpty = false := by
      rw [normalize_isEmpty]
      simp_all
    rw [h.currentIndex_eq, h.schema_eq, knows_build hkey, isKnown_or_knows hkey hplain]

end Vocabulary.Resolver.Fresh

/-! ### Fresh runtimes -/

/-- What a runtime is made of is what would be made now. -/
structure Runtime.Fresh (runtime : Runtime) (schema : Schema) (terms : List Term) : Prop where
  phrases_eq : runtime.phrases = Question.vocabulary schema
  resolver : runtime.resolver.Fresh schema terms

namespace Runtime

theorem Fresh.ofSnapshot (snapshot : Snapshot) (terms : List Term) :
    Fresh (.ofSnapshot snapshot) snapshot.schema terms :=
  ⟨rfl, .unindexed _ _⟩

/-- A fresh runtime finds in a question what would be found there with everything made on the
spot. -/
theorem Fresh.parseWith_eq {runtime : Runtime}
    (h : runtime.Fresh schema (dictionary.terms schema.tenant)) (question : String) :
    Question.parseWith runtime.resolver.schema runtime.phrases
        (runtime.resolver.dictionaryTerms dictionary).1 question =
      Question.parse schema
        (TermIndex.build schema (dictionary.terms schema.tenant)).dictionaryTerms question := by
  rw [h.resolver.schema_eq, h.phrases_eq, h.resolver.dictionaryTerms.1, Question.parse]

/-- A fresh runtime compiles a question as if everything were made on the spot. -/
theorem Fresh.compile {runtime : Runtime}
    (h : runtime.Fresh schema (dictionary.terms schema.tenant)) (request : Request) :
    (runtime.compile dictionary request).1 =
        compileFresh schema (dictionary.terms schema.tenant) request ∧
      (runtime.compile dictionary request).2.Fresh schema (dictionary.terms schema.tenant) ∧
      (runtime.compile dictionary request).2.serial = runtime.serial := by
  have hfresh := h.resolver.dictionaryTerms.2
  rw [Runtime.compile, compileFresh]
  dsimp only
  rw [h.parseWith_eq, h.resolver.schema_eq]
  split
  · exact ⟨rfl, ⟨h.phrases_eq, hfresh⟩, rfl⟩
  · obtain ⟨hcompiled, hlast⟩ := hfresh.compileClauses _ request _
    exact ⟨hcompiled, ⟨h.phrases_eq, hlast⟩, rfl⟩

end Runtime

end AskSql
