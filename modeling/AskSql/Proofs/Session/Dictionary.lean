import AskSql.Proofs.Compiler.SourceTable
import AskSql.Proofs.Question.Hits
import AskSql.Proofs.Session.Uncached
import AskSql.Proofs.Vocabulary.Lexicon

/-! What is added to a dictionary is understood.  No step of a session takes a term out of the
dictionary of a tenant or puts one in front of another, so a term that was the first of its name
when it was added stays the first.  While the schema is the same it belongs to the dictionary terms
of every later index, and its phrase is found in the questions in which it occurs. -/

namespace AskSql

open Text Vocabulary

variable {tenant : String} {schema : Schema}

/-! ### New terms -/

/-- The dictionary term that a phrase is added with. -/
def newTerm (phrase table column : String) (aggregation : Option Aggregation) : Term :=
  { canonical := trimmed phrase, table := trimmed table, column := trimmed column, aggregation }

section
variable (schema : Schema) (phrase table column : String) (aggregation : Option Aggregation)

@[simp] theorem canonical_newTerm :
    (newTerm phrase table column aggregation).canonical = trimmed phrase := rfl

/-- The entity of a new term is the first with its table. -/
theorem entity_located_newTerm :
    (located schema (newTerm phrase table column aggregation)).entity =
      schema.entityForTable? (trimmed table) := rfl

/-- Its attribute is the first of that entity with its column. -/
theorem attr_located_newTerm :
    (located schema (newTerm phrase table column aggregation)).attr =
      (schema.entityForTable? (trimmed table)).bind
        (schema.attributeForColumn? · (trimmed column)) := rfl

end

/-! ### Dictionaries that grow -/

namespace PlainSession

variable {session : PlainSession}

@[simp] theorem dictionary_load (session : PlainSession) (tenant : String) :
    (session.load tenant).2.dictionary = session.dictionary := by
  rw [load]
  split <;> rfl

@[simp] theorem dictionary_current (session : PlainSession) (tenant : String) :
    (session.current tenant).2.dictionary = session.dictionary := by
  rw [current]
  split
  · rfl
  · exact session.dictionary_load tenant

/-- A schema that is loaded is there from then on. -/
theorem loaded_current (h : (session.current tenant).1 = .ok schema) :
    (session.current tenant).2.loaded.get? tenant = some schema := by
  rw [current] at h ⊢
  split at h
  · rename_i found hfound
    obtain rfl := Except.ok.inj h
    exact hfound
  · rename_i hnone
    rw [load] at h ⊢
    split at h
    · contradiction
    · obtain rfl := Except.ok.inj h
      exact Keyed.get?_insert_self ..

/-- A phrase that is added was not known, and its term comes to the end of the dictionary. -/
structure Adds (session : PlainSession) (tenant phrase : String) (schema : Schema) (term : Term)
    (after : PlainSession) : Prop where
  ink : isBlankText phrase = false
  unknown : isKnown schema (session.dictionary.terms tenant) (normalize phrase) = false
  dictionary : after.dictionary = session.dictionary.add tenant term
  loaded : after.loaded.get? tenant = some schema

theorem add_cases (session : PlainSession) (tenant phrase table column : String)
    (aggregation : Option Aggregation) :
    let result := session.add tenant phrase table column aggregation
    (result.1 ≠ .ok true ∧ result.2.dictionary = session.dictionary) ∨
      ∃ schema, session.Adds tenant phrase schema (newTerm phrase table column aggregation)
        result.2 := by
  have hsame := session.dictionary_current tenant
  rw [add]
  cases hcurrent : session.current tenant with
  | mk current after =>
    rw [hcurrent] at hsame
    cases current with
    | error fault => exact Or.inl ⟨by simp, hsame⟩
    | ok schema =>
      have hloaded := loaded_current (congrArg Prod.fst hcurrent)
      rw [hcurrent] at hloaded
      dsimp only at hsame hloaded ⊢
      rw [hsame]
      split
      · exact Or.inl ⟨by simp, hsame⟩
      · rename_i hblank
        rw [Bool.not_eq_true, Bool.or_eq_false_iff, Bool.or_eq_false_iff] at hblank
        split
        · exact Or.inl ⟨by simp, hsame⟩
        · rename_i hknown
          exact Or.inr ⟨schema, hblank.1.1, Bool.eq_false_iff.2 hknown, rfl, hloaded⟩

/-- A step leaves the dictionary as it is or adds one new term. -/
theorem dictionary_step (session : PlainSession) (step : Step) :
    (session.step step).2.dictionary = session.dictionary ∨
      ∃ tenant phrase table column aggregation, (session.step step).2.dictionary =
        session.dictionary.add tenant (newTerm phrase table column aggregation) := by
  cases step with
  | compile request => exact Or.inl (session.dictionary_current request.tenant)
  | add tenant phrase table column aggregation =>
    rcases session.add_cases tenant phrase table column aggregation with ⟨-, heq⟩ | ⟨schema, hadds⟩
    · exact Or.inl heq
    · exact Or.inr ⟨tenant, phrase, table, column, aggregation, hadds.dictionary⟩
  | reload tenant => exact Or.inl (session.dictionary_load tenant)
  | get tenant => exact Or.inl (session.dictionary_current tenant)
  | put | invalidate | invalidateAll | cached => exact Or.inl rfl

/-- A step leaves the dictionary terms of a tenant as they are but for more at the end. -/
theorem terms_step (session : PlainSession) (tenant : String) (step : Step) :
    session.dictionary.terms tenant <+: (session.step step).2.dictionary.terms tenant := by
  rcases session.dictionary_step step with heq | ⟨other, phrase, table, column, aggregation, heq⟩
  · exact heq ▸ List.prefix_rfl
  · rw [heq]
    by_cases htenant : tenant = other
    · rw [htenant, Dictionary.terms_add_self]
      exact List.prefix_append _ _
    · exact Dictionary.terms_add_of_ne _ _ htenant ▸ List.prefix_rfl

/-- The session after a list of steps. -/
def after (session : PlainSession) (steps : List Step) : PlainSession :=
  steps.foldl (fun session step => (session.step step).2) session

theorem terms_after (session : PlainSession) (tenant : String) (steps : List Step) :
    session.dictionary.terms tenant <+: (session.after steps).dictionary.terms tenant := by
  induction steps generalizing session with
  | nil => exact List.prefix_rfl
  | cons step steps ih => exact (session.terms_step tenant step).trans (ih _)

/-- A term that has been added stays behind the same terms. -/
theorem Adds.terms_after {session' : PlainSession} {phrase : String} {term : Term}
    (h : session.Adds tenant phrase schema term session') (steps : List Step) :
    ∃ later, (session'.after steps).dictionary.terms tenant =
      session.dictionary.terms tenant ++ term :: later := by
  obtain ⟨later, hlater⟩ := session'.terms_after tenant steps
  refine ⟨later, ?_⟩
  rw [← hlater, h.dictionary, Dictionary.terms_add_self, List.append_assoc, List.singleton_append]

theorem current_of_get (h : (session.step (.get tenant)).1 = .schema (.ok schema)) :
    (session.current tenant).1 = .ok schema :=
  Answer.schema.inj h

end PlainSession

/-! ### Questions -/

/-- A phrase that was not known when its term came into the dictionary is found in the questions in
which it occurs, with the entity of its table and the attribute of its column. -/
theorem Question.exists_hit_of_unnamed {records : List Term} (term : Term)
    (hink : isBlankText term.canonical = false)
    (hnew : Unnamed schema records (normalize term.canonical)) (later : List Term)
    {entity question : String} (hentity : (located schema term).entity = some entity)
    (hoccurs : occurs (searchText term.canonical).toList (lowercase question.toList) = true)
    (hstored : stored? schema question (lowercase question.toList) = none) :
    let parsed :=
      parse schema (TermIndex.build schema (records ++ term :: later)).dictionaryTerms question
    parsed.isExecutable = true ∧
      ∃ hit ∈ parsed.hits, hit.term = searchText term.canonical ∧ hit.entity = some entity ∧
        hit.attr = (located schema term).attr := by
  intro parsed
  have hterm := located_mem_dictionaryTerms hink hnew later
  have hphrase := @mem_withTerms (vocabulary schema) _ _ _ hterm hentity hink
  obtain ⟨hit, hhit, htext, hholder, hattr⟩ := exists_hit hphrase hoccurs
  rw [← hits_parseWith hstored] at hhit
  rw [Target.entity?_ofTerm] at hholder
  rw [Target.attr?_ofTerm] at hattr
  exact ⟨isExecutable_parseWith hstored hhit (by rw [hholder]; rfl), hit, hhit, htext,
    hholder, hattr⟩

namespace Session

/-- The session after a list of steps. -/
def after (session : Session) (steps : List Step) : Session :=
  steps.foldl (fun session step => (session.step step).2) session

/-- What is found in the question of a request before its clauses are bound. -/
def parsed (session : Session) (request : Request) : Except Fault ParsedQuestion :=
  let (runtime, compiler) :=
    session.compiler.runtime (.ofConfigs session.configs) request.tenant
  runtime.map (·.parsed compiler.dictionary request)

variable {session : Session}

theorem Coherent.after (h : session.Coherent) (steps : List Step) :
    (session.after steps).Coherent ∧ session.plain.after steps = (session.after steps).plain := by
  induction steps generalizing session with
  | nil => exact ⟨h, rfl⟩
  | cons step steps ih =>
    obtain ⟨hcoherent, hstep⟩ := h.step step
    obtain ⟨hlast, hplain⟩ := ih hcoherent
    refine ⟨hlast, ?_⟩
    rw [PlainSession.after, List.foldl_cons, hstep]
    exact hplain

/-- What is found in a question follows from the schema of the tenant and its dictionary terms, and
a compiled question shows what was found. -/
theorem Coherent.parsed_eq (h : session.Coherent) {request : Request}
    (hschema : (session.step (.get request.tenant)).1 = .schema (.ok schema)) :
    let parsed := Question.parse schema
      (TermIndex.build schema (session.plain.dictionary.terms request.tenant)).dictionaryTerms
      request.question
    session.parsed request = .ok parsed ∧
      (Question.stored? schema request.question (lowercase request.question.toList) = none →
        parsed.isExecutable = true →
        ∀ compiled, (session.step (.compile request)).1 = .compiled (.ok compiled) →
          compiled.sql.isSome = true ∧ compiled.parsed.hits = parsed.hits ∧
            compiled.parsed.isExecutable = true) := by
  intro parsed
  have hcurrent : (session.plain.current request.tenant).1 = .ok schema := by
    apply PlainSession.current_of_get
    rw [(h.step _).2, hschema]
  rcases h.runtime request.tenant with ⟨fault, compiler, -, -, hplain⟩ |
    ⟨found, runtime, compiler, hruntime, hready, hplain⟩
  · rw [hplain] at hcurrent
    contradiction
  · rw [hplain] at hcurrent
    obtain rfl := Except.ok.inj hcurrent
    have hterms : compiler.dictionary = session.plain.dictionary := by
      rw [← session.plain.dictionary_current request.tenant, hplain]
      rfl
    have hfresh := hready.fresh
    rw [← hready.tenant_eq] at hfresh
    have hparsed : runtime.parsed compiler.dictionary request = parsed := by
      rw [Runtime.parsed, hfresh.parseWith_eq, hready.tenant_eq, hterms]
    refine ⟨?_, fun hstored hexecutable compiled hcompiled => ?_⟩
    · rw [Session.parsed, hruntime]
      exact congrArg Except.ok hparsed
    · have hcompile := Compiler.compile_eq hruntime
      have hcompiled : (session.compiler.compile (.ofConfigs session.configs) request).1 =
          .ok compiled :=
        Answer.compiled.inj hcompiled
      rw [hcompile] at hcompiled
      rw [← hparsed] at hexecutable ⊢
      rw [← hfresh.resolver.schema_eq] at hstored
      exact Runtime.compile_of_isExecutable hstored hexecutable hcompiled

/-- A phrase is added for the schema that its tenant has then. -/
theorem Coherent.adds (h : session.Coherent) {added : Session} {phrase table column : String}
    {aggregation : Option Aggregation}
    (hadded : session.step (.add tenant phrase table column aggregation) =
      (.added (.ok true), added))
    (hschema : (added.step (.get tenant)).1 = .schema (.ok schema)) :
    added.Coherent ∧ session.plain.Adds tenant phrase schema
      (newTerm phrase table column aggregation) added.plain := by
  obtain ⟨hcoherent, hstep⟩ := h.step (.add tenant phrase table column aggregation)
  rw [hadded] at hcoherent hstep
  have hafter := congrArg Prod.snd hstep
  have hresult : session.plain.add tenant phrase table column aggregation =
      (.ok true, added.plain) :=
    Prod.ext (Answer.added.inj (congrArg Prod.fst hstep)) hafter
  refine ⟨hcoherent, ?_⟩
  have hcases := session.plain.add_cases tenant phrase table column aggregation
  rw [hresult] at hcases
  rcases hcases with ⟨hne, -⟩ | ⟨found, hadds⟩
  · exact absurd rfl hne
  · have hcurrent := PlainSession.current_of_get
      ((congrArg Prod.fst (hcoherent.step (.get tenant)).2).trans hschema)
    rw [PlainSession.current, hadds.loaded] at hcurrent
    obtain rfl := Except.ok.inj hcurrent
    exact hadds

/-- Whether a session is what some steps make of a start. -/
def Reachable (session : Session) : Prop :=
  ∃ configs steps, session = (start configs).after steps

theorem Reachable.coherent (h : session.Reachable) : session.Coherent := by
  obtain ⟨configs, steps, rfl⟩ := h
  exact ((Coherent.start configs).after steps).1

/-- A phrase that has been added to the dictionary of a tenant is understood from then on.  As long
as the schema of the tenant is the one for which the phrase was added, and its table is the table of
an entity, the phrase is found in every question in which it occurs and in which no stored statement
is named: with the first entity of that table, and with the first attribute of that entity that has
the column.  There is something to run then, whatever is done in between, and a compiled question
shows the phrase among what was found. -/
theorem parsed_of_add {session added : Session} (h : session.Reachable)
    {tenant phrase table column : String} {aggregation : Option Aggregation} {schema : Schema}
    {mapping : String × TableMapping} {later : List Step} {request : Request}
    (hadded : session.step (.add tenant phrase table column aggregation) =
      (.added (.ok true), added))
    (hschema : (added.step (.get tenant)).1 = .schema (.ok schema))
    (hmapping : mapping ∈ schema.config.datasource.tables.entries)
    (htable : Schema.sameName mapping.2.table (trimmed table) = true)
    (hkept : ((added.after later).step (.get tenant)).1 = .schema (.ok schema))
    (htenant : request.tenant = tenant)
    (hoccurs : Question.occurs (Question.searchText phrase).toList
      (lowercase request.question.toList) = true)
    (hshortcuts : ∀ name stored, schema.config.mappings.shortcuts.get? name = some stored →
      blank (lowercase name.toList) = false →
        Question.occurs (lowercase name.toList) (lowercase request.question.toList) = false) :
    ∃ entity parsed hit, schema.entityForTable? (trimmed table) = some entity ∧
      (added.after later).parsed request = .ok parsed ∧ parsed.isExecutable = true ∧
      hit ∈ parsed.hits ∧ hit.term = Question.searchText phrase ∧ hit.entity = some entity ∧
      hit.attr = schema.attributeForColumn? entity (trimmed column) ∧
      ∀ compiled, ((added.after later).step (.compile request)).1 = .compiled (.ok compiled) →
        compiled.sql.isSome = true ∧ hit ∈ compiled.parsed.hits ∧
          compiled.parsed.isExecutable = true := by
  subst htenant
  obtain ⟨hcoherent, hadds⟩ := h.coherent.adds hadded hschema
  obtain ⟨hlater, hplain⟩ := hcoherent.after later
  obtain ⟨more, hmore⟩ := hadds.terms_after later
  rw [hplain] at hmore
  obtain ⟨entity, hentity⟩ := Schema.exists_entityForTable? hmapping htable
  have hink : isBlankText (newTerm phrase table column aggregation).canonical = false := by
    rw [canonical_newTerm, ← normalize_isEmpty, normalize_trimmed, normalize_isEmpty, hadds.ink]
  have hnew : Unnamed schema (session.plain.dictionary.terms request.tenant)
      (normalize (newTerm phrase table column aggregation).canonical) := by
    rw [canonical_newTerm, normalize_trimmed]
    exact unnamed_of_isKnown_eq_false (by rw [normalize_isEmpty, hadds.ink]) hadds.unknown
  have hstored :
      Question.stored? schema request.question (lowercase request.question.toList) = none :=
    Question.stored?_eq_none hshortcuts
  -- The term was the first of its name when it came, and whatever came later stands behind it.
  have hlocated := (entity_located_newTerm schema phrase table column aggregation).trans hentity
  obtain ⟨hexecutable, hit, hhit, hterm, hholder, hattr⟩ :=
    Question.exists_hit_of_unnamed _ hink hnew more hlocated
      (by rw [canonical_newTerm, Question.searchText_trimmed]; exact hoccurs) hstored
  obtain ⟨hparsed, hcompiled⟩ := hlater.parsed_eq hkept
  rw [hmore] at hparsed hcompiled
  refine ⟨entity, _, hit, hentity, hparsed, hexecutable, hhit, ?_, hholder, ?_, ?_⟩
  · rw [hterm, canonical_newTerm, Question.searchText_trimmed]
  · rw [hattr, attr_located_newTerm, hentity, Option.bind_some]
  · intro compiled hcompile
    obtain ⟨hsql, hhits, hlast⟩ := hcompiled hstored hexecutable compiled hcompile
    exact ⟨hsql, hhits ▸ hhit, hlast⟩

/-- The shop calls its clients patrons, then its orders something, and is loaded again: patrons are
still clients. -/
theorem parsed_patrons :
    ∃ added parsed hit,
      (start [shop]).step (.add "shop" " Patrons" "clients " "CLIENTID" none) =
        (.added (.ok true), added) ∧
      (added.after [.add "shop" "purchases" "Orders" "Amount" none, .reload "shop"]).parsed
        { tenant := "shop", question := "List all PATRONS" } = .ok parsed ∧
      parsed.isExecutable = true ∧ hit ∈ parsed.hits ∧ hit.term = "patrons" ∧
      hit.entity = some "client" ∧ hit.attr = some "id" := by
  have hreach : (start [shop]).Reachable := ⟨[shop], [], rfl⟩
  have hadded : (start [shop]).step (.add "shop" " Patrons" "clients " "CLIENTID" none) =
      (.added (.ok true), ((start [shop]).step
        (.add "shop" " Patrons" "clients " "CLIENTID" none)).2) :=
    Prod.ext (congrArg Answer.added (by decide +kernel)) rfl
  obtain ⟨entity, parsed, hit, hentity, hparsed, hexecutable, hhit, hterm, hholder, hattr, -⟩ :=
    @parsed_of_add _ _ hreach _ _ _ _ _ ⟨shop, shop_valid⟩
      ("client", ⟨"Clients", .ofList [("id", "ClientId")], none⟩)
      [.add "shop" "purchases" "Orders" "Amount" none, .reload "shop"]
      { tenant := "shop", question := "List all PATRONS" }
      hadded rfl (by decide +kernel) (by decide +kernel) rfl rfl (by decide +kernel) nofun
  obtain rfl : "client" = entity := Option.some.inj hentity
  exact ⟨_, parsed, hit, hadded, hparsed, hexecutable, hhit,
    hterm.trans (by decide +kernel), hholder, hattr.trans (by decide +kernel)⟩

end Session

end AskSql
