import AskSql.Compiler
import AskSql.Proofs.Clause.Binding
import AskSql.Proofs.Question.Assembly
import AskSql.Proofs.Sql.Rendering

/-! Which columns stand in a compiled statement.  Clauses are bound to columns of the table that the
statement reads; the columns that the question itself asks for may lie elsewhere. -/

namespace AskSql

open Vocabulary

variable {compiler ready : Compiler} {source : ConfigSource} {request : Request} {runtime : Runtime}
  {dictionary : Dictionary} {compiled : Compiled} {sql : String}

/-- What a runtime finds in the question of a request. -/
def Runtime.parsed (runtime : Runtime) (dictionary : Dictionary) (request : Request) :
    ParsedQuestion :=
  Question.parseWith runtime.resolver.schema runtime.phrases
    (runtime.resolver.dictionaryTerms dictionary).1 request.question

/-- A question that could be run is compiled with its clauses. -/
theorem Runtime.compile_eq (runtime : Runtime) (dictionary : Dictionary) (request : Request) :
    (runtime.compile dictionary request).1 =
      let dialect := request.dialect.getD runtime.resolver.schema.dialect
      if !(runtime.parsed dictionary request).isExecutable then
        .ok ⟨none, dialect, runtime.parsed dictionary request⟩
      else (compileClauses (runtime.resolver.indexed dictionary) dictionary dialect request
        (runtime.parsed dictionary request)).1 := by
  simp only [compile, parsed]
  exact apply_ite Prod.fst _ _ _

/-- A compiled statement is that of a question that could be run, with its clauses bound. -/
theorem Runtime.compile_ok (h : (runtime.compile dictionary request).1 = .ok compiled)
    (hsql : compiled.sql = some sql) :
    (runtime.parsed dictionary request).isExecutable = true ∧
      (∃ resolver count, (Clause.bind resolver dictionary request.policy
        (runtime.parsed dictionary request) request.clauses).1 = .ok (compiled.parsed, count)) ∧
      Sql.statement compiled.dialect runtime.resolver.schema compiled.parsed.node = .ok sql := by
  rw [Runtime.compile_eq] at h
  split at h
  · obtain rfl := Except.ok.inj h
    contradiction
  · rename_i hexecutable
    simp only [compileClauses] at h
    obtain ⟨⟨bound, count⟩, hbind, h⟩ := exists_of_bind h
    obtain ⟨text, htext, h⟩ := exists_of_bind h
    obtain rfl := Except.ok.inj h
    obtain rfl : text = sql := Option.some.inj hsql
    refine ⟨by simpa using hexecutable, ⟨_, count, hbind⟩, ?_⟩
    rw [Clause.bind_schema] at htext
    exact htext

/-- A question that names no stored statement and could be run asks for what its phrases make. -/
theorem Question.parseWith_of_isExecutable {schema : Schema} {known : List Phrase}
    {terms : List Term}
    {text : String} (hstored : stored? schema text (Text.lowercase text.toList) = none)
    (h : (parseWith schema known terms text).isExecutable = true) :
    ∃ query, (parseWith schema known terms text).node = .select query ∧
      Assembled schema (parseWith schema known terms text).hits
        (parseWith schema known terms text).intent query ∧
      ∃ source, query.source? = some source := by
  simp only [parseWith, hstored, ofHits] at h ⊢
  split at h
  · contradiction
  · rename_i hhits
    rw [if_neg hhits]
    refine ⟨_, rfl, assembled_assemble _ _ _, ?_⟩
    simp only [ParsedQuestion.isExecutable, QueryNode.isExecutable, Select.isResolvable,
      Bool.not_eq_true', List.isEmpty_eq_false_iff] at h
    exact ⟨_, List.head?_eq_some_head h⟩

/-- A question that could be run and names no stored statement is compiled to a statement, if its
clauses and the statement allow, and what was found in it is kept. -/
theorem Runtime.compile_of_isExecutable
    (hstored : Question.stored? runtime.resolver.schema request.question
      (Text.lowercase request.question.toList) = none)
    (hexecutable : (runtime.parsed dictionary request).isExecutable = true)
    (h : (runtime.compile dictionary request).1 = .ok compiled) :
    compiled.sql.isSome = true ∧ compiled.parsed.hits = (runtime.parsed dictionary request).hits ∧
      compiled.parsed.isExecutable = true := by
  have hsql : ∃ sql, compiled.sql = some sql := by
    rw [Runtime.compile_eq, hexecutable] at h
    obtain ⟨bound, -, h⟩ := exists_of_bind h
    obtain ⟨sql, -, h⟩ := exists_of_bind h
    exact ⟨sql, by rw [← Except.ok.inj h]⟩
  obtain ⟨sql, hsql⟩ := hsql
  obtain ⟨-, ⟨resolver, count, hbind⟩, -⟩ := Runtime.compile_ok h hsql
  obtain ⟨found, hfound, -, origin, horigin⟩ :=
    Question.parseWith_of_isExecutable hstored hexecutable
  obtain ⟨hhits, -, query, hquery, hextends⟩ := Clause.bind_ok hfound horigin hbind
  refine ⟨by rw [hsql]; rfl, hhits, ?_⟩
  have hsource : query.entities.head? = some origin := by
    rw [hextends.entities]
    exact horigin
  rw [ParsedQuestion.isExecutable, hquery, QueryNode.isExecutable, Select.isResolvable,
    Bool.not_eq_true', List.isEmpty_eq_false_iff]
  exact List.ne_nil_of_mem (List.mem_of_head? hsource)

/-- A compiler compiles in the runtime of the tenant. -/
theorem Compiler.compile_eq (h : compiler.runtime source request.tenant = (.ok runtime, ready)) :
    (compiler.compile source request).1 = (runtime.compile ready.dictionary request).1 := by
  simp only [compile, h]

/-- A compiled question that names no stored statement reads the entity that it mentions first.  Its
clauses name columns of that entity's table alone.  The columns that it shows lie in that table,
too, exactly when the attributes that its intent takes from its phrases belong to that entity. -/
theorem compile_source_iff
    (hruntime : compiler.runtime source request.tenant = (.ok runtime, ready))
    (hquestion : Question.stored? runtime.resolver.schema request.question
      (Text.lowercase request.question.toList) = none)
    (hcompiled : (compiler.compile source request).1 = .ok compiled)
    (hsql : compiled.sql = some sql) :
    ∃ query entity table, compiled.parsed.node = .select query ∧
      Sql.statement compiled.dialect runtime.resolver.schema (.select query) = .ok sql ∧
      query.source?.map (·.name) = some entity ∧
      (compiled.parsed.hits.filterMap (·.entity)).head? = some entity ∧
      runtime.resolver.schema.tableFor entity = .ok table ∧
      (∀ target ∈ query.clauseTargets, target.entity = entity) ∧
      ((∀ target ∈ query.rendered, target.entity = entity) ↔
        ∀ target ∈ Question.taken runtime.resolver.schema compiled.parsed.hits
          compiled.parsed.intent, target.entity = entity) ∧
      ∀ target ∈ query.rendered, target.entity = entity →
        ∃ column, table.columns.get? target.name = some column := by
  rw [Compiler.compile_eq hruntime] at hcompiled
  obtain ⟨hexecutable, ⟨resolver, count, hbind⟩, hstatement⟩ := Runtime.compile_ok hcompiled hsql
  obtain ⟨found, hfound, hassembled, origin, horigin⟩ :=
    Question.parseWith_of_isExecutable hquestion hexecutable
  obtain ⟨hhits, hintent, query, hquery, hextends⟩ := Clause.bind_ok hfound horigin hbind
  have hsource : query.source? = some origin := by
    rw [Select.source?, hextends.entities]
    exact horigin
  have hfirst := hassembled.source?_eq
  rw [horigin, Option.map_some, ← hhits] at hfirst
  rw [hquery] at hstatement
  obtain ⟨text, hrender⟩ := Sql.renderSelect_of_statement hstatement
  obtain ⟨r⟩ := Sql.rendering_of_renderSelect hsource hrender
  have hclauses : ∀ target ∈ query.clauseTargets, target.entity = origin.name := by
    intro target htarget
    rcases hextends.added target htarget with hold | hnew
    · rw [hassembled.clauses] at hold
      contradiction
    · exact hnew
  have hshown : ∀ target, target ∈ query.shownTargets ↔ target ∈ Question.taken
      runtime.resolver.schema compiled.parsed.hits compiled.parsed.intent := by
    intro target
    rw [hhits, hintent, Select.shownTargets, hextends.aggregates, hextends.projection]
    exact hassembled.shown target
  refine ⟨query, origin.name, r.table, hquery, hstatement, by rw [hsource]; rfl, hfirst.symm,
    r.table_eq, hclauses, ?_, ?_⟩
  · constructor
    · intro h target htarget
      exact h target (List.mem_append_left _ ((hshown target).2 htarget))
    · intro h target htarget
      rcases List.mem_append.1 htarget with htarget | htarget
      · exact h target ((hshown target).1 htarget)
      · exact hclauses target htarget
  · intro target htarget hentity
    obtain ⟨name, hname⟩ := r.columns target htarget
    rw [hentity] at hname
    exact ⟨name, Sql.get?_of_columnFor r.table_eq hname⟩

/-! ### A shop -/

/-- Clients and orders, each in a table of its own. -/
def shop : TenantConfig where
  tenant := "shop"
  ontology :=
    { entities := .ofList
        [("client", ⟨"Client", ["clients"], "",
          .ofList [("id", ⟨.integer, ["client id"], true, none, false, none⟩)]⟩),
         ("order", ⟨"Order", ["orders"], "",
          .ofList [("amount", ⟨.decimal, ["amount"], true, none, false, none⟩)]⟩)]
      relationships := .empty }
  functions := ⟨.ofList [("max", ⟨.max, ["highest"], .dynamic, ""⟩)], .empty, {}⟩
  datasource :=
    ⟨"shop", "sqlite", "shop.db",
     .ofList [("client", ⟨"Clients", .ofList [("id", "ClientId")], none⟩),
              ("order", ⟨"Orders", .ofList [("amount", "Amount")], none⟩)], {}⟩
  mappings := ⟨"shop", {}, {}, .empty⟩

theorem shop_valid : shop.faults = [] := by decide +kernel

/-- The runtime of the shop after its first load. -/
def shopRuntime : Runtime := .ofSnapshot ⟨0, ⟨shop, shop_valid⟩⟩

/-- A question about clients that names an attribute of orders. -/
def shopRequest : Request := { tenant := "shop", question := "clients amount" }

/-- The phrases found in the question. -/
def shopHits : List Match :=
  [⟨"clients", some "client", none, none, 0, 7⟩,
   ⟨"amount", some "order", some "amount", none, 8, 6⟩]

theorem shop_parsed : shopRuntime.parsed .empty shopRequest =
    Question.ofHits ⟨shop, shop_valid⟩ "clients amount" "clients amount".toList shopHits := by
  have hstored : Question.stored? shopRuntime.resolver.schema shopRequest.question
      (Text.lowercase shopRequest.question.toList) = none := rfl
  have hlower : Text.lowercase shopRequest.question.toList = "clients amount".toList := by
    decide +kernel
  have hterms : (shopRuntime.resolver.dictionaryTerms .empty).1 = [] := by decide +kernel
  have hhits : Question.hits (Question.withTerms shopRuntime.phrases []) "clients amount".toList =
      shopHits := by
    rw [Question.hits, List.mergeSort_of_pairwise (by decide +kernel)]
    decide +kernel
  simp only [Runtime.parsed, Question.parseWith, hstored, hterms]
  rw [hlower, hhits]
  rfl

/-- The statement of the question reads the clients and shows a column of the orders. -/
theorem compile_source_shop :
    ∃ compiled query, (Compiler.empty.compile (fun _ => .ok shop) shopRequest).1 = .ok compiled ∧
      compiled.sql = some "SELECT Amount FROM Clients" ∧ compiled.parsed.node = .select query ∧
      query.source?.map (·.name) = some "client" ∧
      ¬∀ target ∈ query.rendered, target.entity = "client" := by
  obtain ⟨ready, hready, hdictionary⟩ : ∃ ready,
      Compiler.empty.runtime (fun _ => .ok shop) shopRequest.tenant = (.ok shopRuntime, ready) ∧
        ready.dictionary = .empty := ⟨_, rfl, rfl⟩
  obtain ⟨compiled, hcompiled, hsql, hhits, hintent⟩ : ∃ compiled,
      (Compiler.empty.compile (fun _ => .ok shop) shopRequest).1 = .ok compiled ∧
        compiled.sql = some "SELECT Amount FROM Clients" ∧ compiled.parsed.hits = shopHits ∧
        compiled.parsed.intent = .select := by
    rw [Compiler.compile_eq hready, Runtime.compile_eq, hdictionary, shop_parsed]
    exact ⟨_, rfl, by decide +kernel, rfl, rfl⟩
  obtain ⟨query, entity, table, hnode, -, hsource, hfirst, -, -, hiff, -⟩ :=
    compile_source_iff hready rfl hcompiled hsql
  rw [hhits] at hfirst
  obtain rfl : "client" = entity := Option.some.inj hfirst
  refine ⟨compiled, query, hcompiled, hsql, hnode, hsource, ?_⟩
  rw [hiff, hhits, hintent]
  decide

end AskSql
