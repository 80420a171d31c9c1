import AskSql.Clause.Bind
import AskSql.Question.Parse
import AskSql.Registry
import AskSql.Sql.Statement

/-! The compiler of questions.  It keeps the loaded schemas, the dictionary of every tenant, and for
each tenant the phrases and the resolver of the snapshot that they were made from.  When the
snapshot is no longer the current one they are made anew; the dictionary stays. -/

namespace AskSql

open Vocabulary

/-- What a question is compiled with. -/
structure Request where
  tenant : String
  question : String
  clauses : List Clause := []
  policy : UnboundPolicy := .drop
  dialect : Option Dialect := none

/-- A compiled question.  Without a known entity it has no statement. -/
structure Compiled where
  sql : Option String
  dialect : Dialect
  parsed : ParsedQuestion

/-- What is made from a snapshot: the phrases of its vocabulary and a resolver of its terms. -/
structure Runtime where
  serial : Nat
  phrases : List Question.Phrase
  resolver : Resolver

/-- The runtime of a snapshot. -/
def Runtime.ofSnapshot (snapshot : Snapshot) : Runtime :=
  ⟨snapshot.serial, Question.vocabulary snapshot.schema, { schema := snapshot.schema }⟩

/-- The statement of a question that is executable, with its clauses bound. -/
def compileClauses (resolver : Resolver) (dictionary : Dictionary) (dialect : Dialect)
    (request : Request) (parsed : ParsedQuestion) : Except Fault Compiled × Resolver :=
  let (bound, resolver) :=
    Clause.bind resolver dictionary request.policy parsed request.clauses
  let compiled := do
    let (parsed, _) ← bound
    let sql ← Sql.statement dialect resolver.schema parsed.node
    return ⟨some sql, dialect, parsed⟩
  (compiled, resolver)

/-- Compiles a question in a runtime. -/
def Runtime.compile (runtime : Runtime) (dictionary : Dictionary) (request : Request) :
    Except Fault Compiled × Runtime :=
  let schema := runtime.resolver.schema
  let (terms, resolver) := runtime.resolver.dictionaryTerms dictionary
  let parsed := Question.parseWith schema runtime.phrases terms request.question
  let dialect := request.dialect.getD schema.dialect
  if !parsed.isExecutable then (.ok ⟨none, dialect, parsed⟩, { runtime with resolver })
  else
    let (compiled, resolver) := compileClauses resolver dictionary dialect request parsed
    (compiled, { runtime with resolver })

/-- The state of a compiler. -/
structure Compiler where
  registry : Registry := .empty
  dictionary : Dictionary := .empty
  runtimes : Keyed Runtime := .empty

namespace Compiler

/-- The compiler that has compiled nothing. -/
def empty : Compiler := {}

/-- The compiler after its registry has changed. -/
def withRegistry {α : Type} (compiler : Compiler) (result : α × Registry) : α × Compiler :=
  (result.1, { compiler with registry := result.2 })

/-- The runtime of a tenant, made anew unless it is that of the current snapshot. -/
def runtime (compiler : Compiler) (source : ConfigSource) (tenant : String) :
    Except Fault Runtime × Compiler :=
  let (snapshot, compiler) := compiler.withRegistry (compiler.registry.get source tenant)
  match snapshot with
  | .error fault => (.error fault, compiler)
  | .ok snapshot =>
    let kept := (compiler.runtimes.get? tenant).filter (·.serial = snapshot.serial)
    let runtime := kept.getD (.ofSnapshot snapshot)
    (.ok runtime, { compiler with runtimes := compiler.runtimes.insert tenant runtime })

/-- Compiles a question. -/
def compile (compiler : Compiler) (source : ConfigSource) (request : Request) :
    Except Fault Compiled × Compiler :=
  match compiler.runtime source request.tenant with
  | (.error fault, compiler) => (.error fault, compiler)
  | (.ok runtime, compiler) =>
    let (compiled, runtime) := runtime.compile compiler.dictionary request
    (compiled, { compiler with runtimes := compiler.runtimes.insert request.tenant runtime })

/-- Adds a phrase for a column to the dictionary of a tenant, unless it is known.  Returns whether
it was added. -/
def add (compiler : Compiler) (source : ConfigSource) (tenant phrase table column : String)
    (aggregation : Option Aggregation) : Except Fault Bool × Compiler :=
  match compiler.runtime source tenant with
  | (.error fault, compiler) => (.error fault, compiler)
  | (.ok runtime, compiler) =>
    let (added, resolver, dictionary) :=
      runtime.resolver.add compiler.dictionary phrase table column aggregation none
    (added,
      { compiler with
        dictionary
        runtimes := compiler.runtimes.insert tenant { runtime with resolver } })

/-- Loads a tenant again. -/
def reload (compiler : Compiler) (source : ConfigSource) (tenant : String) :
    Except Fault Unit × Compiler :=
  let (snapshot, compiler) := compiler.withRegistry (compiler.registry.load source tenant)
  (snapshot.map fun _ => (), compiler)

/-- The schema of a tenant, which is loaded if it is not. -/
def schemaOf (compiler : Compiler) (source : ConfigSource) (tenant : String) :
    Except Fault Schema × Compiler :=
  let (snapshot, compiler) := compiler.withRegistry (compiler.registry.get source tenant)
  (snapshot.map (·.schema), compiler)

/-- Drops the snapshot of a tenant.  Returns whether there was one. -/
def invalidate (compiler : Compiler) (tenant : String) : Bool × Compiler :=
  compiler.withRegistry (compiler.registry.invalidate tenant)

/-- Drops every snapshot. -/
def invalidateAll (compiler : Compiler) : Compiler :=
  { compiler with registry := compiler.registry.invalidateAll }

end Compiler

/-- Configurations held in memory, as a source.  Each is checked when it is loaded. -/
def ConfigSource.ofConfigs (configs : Keyed TenantConfig) : ConfigSource := fun tenant =>
  match configs.get? tenant with
  | some config => (Schema.ofConfig config).map (·.config)
  | none => .error (.unknownTenant tenant)

end AskSql
