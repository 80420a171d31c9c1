import AskSql.Compiler

/-! Sessions: a compiler together with the configurations in memory that it reads from.  A session
takes one step after another, each with an answer.  A configuration that is put in place is seen the
next time its tenant is loaded. -/

namespace AskSql

/-- One step of a session. -/
inductive Step
  | compile (request : Request)
  | add (tenant phrase table column : String) (aggregation : Option Aggregation)
  | put (config : TenantConfig)
  | reload (tenant : String)
  | get (tenant : String)
  | invalidate (tenant : String)
  | invalidateAll
  | cached

/-- What a step answers. -/
inductive Answer
  | compiled (result : Except Fault Compiled)
  | added (result : Except Fault Bool)
  | reloaded (result : Except Fault Unit)
  | schema (result : Except Fault Schema)
  | dropped (wasLoaded : Bool)
  | tenants (names : List String)
  | silent

/-- The tenant that a step names. -/
def Step.tenant? : Step → Option String
  | compile request => some request.tenant
  | add tenant .. | reload tenant | get tenant | invalidate tenant => some tenant
  | put config => some config.tenant
  | invalidateAll | cached => none

/-- The answers of a machine that takes steps one after another, each with its step. -/
def runSteps {σ : Type} (step : σ → Step → Answer × σ) : σ → List Step → List (Step × Answer)
  | _, [] => []
  | state, first :: steps =>
    let (answer, state) := step state first
    (first, answer) :: runSteps step state steps

/-- A compiler and the configurations that it reads from. -/
structure Session where
  configs : Keyed TenantConfig := .empty
  compiler : Compiler := .empty

namespace Session

/-- The session in which nothing has been done but to put configurations in place. -/
def start (configs : List TenantConfig) : Session :=
  { configs := .ofList (configs.map fun config => (config.tenant, config)) }

/-- The session with another compiler. -/
def withCompiler {α : Type} (session : Session) (answer : α → Answer) (result : α × Compiler) :
    Answer × Session :=
  (answer result.1, { session with compiler := result.2 })

/-- Takes one step. -/
def step (session : Session) (step : Step) : Answer × Session :=
  let compiler := session.compiler
  let source := ConfigSource.ofConfigs session.configs
  match step with
  | .compile request => session.withCompiler .compiled (compiler.compile source request)
  | .add tenant phrase table column aggregation =>
    session.withCompiler .added (compiler.add source tenant phrase table column aggregation)
  | .put config =>
    (.silent, { session with configs := session.configs.insert config.tenant config })
  | .reload tenant => session.withCompiler .reloaded (compiler.reload source tenant)
  | .get tenant => session.withCompiler .schema (compiler.schemaOf source tenant)
  | .invalidate tenant => session.withCompiler .dropped (compiler.invalidate tenant)
  | .invalidateAll => (.silent, { session with compiler := compiler.invalidateAll })
  | .cached => (.tenants compiler.registry.tenants, session)

/-- The answers to a list of steps. -/
def run (session : Session) (steps : List Step) : List (Step × Answer) :=
  runSteps step session steps

end Session

end AskSql
