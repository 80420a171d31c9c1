import AskSql.Proofs.Compiler.Fresh
import AskSql.Proofs.Compiler.SourceTable
import AskSql.Proofs.Schema
import AskSql.Session

/-! Sessions answer as if nothing were kept but the schemas that are loaded.  A plain session has
the configurations, the loaded schemas and the dictionary for its state, and makes everything else
on the spot.  A compiler's state is coherent if what it keeps for a snapshot is what would be made
now; each step keeps it so and answers as the plain session does. -/

namespace AskSql

open Vocabulary

/-! ### Plain sessions -/

/-- The state of a session apart from everything that can be made again. -/
structure PlainSession where
  configs : Keyed TenantConfig := .empty
  loaded : Keyed Schema := .empty
  dictionary : Dictionary := .empty

namespace PlainSession

/-- Loads a tenant from its configuration.  A failed load changes nothing. -/
def load (session : PlainSession) (tenant : String) : Except Fault Schema × PlainSession :=
  let schema : Except Fault Schema :=
    match session.configs.get? tenant with
    | none => .error (.unknownTenant tenant)
    | some config => Schema.ofConfig config
  match schema with
  | .error fault => (.error fault, session)
  | .ok schema => (.ok schema, { session with loaded := session.loaded.insert tenant schema })

/-- The loaded schema of a tenant, which is loaded if it is not. -/
def current (session : PlainSession) (tenant : String) : Except Fault Schema × PlainSession :=
  match session.loaded.get? tenant with
  | some schema => (.ok schema, session)
  | none => session.load tenant

/-- Compiles a question from the loaded schema and the dictionary of its tenant. -/
def compile (session : PlainSession) (request : Request) : Except Fault Compiled × PlainSession :=
  let (schema, session) := session.current request.tenant
  (schema.bind fun schema =>
    compileFresh schema (session.dictionary.terms request.tenant) request, session)

/-- Adds a phrase to the dictionary of a tenant, unless it is known. -/
def add (session : PlainSession) (tenant phrase table column : String)
    (aggregation : Option Aggregation) : Except Fault Bool × PlainSession :=
  match session.current tenant with
  | (.error fault, session) => (.error fault, session)
  | (.ok schema, session) =>
    if isBlankText phrase || isBlankText table || isBlankText column then
      (.error .blankMapping, session)
    else if isKnown schema (session.dictionary.terms tenant) (normalize phrase) then
      (.ok false, session)
    else
      let term : Term :=
        { canonical := trimmed phrase, table := trimmed table, column :=
          trimmed column, aggregation }
      (.ok true, { session with dictionary := session.dictionary.add tenant term })

/-- Takes one step. -/
def step (session : PlainSession) : Step → Answer × PlainSession
  | .compile request =>
    let (compiled, session) := session.compile request
    (.compiled compiled, session)
  | .add tenant phrase table column aggregation =>
    let (added, session) := session.add tenant phrase table column aggregation
    (.added added, session)
  | .put config =>
    (.silent, { session with configs := session.configs.insert config.tenant config })
  | .reload tenant =>
    let (schema, session) := session.load tenant
    (.reloaded (schema.map fun _ => ()), session)
  | .get tenant =>
    let (schema, session) := session.current tenant
    (.schema schema, session)
  | .invalidate tenant =>
    (.dropped (session.loaded.contains tenant),
      { session with loaded := session.loaded.erase tenant })
  | .invalidateAll => (.silent, { session with loaded := .empty })
  | .cached => (.tenants session.loaded.keys, session)

/-- A failed load changes nothing. -/
theorem load_of_error {session : PlainSession} {tenant : String} {fault : Fault}
    (h : (session.load tenant).1 = .error fault) : (session.load tenant).2 = session := by
  unfold load at h ⊢
  dsimp only at h ⊢
  split at h
  · rfl
  · contradiction

/-- A configuration that is put in place does not show before its tenant is loaded. -/
theorem compile_put {session : PlainSession} {request : Request} {schema : Schema}
    (h : session.loaded.get? request.tenant = some schema) (config : TenantConfig) :
    ((session.step (.put config)).2.compile request).1 = (session.compile request).1 := by
  simp only [step, compile, current, h]

/-- The answers to a list of steps. -/
def run (session : PlainSession) (steps : List Step) : List (Step × Answer) :=
  runSteps step session steps

/-- The session in which nothing has been done but to put configurations in place. -/
def start (configs : List TenantConfig) : PlainSession :=
  { configs := .ofList (configs.map fun config => (config.tenant, config)) }

end PlainSession

/-! ### Coherent sessions -/

namespace Session

variable {session : Session} {tenant : String}

/-- What a session keeps apart from everything that can be made again. -/
def plain (session : Session) : PlainSession where
  configs := session.configs
  loaded := session.compiler.registry.snapshots.map (·.schema)
  dictionary := session.compiler.dictionary

/-- Everything is kept under the tenant that it belongs to, what was made from a snapshot is told
from it by the serial number, and what was made from a current snapshot is what would be made
now. -/
structure Coherent (session : Session) : Prop where
  configs : ∀ tenant config, session.configs.get? tenant = some config → config.tenant = tenant
  snapshots : ∀ tenant snapshot, session.compiler.registry.snapshots.get? tenant = some snapshot →
    snapshot.schema.tenant = tenant ∧ snapshot.serial < session.compiler.registry.nextSerial
  serials : ∀ tenant runtime, session.compiler.runtimes.get? tenant = some runtime →
    runtime.serial < session.compiler.registry.nextSerial
  runtimes : ∀ tenant snapshot runtime,
    session.compiler.registry.snapshots.get? tenant = some snapshot →
    session.compiler.runtimes.get? tenant = some runtime → runtime.serial = snapshot.serial →
    runtime.Fresh snapshot.schema (session.compiler.dictionary.terms tenant)
  dictionary : ∀ tenant, ∀ term ∈ session.compiler.dictionary.terms tenant, term.aliases = []

theorem Coherent.start (configs : List TenantConfig) : (start configs).Coherent where
  configs tenant config hget := by
    have hall : ∀ e ∈ configs.map fun config => (config.tenant, config), e.2.tenant = e.1 := by
      intro e he
      obtain ⟨config, -, rfl⟩ := List.mem_map.1 he
      rfl
    exact Keyed.forall_ofList (p := fun tenant config => config.tenant = tenant) hall hget
  snapshots tenant snapshot h := by contradiction
  serials tenant runtime h := by contradiction
  runtimes tenant snapshot runtime h := by contradiction
  dictionary tenant term h := by contradiction

/-- A source in memory gives what is put there, checked once however often it is checked. -/
theorem ofConfigs_bind (configs : Keyed TenantConfig) (tenant : String) :
    ConfigSource.ofConfigs configs tenant >>= Schema.ofConfig =
      match configs.get? tenant with
      | none => .error (.unknownTenant tenant)
      | some config => Schema.ofConfig config := by
  rw [ConfigSource.ofConfigs]
  cases configs.get? tenant with
  | none => rfl
  | some config =>
    cases hschema : Schema.ofConfig config with
    | error fault => simp [hschema, Except.map, bind, Except.bind]
    | ok schema => simp [hschema, Except.map, bind, Except.bind, Schema.ofConfig_config]

/-- The session with another registry. -/
def withRegistry (session : Session) (registry : Registry) : Session :=
  { session with compiler := { session.compiler with registry } }

/-- A loaded snapshot belongs to its tenant and is told from everything made before. -/
theorem Coherent.loaded (h : session.Coherent) {schema : Schema}
    (htenant : schema.tenant = tenant) :
    (session.withRegistry
      { snapshots := session.compiler.registry.snapshots.insert tenant
          ⟨session.compiler.registry.nextSerial, schema⟩
        nextSerial := session.compiler.registry.nextSerial + 1 }).Coherent where
  configs := h.configs
  snapshots other snapshot hsnapshot := by
    rw [withRegistry, Keyed.get?_insert] at hsnapshot
    split at hsnapshot
    · rename_i heq
      obtain rfl := Option.some.inj hsnapshot
      exact ⟨htenant.trans heq.symm, Nat.lt_succ_self _⟩
    · obtain ⟨hschema, hserial⟩ := h.snapshots other snapshot hsnapshot
      exact ⟨hschema, Nat.lt_succ_of_lt hserial⟩
  serials other runtime hruntime := Nat.lt_succ_of_lt (h.serials other runtime hruntime)
  runtimes other snapshot runtime hsnapshot hruntime hserial := by
    rw [withRegistry, Keyed.get?_insert] at hsnapshot
    split at hsnapshot
    · -- No runtime has the serial number of the new snapshot.
      obtain rfl := Option.some.inj hsnapshot
      exact absurd hserial (Nat.ne_of_lt (h.serials other runtime hruntime))
    · exact h.runtimes other snapshot runtime hsnapshot hruntime hserial
  dictionary := h.dictionary

/-- Loading a tenant keeps the session coherent and is loading it in the plain session. -/
theorem Coherent.load (h : session.Coherent) (tenant : String) :
    let loaded := session.compiler.registry.load (.ofConfigs session.configs) tenant
    (session.withRegistry loaded.2).Coherent ∧
      session.plain.load tenant =
        (loaded.1.map (·.schema), (session.withRegistry loaded.2).plain) ∧
      ∀ snapshot, loaded.1 = .ok snapshot → loaded.2.snapshots.get? tenant = some snapshot := by
  have hload : session.plain.load tenant =
      match ConfigSource.ofConfigs session.configs tenant >>= Schema.ofConfig with
      | .error fault => (.error fault, session.plain)
      | .ok schema =>
        (.ok schema,
          { session.plain with loaded := session.plain.loaded.insert tenant schema }) := by
    rw [ofConfigs_bind]
    rfl
  rw [hload, Registry.load]
  cases hschema : ConfigSource.ofConfigs session.configs tenant >>= Schema.ofConfig with
  | error fault => exact ⟨h, rfl, by simp⟩
  | ok schema =>
    have htenant : schema.tenant = tenant := by
      rw [ofConfigs_bind] at hschema
      split at hschema
      · contradiction
      · rename_i config hconfig
        rw [Schema.tenant, Schema.config_of_ofConfig hschema]
        exact h.configs tenant config hconfig
    refine ⟨h.loaded htenant, ?_, ?_⟩
    · simp [plain, withRegistry, Except.map]
    · rintro snapshot hsnapshot
      obtain rfl := Except.ok.inj hsnapshot
      exact Keyed.get?_insert_self ..

/-- So is getting the snapshot of a tenant. -/
theorem Coherent.get (h : session.Coherent) (tenant : String) :
    let got := session.compiler.registry.get (.ofConfigs session.configs) tenant
    (session.withRegistry got.2).Coherent ∧
      session.plain.current tenant = (got.1.map (·.schema), (session.withRegistry got.2).plain) ∧
      ∀ snapshot, got.1 = .ok snapshot → got.2.snapshots.get? tenant = some snapshot := by
  rw [PlainSession.current, Registry.get]
  have hloaded : session.plain.loaded.get? tenant =
      (session.compiler.registry.snapshots.get? tenant).map (·.schema) := Keyed.get?_map ..
  rw [hloaded]
  cases hsnapshot : session.compiler.registry.snapshots.get? tenant with
  | none => exact h.load tenant
  | some snapshot =>
    refine ⟨h, rfl, ?_⟩
    rintro found hfound
    obtain rfl := Except.ok.inj hfound
    exact hsnapshot

/-- A runtime that was made from the current snapshot of a tenant and is as it would be made now. -/
structure Ready (session : Session) (tenant : String) (schema : Schema) (runtime : Runtime) :
    Prop where
  coherent : session.Coherent
  snapshot : ∃ serial, session.compiler.registry.snapshots.get? tenant = some ⟨serial, schema⟩ ∧
    runtime.serial = serial
  fresh : runtime.Fresh schema (session.compiler.dictionary.terms tenant)

theorem Ready.tenant_eq {schema : Schema} {runtime : Runtime}
    (h : session.Ready tenant schema runtime) : schema.tenant = tenant := by
  obtain ⟨serial, hsnapshot, -⟩ := h.snapshot
  exact (h.coherent.snapshots tenant _ hsnapshot).1

/-- A session stays coherent when a runtime is kept for a tenant, together with dictionary terms for
which it is fresh. -/
theorem Ready.keep {schema : Schema} {before runtime : Runtime} {dictionary : Dictionary}
    (h : session.Ready tenant schema before) (hserial : runtime.serial = before.serial)
    (hfresh : runtime.Fresh schema (dictionary.terms tenant))
    (hother : ∀ other ≠ tenant, dictionary.terms other = session.compiler.dictionary.terms other)
    (hplain : ∀ term ∈ dictionary.terms tenant, term.aliases = []) :
    Coherent
      { session with
        compiler :=
          { session.compiler with
            dictionary
            runtimes := session.compiler.runtimes.insert tenant runtime } } where
  configs := h.coherent.configs
  snapshots := h.coherent.snapshots
  serials other kept hkept := by
    rw [Keyed.get?_insert] at hkept
    split at hkept
    · obtain rfl := Option.some.inj hkept
      obtain ⟨serial, hsnapshot, hbefore⟩ := h.snapshot
      rw [hserial, hbefore]
      exact (h.coherent.snapshots tenant _ hsnapshot).2
    · exact h.coherent.serials other kept hkept
  runtimes other snapshot kept hsnapshot hkept hsame := by
    rw [Keyed.get?_insert] at hkept
    split at hkept
    · rename_i heq
      obtain rfl := Option.some.inj hkept
      obtain ⟨serial, hcurrent, -⟩ := h.snapshot
      rw [heq] at hsnapshot ⊢
      obtain rfl := Option.some.inj (hcurrent.symm.trans hsnapshot)
      exact hfresh
    · rename_i hne
      rw [hother other hne]
      exact h.coherent.runtimes other snapshot kept hsnapshot hkept hsame
  dictionary other := by
    by_cases heq : other = tenant
    · rw [heq]
      exact hplain
    · rw [hother other heq]
      exact h.coherent.dictionary other

/-- What a compiler takes for the runtime of a current snapshot is ready. -/
theorem Coherent.ready (h : session.Coherent) {snapshot : Snapshot}
    (hsnapshot : session.compiler.registry.snapshots.get? tenant = some snapshot) :
    session.Ready tenant snapshot.schema
      (((session.compiler.runtimes.get? tenant).filter (·.serial = snapshot.serial)).getD
        (.ofSnapshot snapshot)) := by
  have hmade : session.Ready tenant snapshot.schema (.ofSnapshot snapshot) :=
    ⟨h, ⟨snapshot.serial, hsnapshot, rfl⟩, .ofSnapshot snapshot _⟩
  cases hkept : session.compiler.runtimes.get? tenant with
  | none => exact hmade
  | some kept =>
    by_cases hserial : kept.serial = snapshot.serial
    · rw [Option.filter_some_pos (by simpa using hserial), Option.getD_some]
      exact ⟨h, ⟨snapshot.serial, hsnapshot, hserial⟩,
        h.runtimes tenant snapshot kept hsnapshot hkept hserial⟩
    · rw [Option.filter_some_neg (by simpa using hserial), Option.getD_none]
      exact hmade

/-- The runtime of a tenant is made exactly if the plain session has a schema for it, and is ready
then. -/
theorem Coherent.runtime (h : session.Coherent) (tenant : String) :
    (∃ fault compiler,
      session.compiler.runtime (.ofConfigs session.configs) tenant = (.error fault, compiler) ∧
        Coherent { session with compiler } ∧
        session.plain.current tenant = (.error fault, plain { session with compiler })) ∨
      ∃ schema runtime compiler,
        session.compiler.runtime (.ofConfigs session.configs) tenant = (.ok runtime, compiler) ∧
          Ready { session with compiler } tenant schema runtime ∧
          session.plain.current tenant = (.ok schema, plain { session with compiler }) := by
  obtain ⟨hcoherent, hcurrent, hgot⟩ := h.get tenant
  cases hget : session.compiler.registry.get (.ofConfigs session.configs) tenant with
  | mk result registry =>
    rw [hget] at hcoherent hcurrent hgot
    cases result with
    | error fault =>
      refine Or.inl ⟨fault, { session.compiler with registry }, ?_, hcoherent, hcurrent⟩
      simp [Compiler.runtime, Compiler.withRegistry, hget]
    | ok snapshot =>
      have hready := hcoherent.ready (hgot snapshot rfl)
      have hkeep := hready.keep rfl hready.fresh (fun _ _ => rfl) (hcoherent.dictionary tenant)
      refine Or.inr ⟨snapshot.schema, _, _, ?_, ⟨hkeep, hready.snapshot, hready.fresh⟩, hcurrent⟩
      simp only [Compiler.runtime, Compiler.withRegistry, hget]
      rfl

/-- Compiling answers as the plain session does. -/
theorem Coherent.compile (h : session.Coherent) (request : Request) :
    let compiled := session.compiler.compile (.ofConfigs session.configs) request
    Coherent { session with compiler := compiled.2 } ∧
      session.plain.compile request =
      (compiled.1, plain { session with compiler := compiled.2 }) := by
  rw [PlainSession.compile, Compiler.compile]
  rcases h.runtime request.tenant with
    ⟨fault, compiler, hruntime, hcoherent, hcurrent⟩ |
    ⟨schema, runtime, compiler, hruntime, hready, hcurrent⟩
  · rw [hruntime, hcurrent]
    exact ⟨hcoherent, rfl⟩
  · rw [hruntime, hcurrent]
    have htenant := hready.tenant_eq
    have hfresh := hready.fresh
    rw [← htenant] at hfresh
    obtain ⟨hcompiled, hnext, hserial⟩ := hfresh.compile request
    rw [htenant] at hcompiled hnext
    refine ⟨hready.keep hserial hnext (fun _ _ => rfl) (hready.coherent.dictionary _), ?_⟩
    rw [hcompiled]
    rfl

/-- Adding a phrase answers as the plain session does. -/
theorem Coherent.add (h : session.Coherent) (tenant phrase table column : String)
    (aggregation : Option Aggregation) :
    let added :=
      session.compiler.add (.ofConfigs session.configs) tenant phrase table column aggregation
    Coherent { session with compiler := added.2 } ∧
      session.plain.add tenant phrase table column aggregation =
        (added.1, plain { session with compiler := added.2 }) := by
  rw [PlainSession.add, Compiler.add]
  rcases h.runtime tenant with
    ⟨fault, compiler, hruntime, hcoherent, hcurrent⟩ |
    ⟨schema, runtime, compiler, hruntime, hready, hcurrent⟩
  · rw [hruntime, hcurrent]
    exact ⟨hcoherent, rfl⟩
  · rw [hruntime, hcurrent]
    have htenant := hready.tenant_eq
    have hplain := hready.coherent.dictionary tenant
    have hkeep := hready.keep rfl hready.fresh (fun _ _ => rfl) hplain
    have hresolver := hready.fresh.resolver
    rw [← htenant] at hresolver
    have hadd := hresolver.add_eq (htenant ▸ hplain) phrase table column aggregation none
    rw [htenant] at hadd
    dsimp only [plain]
    rw [hadd]
    split
    · exact ⟨hkeep, rfl⟩
    · split
      · exact ⟨hkeep, rfl⟩
      · refine ⟨hready.keep rfl ⟨hready.fresh.phrases_eq, ?_⟩
          (fun other hne => Dictionary.terms_add_of_ne _ _ hne) ?_, rfl⟩
        · exact ⟨hresolver.schema_eq, hresolver.threshold_eq, by simp⟩
        intro term hterm
        rw [Dictionary.terms_add_self] at hterm
        rcases List.mem_append.1 hterm with hterm | hterm
        · exact hplain term hterm
        · rw [List.mem_singleton.1 hterm]

/-- Each step keeps a session coherent and answers as the plain session does. -/
theorem Coherent.step (h : session.Coherent) (step : Step) :
    (session.step step).2.Coherent ∧
      session.plain.step step = ((session.step step).1, (session.step step).2.plain) := by
  cases step with
  | compile request =>
    obtain ⟨hcoherent, hcompile⟩ := h.compile request
    refine ⟨hcoherent, ?_⟩
    rw [PlainSession.step, hcompile]
    rfl
  | add tenant phrase table column aggregation =>
    obtain ⟨hcoherent, hadd⟩ := h.add tenant phrase table column aggregation
    refine ⟨hcoherent, ?_⟩
    rw [PlainSession.step, hadd]
    rfl
  | put config =>
    refine ⟨⟨?_, h.snapshots, h.serials, h.runtimes, h.dictionary⟩, rfl⟩
    intro tenant found hfound
    rw [Session.step, Keyed.get?_insert] at hfound
    split at hfound
    · rename_i heq
      rw [heq, ← Option.some.inj hfound]
    · exact h.configs tenant found hfound
  | reload tenant =>
    obtain ⟨hcoherent, hload, -⟩ := h.load tenant
    refine ⟨hcoherent, ?_⟩
    rw [PlainSession.step, hload]
    cases hloaded : (session.compiler.registry.load (.ofConfigs session.configs) tenant).1 <;>
      simp [Session.step, Session.withCompiler, Compiler.reload, Compiler.withRegistry, hloaded,
        Except.map, withRegistry]
  | get tenant =>
    obtain ⟨hcoherent, hcurrent, -⟩ := h.get tenant
    refine ⟨hcoherent, ?_⟩
    rw [PlainSession.step, hcurrent]
    rfl
  | invalidate tenant =>
    refine ⟨⟨h.configs, ?_, h.serials, ?_, h.dictionary⟩, ?_⟩
    · intro other snapshot hsnapshot
      exact h.snapshots other snapshot (Keyed.get?_of_get?_erase hsnapshot)
    · intro other snapshot runtime hsnapshot
      exact h.runtimes other snapshot runtime (Keyed.get?_of_get?_erase hsnapshot)
    · simp [PlainSession.step, Session.step, withCompiler, Compiler.invalidate, Registry.invalidate,
        Compiler.withRegistry, plain]
  | invalidateAll =>
    exact ⟨⟨h.configs, by simp [Session.step, Compiler.invalidateAll, Registry.invalidateAll],
      h.serials, by simp [Session.step, Compiler.invalidateAll, Registry.invalidateAll],
      h.dictionary⟩, rfl⟩
  | cached => exact ⟨h, by simp [PlainSession.step, Session.step, plain, Registry.tenants]⟩

/-- A coherent session gives the answers of the plain session to every list of steps. -/
theorem Coherent.run (h : session.Coherent) (steps : List Step) :
    session.run steps = session.plain.run steps := by
  induction steps generalizing session with
  | nil => rfl
  | cons first steps ih =>
    obtain ⟨hcoherent, hstep⟩ := h.step first
    rw [Session.run, PlainSession.run, runSteps, runSteps, hstep]
    exact congrArg _ (ih hcoherent)

/-- Whatever is kept between the steps of a session, its answers are those of a plain session. -/
theorem run_start (configs : List TenantConfig) (steps : List Step) :
    (start configs).run steps = (PlainSession.start configs).run steps :=
  (Coherent.start configs).run steps

/-! ### A phrase added on the way -/

/-- Asks the shop for its patrons. -/
def patronQuestion : Request := { tenant := "shop", question := "patrons" }

/-- The term under which patrons are clients. -/
def patronTerm : Term := { canonical := "patrons", table := "Clients", column := "ClientId" }

theorem parse_patronQuestion {terms : List Term} {hits : List Match}
    (hhits : Question.hits (Question.withTerms (Question.vocabulary ⟨shop, shop_valid⟩)
      (TermIndex.build ⟨shop, shop_valid⟩ terms).dictionaryTerms) "patrons".toList = hits) :
    Question.parse ⟨shop, shop_valid⟩ (TermIndex.build ⟨shop, shop_valid⟩ terms).dictionaryTerms
      patronQuestion.question = Question.ofHits
      ⟨shop, shop_valid⟩ "patrons" "patrons".toList hits := by
  have hstored : Question.stored? ⟨shop, shop_valid⟩ "patrons" "patrons".toList = none := rfl
  have hlower : Text.lowercase "patrons".toList = "patrons".toList := by decide +kernel
  simp only [patronQuestion, Question.parse, Question.parseWith, hlower, hstored, hhits]

theorem compileFresh_patrons_nil :
    ((compileFresh ⟨shop, shop_valid⟩ [] patronQuestion).toOption.map (·.sql)) = some none := by
  have hhits : Question.hits (Question.withTerms (Question.vocabulary ⟨shop, shop_valid⟩)
      (TermIndex.build ⟨shop, shop_valid⟩ []).dictionaryTerms) "patrons".toList = [] := by
    rw [Question.hits, List.mergeSort_of_pairwise (by decide +kernel)]
    decide +kernel
  rw [compileFresh, parse_patronQuestion hhits]
  decide +kernel

theorem compileFresh_patrons_singleton :
    ((compileFresh ⟨shop, shop_valid⟩ [patronTerm] patronQuestion).toOption.map (·.sql)) =
      some (some "SELECT ClientId FROM Clients") := by
  have hhits : Question.hits (Question.withTerms (Question.vocabulary ⟨shop, shop_valid⟩)
      (TermIndex.build ⟨shop, shop_valid⟩ [patronTerm]).dictionaryTerms) "patrons".toList =
        [⟨"patrons", some "client", some "id", none, 0, 7⟩] := by
    rw [Question.hits, List.mergeSort_of_pairwise (by decide +kernel)]
    decide +kernel
  rw [compileFresh, parse_patronQuestion hhits]
  decide +kernel

/-- The shop knows of no patrons before they are added, and reads them from its clients afterwards.
Adding them again adds nothing. -/
theorem run_start_patrons :
    let ask := Step.compile patronQuestion
    let add := Step.add "shop" "patrons" "Clients" "ClientId" none
    ∃ before after,
      (start [shop]).run [ask, add, ask, add] =
        [(ask, .compiled before), (add, .added (.ok true)), (ask, .compiled after),
          (add, .added (.ok false))] ∧
      before.toOption.map (·.sql) = some none ∧
      after.toOption.map (·.sql) = some (some "SELECT ClientId FROM Clients") := by
  intro ask add
  refine ⟨_, _, ?_, compileFresh_patrons_nil, compileFresh_patrons_singleton⟩
  rw [run_start]
  rfl

end Session

end AskSql
