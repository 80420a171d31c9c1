import AskSql.Model.Decode
import AskSql.Schema
import AskSql.Storage.Path

/-! Loading of configurations from files.  The root holds a directory `shared` with the ontology and
the functions, and a directory `clients` with a directory for each tenant, which holds its data
source and its mappings.  The tenant's directory is looked for first, then the documents are read in
that order, and then the configuration is checked as a whole. -/

namespace AskSql.Storage

open Json

/-- The directory of a tenant. -/
def clientDirectory (root tenant : String) : String :=
  join (join root "clients") tenant

/-- The path of the ontology. -/
def ontologyPath (root : String) : String := join (join root "shared") "ontology.json"

/-- The path of the functions. -/
def functionsPath (root : String) : String := join (join root "shared") "functions.json"

/-- The path of a tenant's data source. -/
def datasourcePath (root tenant : String) : String :=
  join (clientDirectory root tenant) "datasource.json"

/-- The path of a tenant's mappings. -/
def mappingsPath (root tenant : String) : String :=
  join (clientDirectory root tenant) "mappings.json"

/-- The document at a path. -/
def readDocument {α : Type} (files : Files) (decode : Decoder α) (path : String) :
    Except Fault α :=
  match files path with
  | .missing => .error (.missingFile path)
  | .directory | .unreadable => .error (.unreadableFile path)
  | .file content =>
    match Form.parse? content >>= decode with
    | some document => .ok document
    | none => .error (.malformedFile path)

/-- The configuration of a tenant in the files under `root`. -/
def loadTenant (files : Files) (root : String) : String → Except Fault TenantConfig :=
  fun tenant => do
    if files (clientDirectory root tenant) ≠ .directory then throw (.unknownTenant tenant)
    let config : TenantConfig := {
      tenant
      ontology := ← readDocument files Ontology.decode (ontologyPath root)
      functions := ← readDocument files Functions.decode (functionsPath root)
      datasource := ← readDocument files Datasource.decode (datasourcePath root tenant)
      mappings := ← readDocument files Mappings.decode (mappingsPath root tenant) }
    return (← Schema.ofConfig config).config

end AskSql.Storage
