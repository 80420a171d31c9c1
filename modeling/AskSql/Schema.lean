import AskSql.Dialect
import AskSql.Model.Validity

/-! A valid configuration and the look-ups between its business names and the physical names of its
database.  Physical names are compared without regard to the case of ASCII letters; among several
that fit, the first in the order of the business names counts. -/

namespace AskSql

/-- A valid configuration. -/
structure Schema where
  config : TenantConfig
  valid : config.faults = []
deriving Repr

namespace Schema

/-- The schema of a configuration, or its first fault. -/
def ofConfig (config : TenantConfig) : Except Fault Schema :=
  match h : config.faults with
  | [] => .ok ⟨config, h⟩
  | fault :: _ => .error fault

/-- The tenant whose schema it is. -/
def tenant (schema : Schema) : String :=
  schema.config.tenant

/-- The dialect of the tenant's database. -/
def dialect (schema : Schema) : Dialect :=
  .ofDatabaseType schema.config.datasource.databaseType

/-- The entities by name. -/
def entities (schema : Schema) : Keyed Entity :=
  schema.config.ontology.entities

/-- The tenant's own names. -/
def customTerms (schema : Schema) : CustomTerms :=
  schema.config.mappings.terms

/-- The tenant's rules. -/
def rules (schema : Schema) : BusinessRules :=
  schema.config.mappings.rules

/-- The row cap of the tenant. -/
def maxResults (schema : Schema) : Option Nat :=
  schema.config.maxResults

/-- An attribute of an entity. -/
def attribute? (schema : Schema) (entity attr : String) : Option Attribute :=
  (schema.entities.get? entity).bind (·.attributes.get? attr)

/-- The primary key of an entity. -/
def primaryKey? (schema : Schema) (entity : String) : Option String :=
  (schema.entities.get? entity).bind (·.primaryKey?)

/-- The table of an entity, if it has one. -/
def table? (schema : Schema) (entity : String) : Option TableMapping :=
  schema.config.datasource.tables.get? entity

/-- The table of an entity. -/
def tableFor (schema : Schema) (entity : String) : Except Fault TableMapping :=
  match schema.table? entity with
  | some table => .ok table
  | none => .error (.noTable entity schema.tenant)

/-- The column of an attribute. -/
def columnFor (schema : Schema) (entity attr : String) : Except Fault String := do
  let table ← schema.tableFor entity
  match table.columns.get? attr with
  | some column => .ok column
  | none => .error (.noColumn entity attr table.table)

/-- Whether two physical names are the same but for the case of ASCII letters. -/
def sameName (a b : String) : Bool :=
  Text.sameAscii a.toList b.toList

/-- The first entity whose table has the given name. -/
def entityForTable? (schema : Schema) (table : String) : Option String :=
  (schema.config.datasource.tables.entries.find? (sameName ·.2.table table)).map (·.1)

/-- The first attribute of an entity whose column has the given name. -/
def attributeForColumn? (schema : Schema) (entity column : String) : Option String :=
  (schema.table? entity).bind fun table =>
    (table.columns.entries.find? (sameName ·.2 column)).map (·.1)

end Schema

end AskSql
