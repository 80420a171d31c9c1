import AskSql.Fault
import AskSql.Model.Basic
import AskSql.Text.Blank

/-! The rules that a configuration must meet.  `TenantConfig.faults` lists every breach in a fixed
order; a configuration is valid when the list is empty, and otherwise its first fault is
reported. -/

namespace AskSql

/-- The fault, if the condition holds. -/
def faultIf (condition : Bool) (fault : Fault) : List Fault :=
  if condition then [fault] else []

/-- A vocabulary must have a phrase, and none of its phrases may be blank. -/
def vocabularyFaults (owner : VocabularyOwner) (phrases : List String) : List Fault :=
  faultIf (phrases.isEmpty || phrases.any isBlankText) (.badVocabulary owner)

/-- An entity must have an attribute and exactly one primary key. -/
def Entity.faults (name : String) (entity : Entity) : List Fault :=
  let keys := entity.attributes.values.countP (·.primaryKey)
  vocabularyFaults (.entity name) entity.vocabulary ++
    faultIf entity.attributes.isEmpty (.noAttributes name) ++
    faultIf (keys != 1) (.primaryKeyCount name keys) ++
    entity.attributes.entries.flatMap fun (attr, a) =>
      vocabularyFaults (.attr name attr) a.vocabulary

/-- A relationship must join entities that there are. -/
def Relationship.faults (ontology : Ontology) (name : String) (r : Relationship) : List Fault :=
  [r.source, r.target].flatMap fun entity =>
    faultIf (!ontology.entities.contains entity) (.unknownEndpoint name entity)

/-- The faults of an ontology. -/
def Ontology.faults (ontology : Ontology) : List Fault :=
  faultIf ontology.entities.isEmpty .noEntities ++
    ontology.entities.entries.flatMap (fun (name, entity) => entity.faults name) ++
    ontology.relationships.entries.flatMap fun (name, r) => r.faults ontology name

/-- The faults of a vocabulary of functions. -/
def Functions.faults (functions : Functions) : List Fault :=
  faultIf functions.aggregations.isEmpty .noAggregations ++
    functions.aggregations.entries.flatMap fun (name, term) =>
      vocabularyFaults (.aggregation name) term.vocabulary

/-- The faults of a database, apart from its row cap.  The two client identifiers are checked
together. -/
def Datasource.faults (datasource : Datasource) (otherClientId : String) : List Fault :=
  faultIf (isBlankText datasource.clientId || isBlankText otherClientId) .blankClientId ++
    faultIf (isBlankText datasource.connection) .blankConnection ++
    faultIf datasource.tables.isEmpty .noTables ++
    datasource.tables.entries.flatMap fun (name, table) =>
      faultIf table.columns.isEmpty (.noColumns name)

/-- A row cap must be between one and the largest. -/
def rowCapFaults (limit : Option Nat) : List Fault :=
  match limit with
  | some n => faultIf (n = 0 || maxRowCap < n) (.rowCap n)
  | none => []

/-- Every fault of a configuration, in order. -/
def TenantConfig.faults (config : TenantConfig) : List Fault :=
  config.ontology.faults ++ config.functions.faults ++
    config.datasource.faults config.mappings.clientId ++
    rowCapFaults config.datasource.settings.maxResults ++
    rowCapFaults config.mappings.rules.maxResults ++
    config.mappings.shortcuts.entries.flatMap fun (name, stored) =>
      faultIf (isBlankText stored.sql) (.blankShortcut name)

end AskSql
