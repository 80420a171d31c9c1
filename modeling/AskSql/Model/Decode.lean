import AskSql.Json.Decoder
import AskSql.Model.Basic

/-! The documents of a configuration as JSON records.  A field with a default may be missing. -/

namespace AskSql

open Json Json.Decoder

/-- A list of phrases. -/
def phrases : Decoder (List String) := list text

/-- An attribute. -/
def Attribute.decode : Decoder Attribute := fun form => do
  let fields ← record
    ["type", "vocabulary", "primary_key", "foreign_key", "nullable", "description"] form
  return {
    type := ← fields.required "type" (choice AttributeType.names)
    vocabulary := ← fields.required "vocabulary" phrases
    primaryKey := ← fields.orElse "primary_key" flag false
    foreignKey := ← fields.orElse "foreign_key" (Decoder.nullable text) none
    nullable := ← fields.orElse "nullable" flag true
    description := ← fields.orElse "description" (Decoder.nullable text) none }

/-- An entity. -/
def Entity.decode : Decoder Entity := fun form => do
  let fields ← record ["display_name", "vocabulary", "description", "attributes"] form
  return {
    displayName := ← fields.required "display_name" text
    vocabulary := ← fields.required "vocabulary" phrases
    description := ← fields.orElse "description" text ""
    attributes := ← fields.required "attributes" (keyed Attribute.decode) }

/-- A relationship. -/
def Relationship.decode : Decoder Relationship := fun form => do
  let fields ← record ["from", "to", "type", "foreign_key"] form
  return {
    source := ← fields.required "from" text
    target := ← fields.required "to" text
    type := ← fields.required "type" (choice RelationshipType.names)
    foreignKey := ← fields.required "foreign_key" text }

/-- An ontology. -/
def Ontology.decode : Decoder Ontology := fun form => do
  let fields ← record ["entities", "relationships"] form
  return {
    entities := ← fields.required "entities" (keyed Entity.decode)
    relationships := ← fields.orElse "relationships" (keyed Relationship.decode) .empty }

/-- An aggregation. -/
def AggregationTerm.decode : Decoder AggregationTerm := fun form => do
  let fields ← record ["sql_function", "vocabulary", "return_type", "description"] form
  return {
    function := ← fields.required "sql_function" (choice Aggregation.names)
    vocabulary := ← fields.required "vocabulary" phrases
    returnType := ← fields.required "return_type" (choice ReturnType.names)
    description := ← fields.orElse "description" text "" }

/-- A date function. -/
def DateTerm.decode : Decoder DateTerm := fun form => do
  let fields ← record ["sql_function", "vocabulary", "description"] form
  return {
    function := ← fields.required "sql_function" text
    vocabulary := ← fields.required "vocabulary" phrases
    description := ← fields.orElse "description" (Decoder.nullable text) none }

/-- The phrases that betray an intent. -/
def IntentTriggers.decode : Decoder IntentTriggers := fun form => do
  let fields ← record ["select", "count", "sum", "filter"] form
  let standard : IntentTriggers := {}
  return {
    select := ← fields.orElse "select" phrases standard.select
    count := ← fields.orElse "count" phrases standard.count
    sum := ← fields.orElse "sum" phrases standard.sum
    filter := ← fields.orElse "filter" phrases standard.filter }

/-- The vocabulary of functions. -/
def Functions.decode : Decoder Functions := fun form => do
  let fields ← record ["aggregations", "date_functions", "intent_triggers"] form
  return {
    aggregations := ← fields.required "aggregations" (keyed AggregationTerm.decode)
    dateFunctions := ← fields.orElse "date_functions" (keyed DateTerm.decode) .empty
    triggers := ← fields.orElse "intent_triggers" IntentTriggers.decode {} }

/-- The table of an entity. -/
def TableMapping.decode : Decoder TableMapping := fun form => do
  let fields ← record ["physical_table", "columns", "where_clause"] form
  return {
    table := ← fields.required "physical_table" text
    columns := ← fields.required "columns" (keyed text)
    condition := ← fields.orElse "where_clause" (Decoder.nullable text) none }

/-- Limits on the use of a database. -/
def DatabaseSettings.decode : Decoder DatabaseSettings := fun form => do
  let fields ← record ["max_results", "timeout_seconds"] form
  let standard : DatabaseSettings := {}
  return {
    maxResults := ← fields.orElse "max_results" (Decoder.nullable natural) standard.maxResults
    timeoutSeconds := ← fields.orElse "timeout_seconds" natural standard.timeoutSeconds }

/-- A tenant's database. -/
def Datasource.decode : Decoder Datasource := fun form => do
  let fields ← record
    ["client_id", "database_type", "connection_string", "table_mappings", "database_settings"] form
  return {
    clientId := ← fields.required "client_id" text
    databaseType := ← fields.required "database_type" text
    connection := ← fields.required "connection_string" text
    tables := ← fields.required "table_mappings" (keyed TableMapping.decode)
    settings := ← fields.orElse "database_settings" DatabaseSettings.decode {} }

/-- The names that a tenant adds for one entity or attribute. -/
def decodeNames : Decoder (List String) := fun form => do
  (← record ["additional_names"] form).required "additional_names" phrases

/-- A tenant's own names. -/
def CustomTerms.decode : Decoder CustomTerms := fun form => do
  let fields ← record ["entities", "attributes"] form
  return {
    entities := ← fields.orElse "entities" (keyed decodeNames) .empty
    attributes := ← fields.orElse "attributes" (keyed decodeNames) .empty }

/-- A tenant's rules. -/
def BusinessRules.decode : Decoder BusinessRules := fun form => do
  let fields ← record ["default_filters", "default_ordering", "max_results_override"] form
  return {
    defaultFilters := ← fields.orElse "default_filters" (keyed (keyed text)) .empty
    defaultOrdering := ← fields.orElse "default_ordering" (keyed text) .empty
    maxResults := ← fields.orElse "max_results_override" (Decoder.nullable natural) none }

/-- A stored statement. -/
def StoredQuery.decode : Decoder StoredQuery := fun form => do
  let fields ← record ["sql", "description", "parameters"] form
  return {
    sql := ← fields.required "sql" text
    description := ← fields.orElse "description" text ""
    parameters := ← fields.orElse "parameters" (keyed text) .empty }

/-- What a tenant adds to the shared vocabulary. -/
def Mappings.decode : Decoder Mappings := fun form => do
  let fields ← record ["client_id", "custom_terms", "business_rules", "shortcuts"] form
  return {
    clientId := ← fields.required "client_id" text
    terms := ← fields.orElse "custom_terms" CustomTerms.decode {}
    rules := ← fields.orElse "business_rules" BusinessRules.decode {}
    shortcuts := ← fields.orElse "shortcuts" (keyed StoredQuery.decode) .empty }

end AskSql
