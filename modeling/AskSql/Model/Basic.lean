import AskSql.Aggregation
import AskSql.Keyed

/-! A tenant's configuration.  The ontology names the business entities and their attributes, the
functions name aggregations and the phrases that betray an intent, the data source maps entities and
attributes to tables and columns, and the mappings add the tenant's own names, rules and stored
statements. -/

namespace AskSql

/-- The type of an attribute's values. -/
inductive AttributeType
  | integer
  | string
  | decimal
  | date
  | boolean
deriving Repr, DecidableEq

namespace AttributeType

/-- The types by their names. -/
def names : List (String × AttributeType) :=
  [("integer", integer), ("string", string), ("decimal", decimal), ("date", date),
   ("boolean", boolean)]

/-- The name of a type. -/
def name : AttributeType → String
  | integer => "integer"
  | string => "string"
  | decimal => "decimal"
  | date => "date"
  | boolean => "boolean"

/-- Whether values of a type can be summed. -/
def isNumeric : AttributeType → Bool
  | integer | decimal => true
  | _ => false

end AttributeType

/-- An attribute of an entity and the phrases that name it. -/
structure Attribute where
  type : AttributeType
  vocabulary : List String
  primaryKey : Bool
  foreignKey : Option String
  nullable : Bool
  description : Option String
deriving Repr, DecidableEq

/-- A business entity and the phrases that name it. -/
structure Entity where
  displayName : String
  vocabulary : List String
  description : String
  attributes : Keyed Attribute
deriving Repr, DecidableEq

/-- The first attribute of an entity that is a primary key. -/
def Entity.primaryKey? (entity : Entity) : Option String :=
  (entity.attributes.entries.find? (·.2.primaryKey)).map (·.1)

/-- How many instances a relationship relates on either side. -/
inductive RelationshipType
  | oneToOne
  | oneToMany
  | manyToMany
deriving Repr, DecidableEq

namespace RelationshipType

/-- The name of a relationship type. -/
def name : RelationshipType → String
  | oneToOne => "one_to_one"
  | oneToMany => "one_to_many"
  | manyToMany => "many_to_many"

/-- The relationship types by their names. -/
def names : List (String × RelationshipType) :=
  [oneToOne, oneToMany, manyToMany].map fun t => (t.name, t)

end RelationshipType

/-- A relationship between two entities. -/
structure Relationship where
  source : String
  target : String
  type : RelationshipType
  foreignKey : String
deriving Repr, DecidableEq

/-- The business entities and how they are related. -/
structure Ontology where
  entities : Keyed Entity
  relationships : Keyed Relationship
deriving Repr, DecidableEq

/-- The type of what an aggregation returns. -/
inductive ReturnType
  | integer
  | decimal
  | string
  | dynamic
deriving Repr, DecidableEq

namespace ReturnType

/-- The name of a return type. -/
def name : ReturnType → String
  | integer => "integer"
  | decimal => "decimal"
  | string => "string"
  | dynamic => "dynamic"

/-- The return types by their names. -/
def names : List (String × ReturnType) :=
  [integer, decimal, string, dynamic].map fun t => (t.name, t)

end ReturnType

/-- An aggregation and the phrases that name it. -/
structure AggregationTerm where
  function : Aggregation
  vocabulary : List String
  returnType : ReturnType
  description : String
deriving Repr, DecidableEq

/-- A date function and the phrases that name it. -/
structure DateTerm where
  function : String
  vocabulary : List String
  description : Option String
deriving Repr, DecidableEq

/-- The phrases that betray an intent when no aggregation is named. -/
structure IntentTriggers where
  select : List String := ["הצג", "הראה", "תציג"]
  count : List String := ["כמה", "מספר"]
  sum : List String := ["סכום", "סיכום", "חיבור"]
  filter : List String := ["ב", "של", "עם"]
deriving Repr, DecidableEq

/-- The vocabulary of functions. -/
structure Functions where
  aggregations : Keyed AggregationTerm
  dateFunctions : Keyed DateTerm
  triggers : IntentTriggers
deriving Repr, DecidableEq

/-- The table of an entity: its name, the column of each attribute, and a condition that every
query of it must meet. -/
structure TableMapping where
  table : String
  columns : Keyed String
  condition : Option String
deriving Repr, DecidableEq

/-- Limits on the use of a database. -/
structure DatabaseSettings where
  maxResults : Option Nat := none
  timeoutSeconds : Nat := 30
deriving Repr, DecidableEq

/-- A tenant's database. -/
structure Datasource where
  clientId : String
  databaseType : String
  connection : String
  tables : Keyed TableMapping
  settings : DatabaseSettings
deriving Repr, DecidableEq

/-- A tenant's own names for entities and attributes.  An attribute goes by its name or by its name
qualified with that of its entity. -/
structure CustomTerms where
  entities : Keyed (List String) := .empty
  attributes : Keyed (List String) := .empty
deriving Repr, DecidableEq

/-- A tenant's rules: conditions that apply to every query of an entity, the order of its rows if
none is asked for, and a row cap.  The texts use the names of attributes. -/
structure BusinessRules where
  defaultFilters : Keyed (Keyed String) := .empty
  defaultOrdering : Keyed String := .empty
  maxResults : Option Nat := none
deriving Repr, DecidableEq

/-- A stored statement. -/
structure StoredQuery where
  sql : String
  description : String
  parameters : Keyed String
deriving Repr, DecidableEq

/-- What a tenant adds to the shared vocabulary. -/
structure Mappings where
  clientId : String
  terms : CustomTerms
  rules : BusinessRules
  shortcuts : Keyed StoredQuery
deriving Repr, DecidableEq

/-- A tenant's whole configuration. -/
structure TenantConfig where
  tenant : String
  ontology : Ontology
  functions : Functions
  datasource : Datasource
  mappings : Mappings
deriving Repr, DecidableEq

/-- The row cap of a tenant.  The cap among its rules goes before that of its database. -/
def TenantConfig.maxResults (config : TenantConfig) : Option Nat :=
  config.mappings.rules.maxResults.or config.datasource.settings.maxResults

end AskSql
