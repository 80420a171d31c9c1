import AskSql.Aggregation
import AskSql.Schema
import AskSql.Vocabulary.Normal

/-! Terms: phrases together with the place in the database that they denote.  A term goes by its
canonical phrase and by its aliases.  The schema implies a term for each entity whose primary key
has a column and for each of its attributes that has one; a dictionary holds further terms of each
tenant in the order in which they were added. -/

namespace AskSql.Vocabulary

/-- A phrase, the table and column it denotes, and the entity and attribute if they are known.
Without an attribute it denotes the entity as a whole. -/
structure Term where
  canonical : String
  table : String
  column : String
  aggregation : Option Aggregation := none
  dateField : Option String := none
  aliases : List String := []
  entity : Option String := none
  attr : Option String := none
deriving Repr, DecidableEq

/-- Whether the canonical phrase or an alias of a term has the given normal form. -/
def Term.goesBy (term : Term) (key : String) : Bool :=
  normalize term.canonical == key || term.aliases.any (normalize · == key)

/-- The terms of each tenant's dictionary. -/
abbrev Dictionary := Keyed (List Term)

namespace Dictionary

/-- The terms of a tenant. -/
def terms (dictionary : Dictionary) (tenant : String) : List Term :=
  (dictionary.get? tenant).getD []

/-- Whether a term of the tenant goes by the given normal form. -/
def knows (dictionary : Dictionary) (tenant key : String) : Bool :=
  (dictionary.terms tenant).any (·.goesBy key)

/-- The dictionary with one more term of a tenant. -/
def add (dictionary : Dictionary) (tenant : String) (term : Term) : Dictionary :=
  dictionary.insert tenant (dictionary.terms tenant ++ [term])

end Dictionary

/-- The names that a tenant adds for an entity. -/
def extraEntityNames (schema : Schema) (entity : String) : List String :=
  (schema.customTerms.entities.get? entity).getD []

/-- The names that a tenant adds for an attribute, which goes by its name and by its qualified
name. -/
def extraAttributeNames (schema : Schema) (entity attr : String) : List String :=
  [attr, entity ++ "." ++ attr].flatMap fun key =>
    (schema.customTerms.attributes.get? key).getD []

/-- The first date attribute of an entity that has a column, as that column. -/
def dateColumn? (entity : Entity) (table : TableMapping) : Option String :=
  entity.attributes.entries.findSome? fun (name, attr) =>
    if attr.type = .date then table.columns.get? name else none

/-- The term of an entity, if its primary key has a column. -/
def entityTerm? (schema : Schema) (name : String) (entity : Entity) (table : TableMapping) :
    Option Term := do
  let column ← table.columns.get? (← entity.primaryKey?)
  match entity.vocabulary with
  | [] => none
  | canonical :: rest =>
    return {
      canonical
      table := table.table
      column
      aggregation := some .count
      dateField := dateColumn? entity table
      aliases := rest ++ extraEntityNames schema name ++ [name]
      entity := some name }

/-- The term of an attribute, if it has a column. -/
def attributeTerm? (schema : Schema) (entityName : String) (entity : Entity) (table : TableMapping)
    (name : String) (attr : Attribute) : Option Term := do
  let column ← table.columns.get? name
  match attr.vocabulary with
  | [] => none
  | canonical :: rest =>
    return {
      canonical
      table := table.table
      column
      aggregation := if attr.type.isNumeric then some .sum else none
      dateField := dateColumn? entity table
      aliases := rest ++ extraAttributeNames schema entityName name ++
        [entityName ++ "." ++ name, name]
      entity := some entityName
      attr := some name }

/-- The terms of an entity and its attributes.  An entity without a term of its own has none. -/
def entityTerms (schema : Schema) (name : String) (entity : Entity) : List Term :=
  match schema.table? name with
  | none => []
  | some table =>
    match entityTerm? schema name entity table with
    | none => []
    | some term =>
      term :: entity.attributes.entries.filterMap fun (attrName, attr) =>
        attributeTerm? schema name entity table attrName attr

/-- The terms that the schema implies, in the order of its entities and their attributes. -/
def schemaTerms (schema : Schema) : List Term :=
  schema.entities.entries.flatMap fun (name, entity) => entityTerms schema name entity

/-- A dictionary term with its entity and attribute looked up where it has none. -/
def located (schema : Schema) (term : Term) : Term :=
  let entity := term.entity.or (schema.entityForTable? term.table)
  let attr := term.attr.or (entity.bind fun e => schema.attributeForColumn? e term.column)
  { term with entity, attr }

end AskSql.Vocabulary
