/-! What can go wrong between a question and its statement.  A fault is the cause; `Fault.message`
words it, and `Fault.kind` says which of four kinds it is of.  Only an unknown term leaves the rest
of a request usable; every other kind is fatal. -/

namespace AskSql

/-- The four kinds of fault. -/
inductive FaultKind
  | configuration
  | validation
  | termNotFound
  | unknownTenant
deriving Repr, DecidableEq

/-- What a vocabulary belongs to. -/
inductive VocabularyOwner
  | entity (name : String)
  | attr (holder name : String)
  | aggregation (name : String)
deriving Repr, DecidableEq

/-- The cause of a failure. -/
inductive Fault
  | missingFile (path : String)
  | unreadableFile (path : String)
  | malformedFile (path : String)
  | noTable (entity tenant : String)
  | noColumn (entity attr table : String)
  | unknownDialect (text : String)
  | noEntities
  | badVocabulary (owner : VocabularyOwner)
  | noAttributes (entity : String)
  | primaryKeyCount (entity : String) (count : Nat)
  | unknownEndpoint (relationship entity : String)
  | noAggregations
  | blankClientId
  | blankConnection
  | noTables
  | noColumns (entity : String)
  | rowCap (limit : Nat)
  | blankShortcut (name : String)
  | blankMapping
  | unparsedFilter (text : String)
  | filterWithoutValue (text : String)
  | shortcutWithClause (shortcut : String)
  | noSource
  | otherEntity (field entity source : String)
  | unknownTerm (term : String)
  | notAColumn (field : String)
  | unknownTenant (tenant : String)
deriving Repr, DecidableEq

/-- How a message names the owner of a vocabulary. -/
def VocabularyOwner.text : VocabularyOwner → String
  | entity name => s!"entity '{name}'"
  | attr holder name => s!"attribute '{holder}.{name}'"
  | aggregation name => s!"aggregation '{name}'"

/-- The largest row cap a tenant may set. -/
def maxRowCap : Nat := 10000

namespace Fault

/-- The kind of a fault. -/
def kind : Fault → FaultKind
  | missingFile _ | unreadableFile _ | malformedFile _ | noTable .. | noColumn .. => .configuration
  | unknownTerm _ | notAColumn _ => .termNotFound
  | unknownTenant _ => .unknownTenant
  | _ => .validation

/-- The wording of a fault, without its kind. -/
def detail : Fault → String
  | missingFile path => s!"Configuration file not found: {path}"
  | unreadableFile path => s!"Failed to read {path}"
  | malformedFile path => s!"Failed to parse {path}"
  | noTable entity tenant => s!"No table mapping for entity '{entity}' (tenant {tenant})"
  | noColumn entity attr table =>
    s!"No column mapping for attribute '{entity}.{attr}' in table {table}"
  | unknownDialect text => s!"Unknown dialect: {text}"
  | noEntities => "Ontology must have at least one entity"
  | badVocabulary owner =>
    "Vocabulary for " ++ owner.text ++ " must be a non-empty list of non-empty strings"
  | noAttributes entity => s!"Entity '{entity}' must have at least one attribute"
  | primaryKeyCount entity count =>
    s!"Entity '{entity}' must have exactly one primary key, found {count}"
  | unknownEndpoint relationship entity =>
    s!"Relationship '{relationship}' references unknown entity '{entity}'"
  | noAggregations => "At least one aggregation must be defined"
  | blankClientId => "Client ID cannot be empty"
  | blankConnection => "Connection string cannot be empty"
  | noTables => "Datasource must have at least one table mapping"
  | noColumns entity => s!"Table mapping for '{entity}' must have at least one column"
  | rowCap limit => s!"max_results must be between 1 and {maxRowCap}, got {limit}"
  | blankShortcut name => s!"Shortcut '{name}' has empty SQL"
  | blankMapping => "Term, table and column must be non-empty"
  | unparsedFilter text => s!"Cannot parse filter '{text}'"
  | filterWithoutValue text => s!"Filter '{text}' has no value"
  | shortcutWithClause shortcut => s!"shortcut '{shortcut}' does not take extra clauses"
  | noSource => "question has no source entity"
  | otherEntity field entity source =>
    s!"'{field}' belongs to {entity}, but the query reads from {source}"
  | unknownTerm term => term
  | notAColumn field => s!"'{field}' does not name a column of a known entity"
  | unknownTenant tenant => tenant

/-- The whole message of a fault. -/
def message (fault : Fault) : String :=
  let heading :=
    match fault.kind with
    | .configuration => "Configuration error: "
    | .validation => "Validation error: "
    | .termNotFound => "Term not found: "
    | .unknownTenant => "Unknown tenant: "
  heading ++ fault.detail

/-- Whether a fault ends the request that met it. -/
def isFatal (fault : Fault) : Bool :=
  fault.kind != .termNotFound

end Fault

end AskSql
