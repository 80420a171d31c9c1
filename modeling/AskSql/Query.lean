import AskSql.Aggregation
import AskSql.Json.Basic

/-! Questions in structured form.  A select reads from its first entity; its projection and its
aggregates exclude each other, which the operations that extend it see to.  A shortcut is a stored
statement that answers the question as a whole. -/

namespace AskSql

/-- An entity that a query names. -/
structure EntityRef where
  name : String
  shownAs : Option String
deriving Repr, DecidableEq

/-- An attribute of an entity that a query names. -/
structure AttributeRef where
  entity : String
  name : String
  shownAs : Option String
deriving Repr, DecidableEq

/-- How a filter compares a column with its value. -/
inductive FilterOperator
  | eq
  | ne
  | gt
  | lt
  | ge
  | le
  | like
  | isIn
  | notIn
  | isNull
  | isNotNull
deriving Repr, DecidableEq

namespace FilterOperator

/-- Every operator. -/
def all : List FilterOperator :=
  [eq, ne, gt, lt, ge, le, like, isIn, notIn, isNull, isNotNull]

/-- The SQL spelling of an operator. -/
def keyword : FilterOperator → String
  | eq => "="
  | ne => "!="
  | gt => ">"
  | lt => "<"
  | ge => ">="
  | le => "<="
  | like => "LIKE"
  | isIn => "IN"
  | notIn => "NOT IN"
  | isNull => "IS NULL"
  | isNotNull => "IS NOT NULL"

/-- The operators by their spellings. -/
def names : List (String × FilterOperator) :=
  all.map fun op => (op.keyword, op)

/-- Whether an operator takes no value. -/
def isUnary : FilterOperator → Bool
  | isNull | isNotNull => true
  | _ => false

end FilterOperator

/-- A condition on an attribute. -/
structure Filter where
  target : AttributeRef
  operator : FilterOperator
  value : Json
  negate : Bool
deriving Repr

/-- A summary in a projection.  Without an attribute it ranges over the rows. -/
structure Aggregate where
  function : Aggregation
  target : Option AttributeRef
  shownAs : Option String
deriving Repr, DecidableEq

/-- The number of rows. -/
def Aggregate.countAll : Aggregate := ⟨.count, none, none⟩

/-- A summary of an attribute. -/
def Aggregate.over (function : Aggregation) (target : AttributeRef) : Aggregate :=
  ⟨function, some target, none⟩

/-- The direction of a sort. -/
inductive SortDirection
  | asc
  | desc
deriving Repr, DecidableEq

/-- The SQL keyword of a direction. -/
def SortDirection.keyword : SortDirection → String
  | asc => "ASC"
  | desc => "DESC"

/-- A sort by an attribute. -/
structure SortKey where
  target : AttributeRef
  direction : SortDirection
deriving Repr, DecidableEq

/-- A question about the rows of one entity. -/
structure Select where
  entities : List EntityRef := []
  projection : List AttributeRef := []
  aggregates : List Aggregate := []
  filters : List Filter := []
  sorts : List SortKey := []
  groupBy : List AttributeRef := []
  limit : Option Nat := none
deriving Repr

namespace Select

/-- The select that names nothing. -/
def empty : Select := {}

/-- The entity that a select reads from. -/
def source? (q : Select) : Option EntityRef :=
  q.entities.head?

/-- Whether a select has an entity to read from. -/
def isResolvable (q : Select) : Bool :=
  !q.entities.isEmpty

/-- Adds an attribute to the projection, unless the select aggregates or has it already. -/
def pushAttribute (q : Select) (target : AttributeRef) : Select :=
  if q.aggregates.isEmpty && !q.projection.contains target then
    { q with projection := q.projection ++ [target] }
  else q

/-- Adds an aggregate, unless the select has it already, and empties the projection. -/
def pushAggregate (q : Select) (aggregate : Aggregate) : Select :=
  { q with
    projection := []
    aggregates :=
      if q.aggregates.contains aggregate then q.aggregates else q.aggregates ++ [aggregate] }

/-- Replaces the aggregates. -/
def setAggregates (q : Select) (aggregates : List Aggregate) : Select :=
  aggregates.foldl pushAggregate { q with aggregates := [] }

/-- Sets the row limit.  A limit of zero is none. -/
def setLimit (q : Select) (limit : Option Nat) : Select :=
  { q with limit := limit.filter (0 < ·) }

end Select

/-- A stored statement that answers a question. -/
structure Shortcut where
  name : String
  sql : String
  description : String
  params : Keyed String
deriving Repr

/-- What a question asks for. -/
inductive QueryNode
  | select (query : Select)
  | shortcut (shortcut : Shortcut)
deriving Repr

/-- Whether there is something to run. -/
def QueryNode.isExecutable : QueryNode → Bool
  | select query => query.isResolvable
  | shortcut _ => true

/-- The kind of answer that a question wants. -/
inductive Intent
  | aggregate
  | select
  | count
  | sum
  | filter
  | shortcut
  | unknown
deriving Repr, DecidableEq

/-- The name of an intent. -/
def Intent.name : Intent → String
  | aggregate => "aggregate"
  | select => "select"
  | count => "count"
  | sum => "sum"
  | filter => "filter"
  | shortcut => "shortcut"
  | unknown => "unknown"

/-- A phrase found in a question.  Its position and length count characters. -/
structure Match where
  term : String
  entity : Option String
  attr : Option String
  aggregation : Option Aggregation
  position : Nat
  length : Nat
deriving Repr, DecidableEq

/-- A question with what was found in it.  The confidence is the share of its words that the
vocabulary covers, and the warnings name the clauses that were left out. -/
structure ParsedQuestion where
  text : String
  node : QueryNode
  hits : List Match
  confidence : Rat
  intent : Intent
  warnings : List String
deriving Repr

namespace ParsedQuestion

/-- A question in which nothing was found. -/
def unresolved (text : String) : ParsedQuestion :=
  ⟨text, .select .empty, [], 0, .unknown, []⟩

/-- Whether there is something to run. -/
def isExecutable (parsed : ParsedQuestion) : Bool :=
  parsed.node.isExecutable

end ParsedQuestion

end AskSql
