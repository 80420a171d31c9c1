import AskSql.Query

/-! Clauses that are given beside a question.  Each names its field by a phrase of the
vocabulary. -/

namespace AskSql

/-- A clause beside a question. -/
inductive Clause
  | filter (field : String) (operator : FilterOperator) (value : Json) (negate : Bool)
  | sort (field : String) (direction : SortDirection)
  | groupBy (field : String)
deriving Repr

namespace Clause

/-- The phrase that names the field of a clause. -/
def field : Clause → String
  | filter field .. | sort field _ | groupBy field => field

/-- What a clause is called in a warning. -/
def kind : Clause → String
  | filter .. => "filter"
  | sort .. => "sort"
  | groupBy _ => "group-by"

end Clause

/-- What becomes of a clause whose field cannot be bound: it is left out with a warning, or the
request fails. -/
inductive UnboundPolicy
  | drop
  | fail
deriving Repr, DecidableEq

end AskSql
