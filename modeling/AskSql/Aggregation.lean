/-! The functions that summarise a column over many rows. -/

namespace AskSql

/-- A summary of a column. -/
inductive Aggregation
  | count
  | sum
  | avg
  | max
  | min
  | distinct
deriving Repr, DecidableEq

namespace Aggregation

/-- Every aggregation. -/
def all : List Aggregation := [count, sum, avg, max, min, distinct]

/-- The SQL keyword of an aggregation. -/
def keyword : Aggregation → String
  | count => "COUNT"
  | sum => "SUM"
  | avg => "AVG"
  | max => "MAX"
  | min => "MIN"
  | distinct => "DISTINCT"

/-- The aggregations by their keywords. -/
def names : List (String × Aggregation) :=
  all.map fun f => (f.keyword, f)

end Aggregation

end AskSql
