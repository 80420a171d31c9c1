import AskSql.Query
import AskSql.Schema
import AskSql.Sql.Literal
import AskSql.Sql.LogicalName
import AskSql.Translate

/-! Statements.  A select becomes one statement over the table of its first entity; every attribute
that it names must have a column.  The conditions of the configuration come before the filters of
the query, and one that holds an OR stands in parentheses.  The finished statement is translated
into the dialect. -/

namespace AskSql.Sql

open Text

/-- The statement for a query without an entity. -/
def noEntities : String := "-- No entities specified"

/-- The column of an attribute as it stands in a statement. -/
def column (dialect : Dialect) (schema : Schema) (target : AttributeRef) : Except Fault String :=
  (schema.columnFor target.entity target.name).map (escapeIdentifier dialect)

/-- `text` with an alias, if there is one. -/
def withAlias (dialect : Dialect) (text : String) : Option String → String
  | some name => text ++ " AS " ++ escapeIdentifier dialect name
  | none => text

/-- An aggregate in a projection. -/
def aggregate (dialect : Dialect) (schema : Schema) (a : Aggregate) : Except Fault String := do
  let text ← match a.function, a.target with
    | .distinct, none => pure "COUNT(*)"
    | .distinct, some target => do
      pure ("COUNT(DISTINCT " ++ (← column dialect schema target) ++ ")")
    | function, none => pure (function.keyword ++ "(*)")
    | function, some target => do
      pure (function.keyword ++ "(" ++ (← column dialect schema target) ++ ")")
  return withAlias dialect text a.shownAs

/-- What a select shows: its aggregates, or else its attributes, or else everything. -/
def projection (dialect : Dialect) (schema : Schema) (q : Select) : Except Fault String := do
  if !q.aggregates.isEmpty then
    return ", ".intercalate (← q.aggregates.mapM (aggregate dialect schema))
  else if !q.projection.isEmpty then
    return ", ".intercalate (← q.projection.mapM fun target => do
      return withAlias dialect (← column dialect schema target) target.shownAs)
  else
    return "*"

/-- The condition of a filter on a column, without its negation. -/
def comparison (dialect : Dialect) (operator : FilterOperator) (value : Json) (column : String) :
    String :=
  match operator, value with
  | .isNull, _ | .isNotNull, _ => column ++ " " ++ operator.keyword
  | .eq, .null => column ++ " IS NULL"
  | .ne, .null => column ++ " IS NOT NULL"
  | .isIn, .arr items | .notIn, .arr items =>
    column ++ " " ++ operator.keyword ++ " (" ++ ", ".intercalate (literals dialect items) ++ ")"
  | .isIn, value | .notIn, value =>
    column ++ " " ++ operator.keyword ++ " (" ++ literal dialect value ++ ")"
  | _, value => column ++ " " ++ operator.keyword ++ " " ++ literal dialect value

/-- The condition of a filter on a column. -/
def condition (dialect : Dialect) (filter : Filter) (column : String) : String :=
  let text := comparison dialect filter.operator filter.value column
  if filter.negate then "NOT (" ++ text ++ ")" else text

/-- A configured condition, in parentheses if it holds an OR. -/
def guarded (text : List Char) : String :=
  if hasWord "or" text then "(" ++ String.ofList text ++ ")" else String.ofList text

/-- The condition that every query of a table must meet. -/
def tableCondition (table : TableMapping) : List String :=
  match table.condition with
  | some text => if isBlankText text then [] else [guarded (trim text.toList)]
  | none => []

/-- The conditions that the tenant's rules set for an entity. -/
def defaultConditions (dialect : Dialect) (rules : BusinessRules) (entity : String)
    (table : TableMapping) : List String :=
  match rules.defaultFilters.get? entity with
  | some filters =>
    (filters.values.filter (!isBlankText ·)).map fun text =>
      guarded (replaceNames dialect table.columns (trim text.toList))
  | none => []

/-- The order that the tenant's rules set for an entity. -/
def defaultOrder (dialect : Dialect) (rules : BusinessRules) (entity : String)
    (table : TableMapping) : String :=
  match rules.defaultOrdering.get? entity with
  | some text =>
    if isBlankText text then ""
    else "ORDER BY " ++ String.ofList (replaceNames dialect table.columns (trim text.toList))
  | none => ""

/-- Whether a dialect writes the row limit as `TOP` behind `SELECT`. -/
def usesTop : Dialect → Bool
  | .sqlServer => true
  | .sqlite | .mySql => false

/-- The statement of a select, before translation. -/
def renderSelect (dialect : Dialect) (schema : Schema) (q : Select) : Except Fault String := do
  let some source := q.source? | return noEntities
  let table ← schema.tableFor source.name
  let shown ← projection dialect schema q
  let top := match q.limit with
    | some n => if usesTop dialect then "TOP " ++ toString n ++ " " else ""
    | none => ""
  let limit := match q.limit with
    | some n => if usesTop dialect then "" else "LIMIT " ++ toString n
    | none => ""
  let filters ← q.filters.mapM fun filter => do
    return condition dialect filter (← column dialect schema filter.target)
  let conditions :=
    tableCondition table ++ defaultConditions dialect schema.rules source.name table ++ filters
  let groups ← q.groupBy.mapM (column dialect schema)
  let sorts ← q.sorts.mapM fun sort => do
    return (← column dialect schema sort.target) ++ " " ++ sort.direction.keyword
  let order :=
    if !sorts.isEmpty then "ORDER BY " ++ ", ".intercalate sorts
    else if q.aggregates.isEmpty then defaultOrder dialect schema.rules source.name table
    else ""
  let parts :=
    ["SELECT " ++ top ++ shown,
     withAlias dialect ("FROM " ++ escapeIdentifier dialect table.table) source.shownAs,
     if conditions.isEmpty then "" else "WHERE " ++ " AND ".intercalate conditions,
     if groups.isEmpty then "" else "GROUP BY " ++ ", ".intercalate groups,
     order,
     limit]
  return " ".intercalate (parts.filter (!·.isEmpty))

/-- The statement of a select. -/
def selectStatement (dialect : Dialect) (schema : Schema) (q : Select) : Except Fault String :=
  (renderSelect dialect schema q).map (translate dialect)

/-- The statement of a query. -/
def statement (dialect : Dialect) (schema : Schema) : QueryNode → Except Fault String
  | .select q => selectStatement dialect schema q
  | .shortcut shortcut => .ok (translate dialect shortcut.sql)

end AskSql.Sql
