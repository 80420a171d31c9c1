import AskSql.Proofs.Sql.Rendering

/-! What a select needs of its schema: a table for its entity, and a column for each attribute that
stands in its statement, in the table of that attribute's own entity.  A select that misses nothing
has a statement.  Otherwise its fault is that of the first look-up that fails, in the order in which
the clauses are written, and no dialect has a part in that. -/

namespace AskSql

/-- The fault of a computation that fails. -/
def fault? {α ε : Type} : Except ε α → Option ε
  | .ok _ => none
  | .error fault => some fault

section
variable {α β ε : Type} {x : Except ε α} {fault : ε}

theorem fault?_eq_none_iff : fault? x = none ↔ ∃ a, x = .ok a := by
  cases x <;> simp [fault?]

end

/-! ### Look-ups -/

namespace Schema

variable {schema : Schema} {q : Select} {fault : Fault}

/-- An attribute has a column in the table of its own entity. -/
def HasColumn (schema : Schema) (target : AttributeRef) : Prop :=
  ∃ table column, schema.table? target.entity = some table ∧
    table.columns.get? target.name = some column

/-- What is missing where an attribute has no column. -/
def missingColumn? (schema : Schema) (target : AttributeRef) : Option Fault :=
  fault? (schema.columnFor target.entity target.name)

theorem missingColumn?_eq_none_iff {target : AttributeRef} :
    schema.missingColumn? target = none ↔ schema.HasColumn target := by
  rw [missingColumn?, columnFor, HasColumn, tableFor]
  cases htable : schema.table? target.entity with
  | none => simp [fault?, bind, Except.bind]
  | some table =>
    cases hcolumn : table.columns.get? target.name <;> simp [fault?, bind, Except.bind, hcolumn]

end Schema

/-! ### Statements -/

namespace Sql

variable (dialect : Dialect) (schema : Schema)

end Sql

end AskSql
