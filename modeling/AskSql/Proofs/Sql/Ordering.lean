import AskSql.Proofs.Sql.Statement

/-! The order clause of a statement.  The sorts of a select make it; where there are none, the order
that the tenant's rules set for the entity does, unless the select has aggregates.  Groups do not
keep it away. -/

namespace AskSql.Sql

open Text

variable {dialect : Dialect} {schema : Schema} {q : Select} {source : EntityRef} {sql : String}

/-- The order clause of a select that has the sorts `sorts`. -/
def orderClause (dialect : Dialect) (rules : BusinessRules) (q : Select) (source : EntityRef)
    (table : TableMapping) (sorts : List String) : String :=
  if !sorts.isEmpty then "ORDER BY " ++ ", ".intercalate sorts
  else if q.aggregates.isEmpty then defaultOrder dialect rules source.name table
  else ""

/-- The clauses of a statement but for its order clause. -/
def Rendering.unorderedClauses (r : Rendering dialect schema q source sql) : List String :=
  (Sql.clauses dialect schema.rules q source r.table r.shown r.filters r.groups r.sorts).eraseIdx 4

/-- The statement of a select has no order clause: it is what its other clauses make. -/
def Unordered (dialect : Dialect) (schema : Schema) (q : Select) (sql : String) : Prop :=
  match q.source? with
  | none => sql = noEntities
  | some source =>
    ∃ r : Rendering dialect schema q source sql,
      sql = " ".intercalate (r.unorderedClauses.filter (!·.isEmpty))

/-! ### Clauses with and without an order -/

theorem spaced_eq_nil {clause : String} : spaced clause = [] ↔ clause = "" := by
  rw [spaced]
  split <;> simp_all

/-- Only an empty clause leaves no trace in a statement. -/
theorem intercalate_insert_eq_iff {first clause : String} {front back : List String}
    (hne : first ≠ "") :
    " ".intercalate ((first :: (front ++ clause :: back)).filter (!·.isEmpty)) =
        " ".intercalate ((first :: (front ++ back)).filter (!·.isEmpty)) ↔ clause = "" := by
  rw [← String.toList_inj, toList_clauses hne, toList_clauses hne, List.append_cancel_left_eq,
    List.flatMap_append, List.flatMap_append, List.append_cancel_left_eq, List.flatMap_cons,
    List.append_left_eq_self, spaced_eq_nil]

/-- A statement has no order clause exactly if that clause is empty. -/
theorem Rendering.eq_unordered_iff (r : Rendering dialect schema q source sql) :
    sql = " ".intercalate (r.unorderedClauses.filter (!·.isEmpty)) ↔
      orderClause dialect schema.rules q source r.table r.sorts = "" := by
  have hne : ∀ text : String, "SELECT " ++ text ≠ "" := fun text h => by
    rw [String.append_eq_empty_iff] at h
    exact absurd h.1 (by decide)
  refine (Eq.congr r.sql_eq rfl).trans ?_
  rw [Rendering.unorderedClauses, Sql.clauses, String.append_assoc]
  exact @intercalate_insert_eq_iff _ _ [_, _, _] _ (hne _)

/-! ### The default order -/

/-- The rules set an order for an entity unless it is missing or blank. -/
theorem defaultOrder_eq_empty {rules : BusinessRules} {entity : String} {table : TableMapping} :
    defaultOrder dialect rules entity table = "" ↔
      ∀ text ∈ rules.defaultOrdering.get? entity, isBlankText text = true := by
  rw [defaultOrder]
  cases rules.defaultOrdering.get? entity with
  | none => simp
  | some text => simp

theorem Rendering.sorts_eq_nil (r : Rendering dialect schema q source sql) (hsorts : q.sorts = []) :
    r.sorts = [] := by
  have hall := r.sorts_eq
  rw [hsorts] at hall
  exact List.forall₂_nil_left_iff.1 hall

/-- A select without sorts has no order clause exactly if it has aggregates or the rules set no
order for its entity, whether it has groups or not. -/
theorem unordered_iff (hsorts : q.sorts = []) (h : renderSelect dialect schema q = .ok sql) :
    Unordered dialect schema q sql ↔
      q.aggregates ≠ [] ∨ ∀ source ∈ q.source?,
        ∀ text ∈ schema.rules.defaultOrdering.get? source.name, isBlankText text = true := by
  cases hsource : q.source? with
  | none =>
    have hsql := renderSelect_of_source hsource h
    simp [Unordered, hsource, hsql]
  | some source =>
    obtain ⟨r⟩ := rendering_of_renderSelect hsource h
    have hclause : ∀ r : Rendering dialect schema q source sql,
        sql = " ".intercalate (r.unorderedClauses.filter (!·.isEmpty)) ↔
          q.aggregates ≠ [] ∨ ∀ text ∈ schema.rules.defaultOrdering.get? source.name,
            isBlankText text = true := by
      intro r
      rw [r.eq_unordered_iff, orderClause, r.sorts_eq_nil hsorts]
      cases q.aggregates with
      | nil => simpa using defaultOrder_eq_empty
      | cons a as => simp
    rw [Unordered, hsource]
    constructor
    · rintro ⟨r, hr⟩
      exact ((hclause r).1 hr).imp_right fun hblank _ heq => Option.some.inj heq ▸ hblank
    · intro hor
      exact ⟨r, (hclause r).2 (hor.imp_right fun hblank => hblank source rfl)⟩

/-! ### A stock -/

/-- The table of the items of a stock. -/
def stockTable : TableMapping :=
  ⟨"Items", .ofList [("added", "Added"), ("name", "Name")], none⟩

/-- The depot with plain columns and an order for its items. -/
def stock : TenantConfig :=
  { depot with
    datasource := { depot.datasource with tables := .ofList [("item", stockTable)] }
    mappings :=
      { depot.mappings with rules := { defaultOrdering := .ofList [("item", " added DESC ")] } } }

theorem stock_valid : stock.faults = [] := by decide +kernel

/-- The items grouped by their names. -/
def stockSelect : Select where
  entities := [⟨"item", none⟩]
  projection := [⟨"item", "name", none⟩]
  groupBy := [⟨"item", "name", none⟩]

theorem defaultOrder_stock :
    defaultOrder .sqlite stock.mappings.rules "item" stockTable = "ORDER BY Added DESC" := by
  have hsorted : byLength stockTable.columns.entries = stockTable.columns.entries :=
    List.mergeSort_of_pairwise (by decide)
  have hreplaced : replaceNames .sqlite stockTable.columns "added DESC".toList =
      "Added DESC".toList := by
    rw [replaceNames, hsorted]
    decide
  have htext : stock.mappings.rules.defaultOrdering.get? "item" = some " added DESC " := by decide
  have htrim : trim " added DESC ".toList = "added DESC".toList := by decide
  rw [defaultOrder, htext]
  simp only [htrim, hreplaced]
  decide

/-- Groups without aggregates are put into the default order, by a column that is none of them. -/
theorem not_unordered_stock :
    stockSelect.groupBy ≠ [] ∧ stockSelect.sorts = [] ∧
      renderSelect .sqlite ⟨stock, stock_valid⟩ stockSelect =
        .ok "SELECT Name FROM Items GROUP BY Name ORDER BY Added DESC" ∧
      ¬Unordered .sqlite ⟨stock, stock_valid⟩ stockSelect
        "SELECT Name FROM Items GROUP BY Name ORDER BY Added DESC" := by
  have hrender : renderSelect .sqlite ⟨stock, stock_valid⟩ stockSelect =
      .ok "SELECT Name FROM Items GROUP BY Name ORDER BY Added DESC" := by
    have hparts : parts .sqlite ⟨stock, stock_valid⟩ stockSelect ⟨"item", none⟩ =
        .ok ⟨stockTable, "Name", [], ["Name"], []⟩ := rfl
    rw [renderSelect_eq_map_parts rfl, hparts]
    simp only [Except.map, Parts.statement, Sql.clauses]
    rw [show Schema.rules ⟨stock, stock_valid⟩ = stock.mappings.rules from rfl, defaultOrder_stock]
    decide
  refine ⟨by decide, rfl, hrender, fun hunordered => ?_⟩
  rcases (unordered_iff rfl hrender).1 hunordered with haggregates | hblank
  · exact haggregates rfl
  · exact absurd (hblank _ rfl " added DESC " (by decide)) (by decide)

end AskSql.Sql
