import Mathlib.Data.List.Forall2
import AskSql.Sql.Statement
import AskSql.Proofs.Query

/-! What a select that has a statement looks up: the table of its entity and the column of each
attribute that stands in the statement. -/

namespace AskSql

open Sql

variable {dialect : Dialect} {schema : Schema} {q : Select} {sql : String}

/-- A computation that gives a result has given each result on the way to it. -/
theorem exists_of_bind {α β ε : Type} {x : Except ε α} {f : α → Except ε β} {b : β}
    (h : (x >>= f) = .ok b) : ∃ a, x = .ok a ∧ f a = .ok b := by
  cases x with
  | error fault => contradiction
  | ok a => exact ⟨a, rfl, h⟩

/-- What is done with the result of the last step of a computation. -/
theorem map_bind {α β γ ε : Type} (x : Except ε α) (f : α → Except ε β) (g : β → γ) :
    (x >>= f).map g = x >>= fun a => (f a).map g := by
  cases x <;> rfl

/-- The items of a list that is rendered item by item. -/
theorem forall₂_of_mapM {α β ε : Type} {f : α → Except ε β} {xs : List α} {ys : List β}
    (h : xs.mapM f = .ok ys) : List.Forall₂ (fun x y => f x = .ok y) xs ys := by
  induction xs generalizing ys with
  | nil =>
    obtain rfl : [] = ys := Except.ok.inj h
    exact .nil
  | cons x xs ih =>
    rw [List.mapM_cons] at h
    obtain ⟨y, hy, h⟩ := exists_of_bind h
    obtain ⟨rest, hrest, h⟩ := exists_of_bind h
    obtain rfl : y :: rest = ys := Except.ok.inj h
    exact .cons hy (ih hrest)

theorem exists_of_forall₂ {α β : Type} {r : α → β → Prop} {xs : List α} {ys : List β}
    (h : List.Forall₂ r xs ys) : ∀ x ∈ xs, ∃ y, r x y := by
  induction h with
  | nil => simp
  | cons hxy _ ih =>
    intro x hx
    rcases List.mem_cons.1 hx with rfl | hx
    · exact ⟨_, hxy⟩
    · exact ih x hx

/-- A relation that follows from another for the items of a list. -/
theorem forall₂_of_imp {α β : Type} {r r' : α → β → Prop} {xs : List α} {ys : List β}
    (h : List.Forall₂ r xs ys) (himp : ∀ x ∈ xs, ∀ y, r x y → r' x y) : List.Forall₂ r' xs ys := by
  induction h with
  | nil => exact .nil
  | cons hxy _ ih =>
    exact .cons (himp _ (by simp) _ hxy) (ih fun x hx => himp x (List.mem_cons_of_mem _ hx))

namespace Sql

/-- A column in a statement is the escaped column of its attribute. -/
theorem column_ok {target : AttributeRef} {text : String}
    (h : column dialect schema target = .ok text) :
    ∃ name, schema.columnFor target.entity target.name = .ok name ∧
      text = escapeIdentifier dialect name := by
  rw [column] at h
  cases hname : schema.columnFor target.entity target.name with
  | error fault => simp [hname, Except.map] at h
  | ok name =>
    rw [hname] at h
    exact ⟨name, rfl, (Except.ok.inj h).symm⟩

/-- The column of an attribute is a column of the table of its entity. -/
theorem get?_of_columnFor {entity attr name : String} {table : TableMapping}
    (htable : schema.tableFor entity = .ok table) (h : schema.columnFor entity attr = .ok name) :
    table.columns.get? attr = some name := by
  simp only [Schema.columnFor, htable, bind, Except.bind] at h
  split at h
  · rename_i column hcolumn
    rw [hcolumn, Except.ok.inj h]
  · contradiction

/-- The clauses of a statement, of which all but the first two may be empty. -/
def clauses (dialect : Dialect) (rules : BusinessRules) (q : Select) (source : EntityRef)
    (table : TableMapping) (shown : String) (filters groups sorts : List String) : List String :=
  let top := match q.limit with
    | some n => if usesTop dialect then "TOP " ++ toString n ++ " " else ""
    | none => ""
  let limit := match q.limit with
    | some n => if usesTop dialect then "" else "LIMIT " ++ toString n
    | none => ""
  let conditions :=
    tableCondition table ++ defaultConditions dialect rules source.name table ++ filters
  let order :=
    if !sorts.isEmpty then "ORDER BY " ++ ", ".intercalate sorts
    else if q.aggregates.isEmpty then defaultOrder dialect rules source.name table
    else ""
  ["SELECT " ++ top ++ shown,
   withAlias dialect ("FROM " ++ escapeIdentifier dialect table.table) source.shownAs,
   if conditions.isEmpty then "" else "WHERE " ++ " AND ".intercalate conditions,
   if groups.isEmpty then "" else "GROUP BY " ++ ", ".intercalate groups,
   order,
   limit]

/-- What the statement of a select is put together from. -/
structure Parts where
  table : TableMapping
  shown : String
  filters : List String
  groups : List String
  sorts : List String

/-- The parts of the statement of a select. -/
def parts (dialect : Dialect) (schema : Schema) (q : Select) (source : EntityRef) :
    Except Fault Parts := do
  let table ← schema.tableFor source.name
  let shown ← projection dialect schema q
  let filters ← q.filters.mapM fun filter => do
    return condition dialect filter (← column dialect schema filter.target)
  let groups ← q.groupBy.mapM (column dialect schema)
  let sorts ← q.sorts.mapM fun sort => do
    return (← column dialect schema sort.target) ++ " " ++ sort.direction.keyword
  return ⟨table, shown, filters, groups, sorts⟩

/-- The statement that is put together from its parts. -/
def Parts.statement (dialect : Dialect) (schema : Schema) (q : Select) (source : EntityRef)
    (p : Parts) : String :=
  " ".intercalate ((clauses dialect schema.rules q source p.table p.shown p.filters p.groups
    p.sorts).filter (!·.isEmpty))

/-- A select has a statement exactly if it has all the parts of one. -/
theorem renderSelect_eq_map_parts {source : EntityRef} (hsource : q.source? = some source) :
    renderSelect dialect schema q =
      (parts dialect schema q source).map (Parts.statement dialect schema q source) := by
  rw [renderSelect, parts]
  simp only [hsource, map_bind]
  rfl

/-- A statement with what it is put together from. -/
structure Rendering (dialect : Dialect) (schema : Schema) (q : Select) (source : EntityRef)
    (sql : String) where
  table : TableMapping
  shown : String
  filters : List String
  groups : List String
  sorts : List String
  table_eq : schema.tableFor source.name = .ok table
  shown_eq : projection dialect schema q = .ok shown
  filters_eq :
    List.Forall₂ (fun filter text => ∃ name, column dialect schema filter.target = .ok name ∧
    text = condition dialect filter name) q.filters filters
  groups_eq : List.Forall₂ (fun target text => column dialect schema target = .ok text)
    q.groupBy groups
  sorts_eq : List.Forall₂ (fun sort text => ∃ name, column dialect schema sort.target = .ok name ∧
    text = name ++ " " ++ sort.direction.keyword) q.sorts sorts
  sql_eq : sql = " ".intercalate
    ((clauses dialect schema.rules q source table shown filters groups sorts).filter (!·.isEmpty))

theorem parts_ok {source : EntityRef} {p : Parts} (h : parts dialect schema q source = .ok p) :
    schema.tableFor source.name = .ok p.table ∧ projection dialect schema q = .ok p.shown ∧
      List.Forall₂ (fun filter text => ∃ name, column dialect schema filter.target = .ok name ∧
        text = condition dialect filter name) q.filters p.filters ∧
      List.Forall₂ (fun target text => column dialect schema target = .ok text)
        q.groupBy p.groups ∧
      List.Forall₂ (fun sort text => ∃ name, column dialect schema sort.target = .ok name ∧
        text = name ++ " " ++ sort.direction.keyword) q.sorts p.sorts := by
  rw [parts] at h
  obtain ⟨table, htable, h⟩ := exists_of_bind h
  obtain ⟨shown, hshown, h⟩ := exists_of_bind h
  obtain ⟨filters, hfilters, h⟩ := exists_of_bind h
  obtain ⟨groups, hgroups, h⟩ := exists_of_bind h
  obtain ⟨sorts, hsorts, h⟩ := exists_of_bind h
  obtain rfl := Except.ok.inj h
  refine ⟨htable, hshown, ?_, forall₂_of_mapM hgroups, ?_⟩
  · refine (forall₂_of_mapM hfilters).imp fun filter text htext => ?_
    obtain ⟨name, hname, htext⟩ := exists_of_bind htext
    exact ⟨name, hname, (Except.ok.inj htext).symm⟩
  · refine (forall₂_of_mapM hsorts).imp fun sort text htext => ?_
    obtain ⟨name, hname, htext⟩ := exists_of_bind htext
    exact ⟨name, hname, (Except.ok.inj htext).symm⟩

/-- The statement that is put together from its parts, with its parts. -/
def Parts.rendering {source : EntityRef} {p : Parts} (h : parts dialect schema q source = .ok p) :
    Rendering dialect schema q source (p.statement dialect schema q source) where
  table := p.table
  shown := p.shown
  filters := p.filters
  groups := p.groups
  sorts := p.sorts
  table_eq := (parts_ok h).1
  shown_eq := (parts_ok h).2.1
  filters_eq := (parts_ok h).2.2.1
  groups_eq := (parts_ok h).2.2.2.1
  sorts_eq := (parts_ok h).2.2.2.2
  sql_eq := rfl

/-- A select that has a statement and a source has everything that the statement needs. -/
theorem rendering_of_renderSelect {source : EntityRef} (hsource : q.source? = some source)
    (h : renderSelect dialect schema q = .ok sql) :
    Nonempty (Rendering dialect schema q source sql) := by
  rw [renderSelect_eq_map_parts hsource] at h
  cases hparts : parts dialect schema q source with
  | error fault =>
    rw [hparts] at h
    cases h
  | ok p =>
    rw [hparts] at h
    obtain rfl := Except.ok.inj h
    exact ⟨Parts.rendering hparts⟩

theorem renderSelect_of_statement (h : statement dialect schema (.select q) = .ok sql) :
    ∃ text, renderSelect dialect schema q = .ok text := by
  rw [statement, selectStatement] at h
  cases hrender : renderSelect dialect schema q with
  | error fault => simp [hrender, Except.map] at h
  | ok text => exact ⟨text, rfl⟩

/-- What comes before the argument of an aggregate. -/
def aggregateFront : Aggregation → Option AttributeRef → String
  | .distinct, some _ => "COUNT(DISTINCT "
  | .distinct, none => "COUNT("
  | function, _ => function.keyword ++ "("

/-- An aggregate over an attribute stands around its column. -/
theorem aggregate_over (function : Aggregation) (target : AttributeRef) (shownAs : Option String) :
    aggregate dialect schema ⟨function, some target, shownAs⟩ =
      column dialect schema target >>= fun arg =>
        pure (withAlias dialect (aggregateFront function (some target) ++ arg ++ ")") shownAs) := by
  cases function <;> rfl

/-- An aggregate over the rows stands around a star. -/
theorem aggregate_rows (function : Aggregation) (shownAs : Option String) :
    aggregate dialect schema ⟨function, none, shownAs⟩ =
      .ok (withAlias dialect (aggregateFront function none ++ "*" ++ ")") shownAs) := by
  cases function <;> rfl

theorem aggregate_ok {a : Aggregate} {text : String} (h : aggregate dialect schema a = .ok text) :
    ∃ arg, (a.target = none ∧ arg = "*" ∨
        ∃ target, a.target = some target ∧ column dialect schema target = .ok arg) ∧
      text = withAlias dialect (aggregateFront a.function a.target ++ arg ++ ")") a.shownAs := by
  obtain ⟨function, target, shownAs⟩ := a
  cases target with
  | none =>
    rw [aggregate_rows] at h
    exact ⟨"*", Or.inl ⟨rfl, rfl⟩, (Except.ok.inj h).symm⟩
  | some target =>
    rw [aggregate_over] at h
    obtain ⟨arg, harg, htext⟩ := exists_of_bind h
    exact ⟨arg, Or.inr ⟨target, rfl, harg⟩, (Except.ok.inj htext).symm⟩

/-- What a select shows is the list of its aggregates, or else of its attributes, or else a star. -/
theorem projection_ok {shown : String} (h : projection dialect schema q = .ok shown) :
    (q.aggregates ≠ [] ∧ ∃ texts, shown = ", ".intercalate texts ∧
        List.Forall₂ (fun a text => aggregate dialect schema a = .ok text) q.aggregates texts) ∨
      (q.aggregates = [] ∧ q.projection ≠ [] ∧ ∃ texts, shown = ", ".intercalate texts ∧
        List.Forall₂ (fun target text => ∃ name, column dialect schema target = .ok name ∧
          text = withAlias dialect name target.shownAs) q.projection texts) ∨
      (q.aggregates = [] ∧ q.projection = [] ∧ shown = "*") := by
  rw [projection] at h
  split at h
  · rename_i hne
    obtain ⟨texts, htexts, h⟩ := exists_of_bind h
    exact Or.inl ⟨by simpa using hne, texts, (Except.ok.inj h).symm, forall₂_of_mapM htexts⟩
  · rename_i hempty
    have hempty : q.aggregates = [] := by simpa using hempty
    split at h
    · rename_i hne
      obtain ⟨texts, htexts, h⟩ := exists_of_bind h
      refine Or.inr (Or.inl ⟨hempty, by simpa using hne, texts, (Except.ok.inj h).symm,
        (forall₂_of_mapM htexts).imp fun target text htext => ?_⟩)
      obtain ⟨name, hname, htext⟩ := exists_of_bind htext
      exact ⟨name, hname, (Except.ok.inj htext).symm⟩
    · rename_i hnone
      exact Or.inr (Or.inr ⟨hempty, by simpa using hnone, (Except.ok.inj h).symm⟩)

/-- Every attribute in a statement has a column. -/
theorem Rendering.columns {source : EntityRef} (r : Rendering dialect schema q source sql) :
    ∀ target ∈ q.rendered, ∃ name, schema.columnFor target.entity target.name = .ok name := by
  have hname : ∀ {target text}, column dialect schema target = .ok text →
      ∃ name, schema.columnFor target.entity target.name = .ok name := fun h =>
    (column_ok h).imp fun _ h => h.1
  intro target htarget
  rcases List.mem_append.1 htarget with hshown | hclause
  · rw [Select.shownTargets] at hshown
    rcases projection_ok r.shown_eq with ⟨hne, texts, -, htexts⟩ | ⟨hempty, -, texts, -, htexts⟩ |
      ⟨hempty, hnone, -⟩
    · rw [if_neg (by simpa using hne)] at hshown
      obtain ⟨a, ha, heq⟩ := List.mem_filterMap.1 hshown
      obtain ⟨text, htext⟩ := exists_of_forall₂ htexts a ha
      obtain ⟨arg, harg, -⟩ := aggregate_ok htext
      rcases harg with ⟨hnone, -⟩ | ⟨other, hother, hcolumn⟩
      · rw [hnone] at heq
        contradiction
      · obtain rfl : other = target := Option.some.inj (hother.symm.trans heq)
        exact hname hcolumn
    · rw [if_pos (by simp [hempty])] at hshown
      obtain ⟨text, name, hcolumn, -⟩ := exists_of_forall₂ htexts target hshown
      exact hname hcolumn
    · simp [hempty, hnone] at hshown
  · simp only [Select.clauseTargets, List.mem_append, List.mem_map] at hclause
    rcases hclause with (⟨filter, hfilter, rfl⟩ | ⟨sort, hsort, rfl⟩) | hgroup
    · obtain ⟨text, name, hcolumn, -⟩ := exists_of_forall₂ r.filters_eq filter hfilter
      exact hname hcolumn
    · obtain ⟨text, name, hcolumn, -⟩ := exists_of_forall₂ r.sorts_eq sort hsort
      exact hname hcolumn
    · obtain ⟨text, hcolumn⟩ := exists_of_forall₂ r.groups_eq target hgroup
      exact hname hcolumn

end Sql

end AskSql
