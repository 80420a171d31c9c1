import AskSql.Proofs.Condition.Filters
import AskSql.Proofs.Condition.Renamed
import AskSql.Proofs.Sql.Statement

/-! The condition of a statement.  The condition of the table, each default filter of its entity and
each filter of the query are joined by AND, and the database reads their conjunction: no OR in one
of them lets a row through that another rules out.  A default filter must still be a condition with
the names of attributes replaced by columns.  A name in quotes can break it: the quotes stay around
the column, which may bring its own. -/

namespace AskSql.Sql

open Text

variable {dialect : Dialect} {schema : Schema} {q : Select} {source : EntityRef} {sql : String}
  {table : TableMapping} {text : String}

/-! ### What restricts a query -/

/-- The condition of a table, unless it is blank. -/
def tableTexts (table : TableMapping) : List String :=
  table.condition.toList.filter (!isBlankText ·)

/-- The default filters of an entity that are not blank, in the order of their names. -/
def defaultTexts (rules : BusinessRules) (entity : String) : List String :=
  ((rules.defaultFilters.get? entity).toList.flatMap (·.values)).filter (!isBlankText ·)

/-- A default filter with the names of attributes replaced by columns. -/
def replacedText (dialect : Dialect) (table : TableMapping) (text : String) : List Char :=
  replaceNames dialect table.columns (trim text.toList)

/-- Each name in a default filter that is replaced can be replaced where it stands. -/
def NamesFree (dialect : Dialect) (table : TableMapping) (text : String) : Prop :=
  Free dialect (byLength table.columns.entries) (.code none) [] (trim text.toList)

/-- A default filter that is a condition with its names replaced.  It is one if it is a condition as
it is configured and its names can be replaced where they stand. -/
def Applicable (dialect : Dialect) (table : TableMapping) (text : String) : Prop :=
  (∃ d, condition? dialect (replacedText dialect table text) = some d) ∨
    (∃ c, condition? dialect text.toList = some c) ∧ NamesFree dialect table text

/-- The condition that a default filter sets. -/
structure DefaultReads (dialect : Dialect) (table : TableMapping) (text : String) (d : Condition) :
    Prop where
  replaced : condition? dialect (replacedText dialect table text) = some d
  alike : ∀ c, condition? dialect text.toList = some c → NamesFree dialect table text →
    c.Alike (Replaces dialect table.columns.entries) d

/-- The condition that a filter sets: its comparison, negated if the filter is. -/
def FilterReads (dialect : Dialect) (schema : Schema) (filter : Filter) (d : Condition) : Prop :=
  ∃ name ts, schema.columnFor filter.target.entity filter.target.name = .ok name ∧
    tokens? dialect (comparison dialect filter.operator filter.value
      (escapeIdentifier dialect name)).toList = some ts ∧
    d = filterCondition filter ts

/-- The conditions that restrict a query, each as it is read by itself. -/
structure Restrictions (dialect : Dialect) (schema : Schema) (q : Select) (source : EntityRef)
    (table : TableMapping) where
  ofTable : List Condition
  ofRules : List Condition
  ofQuery : List Condition
  ofTable_eq : List.Forall₂ (fun text c => condition? dialect text.toList = some c)
    (tableTexts table) ofTable
  ofRules_eq : List.Forall₂ (DefaultReads dialect table) (defaultTexts schema.rules source.name)
    ofRules
  ofQuery_eq : List.Forall₂ (FilterReads dialect schema) q.filters ofQuery

/-- All of them, in the order of the statement. -/
def Restrictions.all (s : Restrictions dialect schema q source table) : List Condition :=
  s.ofTable ++ s.ofRules ++ s.ofQuery

namespace Rendering

/-- The conditions of a statement. -/
def conditions (r : Rendering dialect schema q source sql) : List String :=
  tableCondition r.table ++ defaultConditions dialect schema.rules source.name r.table ++ r.filters

/-- The clauses of a statement. -/
def clauses (r : Rendering dialect schema q source sql) : List String :=
  Sql.clauses dialect schema.rules q source r.table r.shown r.filters r.groups r.sorts

/-- What comes before the condition of a statement: what it shows, and of which table. -/
def front (r : Rendering dialect schema q source sql) : List Char :=
  (" ".intercalate (r.clauses.take 2)).toList

/-- What comes behind the condition of a statement: its groups, its order and its limit. -/
def back (r : Rendering dialect schema q source sql) : List Char :=
  (r.clauses.drop 3).flatMap spaced

/-- A statement has its conditions between its table and its groups. -/
theorem toList_eq (r : Rendering dialect schema q source sql) :
    sql.toList = r.front ++ (spaced (if r.conditions.isEmpty then ""
      else "WHERE " ++ " AND ".intercalate r.conditions) ++ r.back) := by
  have hselect : ∀ text, "SELECT " ++ text ≠ "" := fun text h =>
    absurd (String.append_eq_empty_iff.1 h).1 (by decide)
  have hfrom : spaced (withAlias dialect ("FROM " ++ escapeIdentifier dialect r.table.table)
      source.shownAs) = ' ' :: (withAlias dialect
        ("FROM " ++ escapeIdentifier dialect r.table.table) source.shownAs).toList := by
    rw [spaced, if_neg]
    cases source.shownAs <;> simp [withAlias]
  refine (congrArg String.toList r.sql_eq).trans ?_
  rw [Sql.clauses, String.append_assoc, toList_clauses (hselect _), List.flatMap_cons,
    List.flatMap_cons, hfrom, front, back, clauses, Sql.clauses, conditions]
  simp [String.append_assoc]

end Rendering

theorem tableCondition_eq (table : TableMapping) :
    tableCondition table = (tableTexts table).map fun text => guarded (trim text.toList) := by
  rw [tableCondition, tableTexts]
  cases table.condition with
  | none => rfl
  | some text => cases h : isBlankText text <;> simp [h]

theorem defaultConditions_eq (dialect : Dialect) (rules : BusinessRules) (entity : String)
    (table : TableMapping) : defaultConditions dialect rules entity table =
      (defaultTexts rules entity).map fun text => guarded (replacedText dialect table text) := by
  rw [defaultConditions, defaultTexts]
  cases rules.defaultFilters.get? entity with
  | none => rfl
  | some filters => simp [replacedText]

/-! ### Their conjunction -/

/-- What is found for each item of a list, in terms of what stands for it in another list. -/
theorem exists_forall₂ {α β γ : Type} {p : α → β → Prop} {r : α → γ → Prop} {s : β → γ → Prop}
    {xs : List α} {ys : List β} (h : List.Forall₂ p xs ys)
    (hstep : ∀ x ∈ xs, ∀ y, p x y → ∃ z, r x z ∧ s y z) :
    ∃ zs, List.Forall₂ r xs zs ∧ List.Forall₂ s ys zs := by
  induction h with
  | nil => exact ⟨[], .nil, .nil⟩
  | cons hxy _ ih =>
    obtain ⟨z, hz, hz'⟩ := hstep _ (by simp) _ hxy
    obtain ⟨zs, hzs, hzs'⟩ := ih fun x hx => hstep x (List.mem_cons_of_mem _ hx)
    exact ⟨z :: zs, .cons hz hzs, .cons hz' hzs'⟩

theorem forall₂_map {α β : Type} (f : α → β) (xs : List α) :
    List.Forall₂ (fun x y => y = f x) xs (xs.map f) := by
  rw [List.forall₂_map_right_iff]
  exact List.forall₂_same.2 fun _ _ => rfl

theorem Applicable.exists_reads (h : Applicable dialect table text) :
    ∃ d, DefaultReads dialect table text d := by
  have hfree : ∀ c, condition? dialect text.toList = some c → NamesFree dialect table text →
      ∃ d, condition? dialect (replacedText dialect table text) = some d ∧
        c.Alike (Replaces dialect table.columns.entries) d := fun c hc hfree =>
    condition?_replaceNames (by rw [condition?_trim, hc]) hfree
  have hexists : ∃ d, condition? dialect (replacedText dialect table text) = some d := by
    rcases h with h | ⟨⟨c, hc⟩, hnames⟩
    · exact h
    · obtain ⟨d, hd, -⟩ := hfree c hc hnames
      exact ⟨d, hd⟩
  obtain ⟨d, hd⟩ := hexists
  refine ⟨d, hd, fun c hc hnames => ?_⟩
  obtain ⟨d', hd', halike⟩ := hfree c hc hnames
  obtain rfl := Option.some.inj (hd.symm.trans hd')
  exact halike

/-- The conditions of a statement can be joined, each as what it is by itself. -/
theorem exists_restrictions (r : Rendering dialect schema q source sql)
    (htable : ∀ text ∈ tableTexts r.table, ∃ c, condition? dialect text.toList = some c)
    (hrules : ∀ text ∈ defaultTexts schema.rules source.name, Applicable dialect r.table text)
    (hcolumns : ∀ filter ∈ q.filters, ∀ name ∈ columnNames schema filter.target,
      Leads dialect (escapeIdentifier dialect name).toList)
    (hstrings : LiteralsClose dialect (q.filters.flatMap filterStrings)) :
    ∃ s : Restrictions dialect schema q source r.table,
      List.Forall₂ (fun text c => Joinable dialect text.toList c) r.conditions s.all := by
  obtain ⟨ofTable, htableReads, htableJoins⟩ :=
    exists_forall₂ (forall₂_map (fun text => guarded (trim text.toList)) (tableTexts r.table))
      fun text htext joined hjoined => (htable text htext).imp fun c hc =>
        ⟨hc, hjoined ▸ joinable_guarded ((condition?_trim dialect text.toList).trans hc)⟩
  obtain ⟨ofRules, hrulesReads, hrulesJoins⟩ :=
    exists_forall₂ (forall₂_map (fun text => guarded (replacedText dialect r.table text))
        (defaultTexts schema.rules source.name))
      fun text htext joined hjoined => (hrules text htext).exists_reads.imp fun d hd =>
        ⟨hd, hjoined ▸ joinable_guarded hd.replaced⟩
  have hquery : ∃ cs, List.Forall₂ (FilterReads dialect schema) q.filters cs ∧
      List.Forall₂ (fun text c => Joinable dialect text.toList c) r.filters cs := by
    refine exists_forall₂ r.filters_eq fun filter hfilter joined hjoined => ?_
    obtain ⟨column, hcolumn, rfl⟩ := hjoined
    obtain ⟨name, hname, rfl⟩ := column_ok hcolumn
    have hleads := hcolumns filter hfilter name (by simp [columnNames_eq hname])
    have hclose : LiteralsClose dialect (filterStrings filter) :=
      hstrings.mono fun s hs => List.mem_flatMap.2 ⟨filter, hfilter, hs⟩
    obtain ⟨ts, hts, hjoinable⟩ := joinable_condition hleads hclose
    exact ⟨_, ⟨name, ts, hname, hts, rfl⟩, hjoinable⟩
  obtain ⟨ofQuery, hqueryReads, hqueryJoins⟩ := hquery
  refine ⟨⟨ofTable, ofRules, ofQuery, htableReads, hrulesReads, hqueryReads⟩, ?_⟩
  rw [Rendering.conditions, tableCondition_eq, defaultConditions_eq]
  exact List.rel_append (List.rel_append htableJoins hrulesJoins) hqueryJoins

theorem Restrictions.applicable (s : Restrictions dialect schema q source table) :
    ∀ text ∈ defaultTexts schema.rules source.name, Applicable dialect table text :=
      fun text htext => by
  obtain ⟨d, hd⟩ := exists_of_forall₂ s.ofRules_eq text htext
  exact Or.inl ⟨d, hd.replaced⟩

/-- The condition of a statement is read as the conjunction of the condition of the table, the
default filters of its entity and the filters of the query exactly if each default filter is a
condition with its names replaced.  All of them keep their own structure, so the condition holds of
a row exactly if each of them does. -/
theorem condition_conjunction_iff (hsource : q.source? = some source)
    (htable : schema.tableFor source.name = .ok table)
    (hsql : renderSelect dialect schema q = .ok sql)
    (hwhere : ∀ text ∈ tableTexts table, ∃ c, condition? dialect text.toList = some c)
    (hcolumns : ∀ filter ∈ q.filters, ∀ name ∈ columnNames schema filter.target,
      Leads dialect (escapeIdentifier dialect name).toList)
    (hstrings : LiteralsClose dialect (q.filters.flatMap filterStrings)) :
    (∀ text ∈ defaultTexts schema.rules source.name, Applicable dialect table text) ↔
      ∃ (r : Rendering dialect schema q source sql)
        (s : Restrictions dialect schema q source table),
        (s.all = [] ∧ sql.toList = r.front ++ r.back) ∨
          ∃ whole c, sql.toList = r.front ++ (" WHERE ".toList ++ (whole ++ r.back)) ∧
            condition? dialect whole = some c ∧
            c.conjuncts = s.all.flatMap Condition.conjuncts ∧
            ∀ value, c.eval value = some true ↔ ∀ d ∈ s.all, d.eval value = some true := by
  constructor
  · intro hrules
    obtain ⟨r⟩ := rendering_of_renderSelect hsource hsql
    obtain rfl : table = r.table := Except.ok.inj (htable.symm.trans r.table_eq)
    obtain ⟨s, hs⟩ := exists_restrictions r hwhere hrules hcolumns hstrings
    refine ⟨r, s, ?_⟩
    have hsplit := r.toList_eq
    cases hconditions : r.conditions with
    | nil =>
      rw [hconditions] at hs hsplit
      exact Or.inl ⟨List.forall₂_nil_left_iff.1 hs, hsplit⟩
    | cons text texts =>
      obtain ⟨c, hc, hconjuncts⟩ := joinable_intercalate hs (by simp [hconditions])
      refine Or.inr ⟨_, c, ?_, hc.condition?, hconjuncts, fun value => ?_⟩
      · rw [hsplit, hconditions]
        simp [spaced_append]
      · rw [Condition.eval_eq_true, hconjuncts, List.forall_mem_flatMap]
        exact forall₂_congr fun d _ => Condition.eval_eq_true.symm
  · rintro ⟨-, s, -⟩
    exact s.applicable

/-! ### A yard -/

/-- The table of the items of a yard. -/
def yardTable : TableMapping :=
  ⟨"Items", .ofList [("name", "Name"), ("added", "[Added On]")], some " Deleted = 0 "⟩

/-- The depot with a condition on its table and default filters for its items. -/
def yard : TenantConfig :=
  { depot with
    datasource :=
      { depot.datasource with
        databaseType := "sqlserver"
        tables := .ofList [("item", yardTable)] }
    mappings :=
      { depot.mappings with
        rules :=
          { defaultFilters := .ofList
              [("item", .ofList [("bulky", "added > 0"),
              ("cities", "name = 'Rome' OR name = 'Oslo'")])] } } }

theorem yard_valid : yard.faults = [] := by decide +kernel

/-- The names of the items without one of them. -/
def yardSelect : Select where
  entities := [⟨"item", none⟩]
  projection := [⟨"item", "name", none⟩]
  filters := [⟨⟨"item", "name", none⟩, .eq, .str "it's OR", true⟩]

theorem byLength_yard : byLength yardTable.columns.entries =
    [("added", "[Added On]"), ("name", "Name")] := by
  have hentries : yardTable.columns.entries = [("added", "[Added On]"), ("name", "Name")] := by
    decide +kernel
  rw [byLength, hentries]
  exact List.mergeSort_of_pairwise (by decide +kernel)

theorem defaultConditions_yard :
    defaultConditions .sqlServer yard.mappings.rules "item" yardTable =
      ["[Added On] > 0", "(Name = 'Rome' OR Name = 'Oslo')"] := by
  rw [defaultConditions_eq]
  have htexts : defaultTexts yard.mappings.rules "item" =
      ["added > 0", "name = 'Rome' OR name = 'Oslo'"] := by decide +kernel
  rw [htexts]
  simp only [List.map, replacedText, replaceNames, byLength_yard]
  decide +kernel

/-- A default filter has an OR and so has the string of a filter, and the statement is read as its
four restrictions all the same. -/
theorem condition_conjunction_yard :
    renderSelect .sqlServer ⟨yard, yard_valid⟩ yardSelect =
        .ok ("SELECT Name FROM Items WHERE Deleted = 0 AND [Added On] > 0 AND " ++
          "(Name = 'Rome' OR Name = 'Oslo') AND NOT (Name = 'it''s OR')") ∧
      ∃ (s : Restrictions .sqlServer ⟨yard, yard_valid⟩ yardSelect ⟨"item", none⟩ yardTable)
        (whole : List Char) (c : Condition), s.all.length = 4 ∧
          condition? .sqlServer whole = some c ∧
          c.conjuncts = s.all.flatMap Condition.conjuncts := by
  have hrender : renderSelect .sqlServer ⟨yard, yard_valid⟩ yardSelect =
      .ok ("SELECT Name FROM Items WHERE Deleted = 0 AND [Added On] > 0 AND " ++
        "(Name = 'Rome' OR Name = 'Oslo') AND NOT (Name = 'it''s OR')") := by
    have hparts : parts .sqlServer ⟨yard, yard_valid⟩ yardSelect ⟨"item", none⟩ =
        .ok ⟨yardTable, "Name", ["NOT (Name = 'it''s OR')"], [], []⟩ := rfl
    rw [renderSelect_eq_map_parts rfl, hparts]
    simp only [Except.map, Parts.statement, Sql.clauses]
    rw [show Schema.rules ⟨yard, yard_valid⟩ = yard.mappings.rules from rfl, defaultConditions_yard]
    decide +kernel
  have hwhere : ∀ text ∈ tableTexts yardTable, ∃ c, condition? .sqlServer text.toList = some c := by
    have hall : ∀ text ∈ tableTexts yardTable,
        (condition? .sqlServer text.toList).isSome = true := by
      decide +kernel
    exact fun text htext => Option.isSome_iff_exists.1 (hall text htext)
  have hrules : ∀ text ∈ defaultTexts yard.mappings.rules "item",
      Applicable .sqlServer yardTable text := by
    have hall : ∀ text ∈ defaultTexts yard.mappings.rules "item",
        (condition? .sqlServer text.toList).isSome = true ∧
          Free .sqlServer [("added", "[Added On]"), ("name", "Name")] (.code none) []
            (trim text.toList) := by
      decide +kernel
    intro text htext
    obtain ⟨hreads, hfree⟩ := hall text htext
    exact Or.inr ⟨Option.isSome_iff_exists.1 hreads, by rwa [NamesFree, byLength_yard]⟩
  have hcolumns : ∀ filter ∈ yardSelect.filters,
      ∀ name ∈ columnNames ⟨yard, yard_valid⟩ filter.target,
        Leads .sqlServer (escapeIdentifier .sqlServer name).toList := by
    have hall : ∀ filter ∈ yardSelect.filters,
        ∀ name ∈ columnNames ⟨yard, yard_valid⟩ filter.target, WellQuoted .sqlServer name := by
      decide +kernel
    exact fun filter hfilter name hname => leads_column (hall filter hfilter name hname)
  have hsource : yardSelect.source? = some ⟨"item", none⟩ := rfl
  have hstrings : LiteralsClose .sqlServer (yardSelect.filters.flatMap filterStrings) :=
    fun hother =>
    absurd hother (by decide)
  obtain ⟨r, s, h⟩ :=
    (condition_conjunction_iff hsource rfl hrender hwhere hcolumns hstrings).1 hrules
  have hlength : s.all.length = 4 := by
    rw [Restrictions.all, List.length_append, List.length_append, ← s.ofTable_eq.length_eq,
      ← s.ofRules_eq.length_eq, ← s.ofQuery_eq.length_eq]
    decide +kernel
  rcases h with ⟨hnil, -⟩ | ⟨whole, c, -, hc, hconjuncts, -⟩
  · rw [hnil] at hlength
    contradiction
  · exact ⟨hrender, s, whole, c, hlength, hc, hconjuncts⟩

/-- Brackets around a name keep those of its column open, so the filter is no condition any more. -/
theorem condition?_replacedText_quoted :
    (condition? .sqlServer "[added] > 0".toList).isSome = true ∧
      condition? .sqlServer (replacedText .sqlServer yardTable "[added] > 0") = none := by
  rw [replacedText, replaceNames, byLength_yard]
  decide +kernel

end AskSql.Sql
