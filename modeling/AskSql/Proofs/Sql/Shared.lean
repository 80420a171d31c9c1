import AskSql.Proofs.Sql.Statement

/-! What the statements of a select in two dialects have in common.  Where no name needs quotes and
no value is a truth value, they are put together from the same parts and differ in their row limits
alone.  Neither ends with white space or a semicolon. -/

namespace AskSql

/-! ### Truth values -/

mutual

/-- Whether a value is a truth value or a list that holds one. -/
def Json.hasBool : Json → Bool
  | .bool _ => true
  | .arr items => hasBoolIn items
  | _ => false

/-- Whether one of the values of a list is a truth value or a list that holds one. -/
def Json.hasBoolIn : List Json → Bool
  | [] => false
  | item :: items => item.hasBool || hasBoolIn items

end

namespace Sql

open Text Idiom

variable {d e : Dialect} {schema : Schema} {q : Select} {source : EntityRef}

mutual

/-- Only truth values are written differently in two dialects. -/
theorem literal_eq (d e : Dialect) : ∀ value : Json, value.hasBool = false →
    literal d value = literal e value
  | .null, _ | .num _, _ | .str _, _ | .obj _, _ => rfl
  | .arr items, h => by rw [literal, literal, literals_eq d e items h]

theorem literals_eq (d e : Dialect) : ∀ values : List Json, Json.hasBoolIn values = false →
    literals d values = literals e values
  | [], _ => rfl
  | value :: values, h => by
    obtain ⟨hvalue, hvalues⟩ := Bool.or_eq_false_iff.1 h
    rw [literals, literals, literal_eq d e value hvalue, literals_eq d e values hvalues]

end

theorem comparison_same (d e : Dialect) (operator : FilterOperator) {value : Json}
    (h : value.hasBool = false) (column : String) :
    comparison d operator value column = comparison e operator value column := by
  have hvalue := literal_eq d e value h
  unfold comparison
  split
  all_goals first | rfl | rw [literals_eq d e _ h] | rw [hvalue]

theorem condition_same (d e : Dialect) {filter : Filter} (h : filter.value.hasBool = false)
    (column : String) : condition d filter column = condition e filter column := by
  rw [condition, condition, comparison_same d e filter.operator h]

/-! ### Names -/

theorem PlainName.escapeIdentifier_eq {name : String} (h : PlainName d name) :
    escapeIdentifier d name = name :=
  String.toList_inj.1 h.escape_eq

theorem withAlias_eq {text : String} {shownAs : Option String}
    (hd : ∀ name ∈ shownAs, PlainName d name) (he : ∀ name ∈ shownAs, PlainName e name) :
    withAlias d text shownAs = withAlias e text shownAs := by
  cases shownAs with
  | none => rfl
  | some name =>
    rw [withAlias, withAlias, (hd name rfl).escapeIdentifier_eq, (he name rfl).escapeIdentifier_eq]

/-- A column that needs no quotes stands in a statement as it is. -/
theorem column_eq {target : AttributeRef}
    (h : ∀ name ∈ columnNames schema target, PlainName d name) :
    column d schema target = schema.columnFor target.entity target.name := by
  rw [column]
  cases hname : schema.columnFor target.entity target.name with
  | error fault => rfl
  | ok name =>
    rw [columnNames_eq hname] at h
    show Except.ok (escapeIdentifier d name) = _
    rw [(h name (by simp)).escapeIdentifier_eq]

theorem mapM_congr {α β ε : Type} {f g : α → Except ε β} {xs : List α} (h : ∀ x ∈ xs, f x = g x) :
    xs.mapM f = xs.mapM g := by
  induction xs with
  | nil => rfl
  | cons x xs ih =>
    rw [List.mapM_cons, List.mapM_cons, h x (by simp),
      ih fun y hy => h y (List.mem_cons_of_mem x hy)]

/-- Names that need no quotes in any dialect. -/
def AlwaysPlain (names : List String) : Prop :=
  ∀ dialect, ∀ name ∈ names, PlainName dialect name

theorem AlwaysPlain.mono {names more : List String} (h : AlwaysPlain more) (hsub : names ⊆ more) :
    AlwaysPlain names :=
  fun dialect name hname => h dialect name (hsub hname)

theorem column_same {target : AttributeRef} (h : AlwaysPlain (columnNames schema target)) :
    column d schema target = column e schema target := by
  rw [column_eq (h d), column_eq (h e)]

theorem aggregate_same {a : Aggregate} (h : AlwaysPlain (aggregateNames schema a)) :
    aggregate d schema a = aggregate e schema a := by
  obtain ⟨function, target, shownAs⟩ := a
  have halias : ∀ dialect, ∀ name ∈ shownAs, PlainName dialect name := fun dialect name hname =>
    h dialect name (List.mem_append_right _ (Option.mem_toList.2 hname))
  have hwith : ∀ text, withAlias d text shownAs = withAlias e text shownAs := fun text =>
    withAlias_eq (halias d) (halias e)
  cases target with
  | none => cases function <;> simp only [aggregate, hwith]
  | some target =>
    have hcolumn : column d schema target = column e schema target :=
      column_same (h.mono fun name hname => by simp [aggregateNames, hname])
    cases function <;> simp only [aggregate, hwith, hcolumn]

theorem projected_same {target : AttributeRef} (h : AlwaysPlain (targetNames schema target)) :
    (do return withAlias d (← column d schema target) target.shownAs : Except Fault String) =
      do return withAlias e (← column e schema target) target.shownAs := by
  have halias : ∀ dialect, ∀ name ∈ target.shownAs, PlainName dialect name :=
    fun dialect name hname => h dialect name (List.mem_append_right _ (Option.mem_toList.2 hname))
  have hwith : ∀ text, withAlias d text target.shownAs = withAlias e text target.shownAs :=
    fun text => withAlias_eq (halias d) (halias e)
  rw [column_same (d := d) (e := e) (h.mono fun name hname => List.mem_append_left _ hname)]
  simp only [hwith]

/-- What a select shows is shown alike in two dialects. -/
theorem projection_same (h : AlwaysPlain (shownNames schema q)) :
    projection d schema q = projection e schema q := by
  unfold projection
  rw [shownNames] at h
  split
  · rename_i hne
    rw [if_neg (by simpa using hne)] at h
    rw [mapM_congr fun a ha =>
      aggregate_same (h.mono fun name hname => List.mem_flatMap.2 ⟨a, ha, hname⟩)]
  · rename_i hempty
    rw [if_pos (by simpa using hempty)] at h
    rw [mapM_congr fun target htarget =>
      projected_same (h.mono fun name hname => List.mem_flatMap.2 ⟨target, htarget, hname⟩)]

/-- A select has the same parts in two dialects. -/
theorem parts_same (hsource : q.source? = some source) (h : AlwaysPlain (usedNames schema q))
    (hbool : ∀ filter ∈ q.filters, filter.value.hasBool = false) :
    parts d schema q source = parts e schema q source := by
  rw [usedNames_eq hsource] at h
  have hclauses : AlwaysPlain (clauseNames schema q source) :=
    h.mono (List.subset_append_right _ _)
  have hfilters : ∀ filter ∈ q.filters,
      (do return condition d filter (← column d schema filter.target) : Except Fault String) =
        do return condition e filter (← column e schema filter.target) := by
    intro filter hfilter
    have hcolumn : AlwaysPlain (columnNames schema filter.target) := hclauses.mono
      fun name hname => by
        simp only [clauseNames, List.mem_append, List.mem_flatMap]
        exact Or.inl (Or.inl (Or.inr ⟨filter, hfilter, hname⟩))
    rw [column_same (d := d) (e := e) hcolumn]
    simp only [condition_same d e (hbool filter hfilter)]
  have hgroups : ∀ target ∈ q.groupBy, column d schema target = column e schema target :=
    fun target htarget => column_same <| hclauses.mono fun name hname => by
      simp only [clauseNames, List.mem_append, List.mem_flatMap]
      exact Or.inl (Or.inr ⟨target, htarget, hname⟩)
  have hsorts : ∀ sort ∈ q.sorts,
      (do return (← column d schema sort.target) ++ " " ++ sort.direction.keyword :
        Except Fault String) =
        do return (← column e schema sort.target) ++ " " ++ sort.direction.keyword := by
    intro sort hsort
    have hcolumn : AlwaysPlain (columnNames schema sort.target) := hclauses.mono
      fun name hname => by
        simp only [clauseNames, List.mem_append, List.mem_flatMap]
        exact Or.inr ⟨sort, hsort, hname⟩
    rw [column_same (d := d) (e := e) hcolumn]
  rw [parts, parts, projection_same (d := d) (e := e) (h.mono (List.subset_append_left _ _)),
    mapM_congr hfilters, mapM_congr hgroups, mapM_congr hsorts]

theorem ownClauses_same {table : TableMapping} (htable : schema.table? source.name = some table)
    (h : AlwaysPlain (sourceNames schema source)) (filters groups sorts : List String) :
    ownClauses d source table filters groups sorts =
      ownClauses e source table filters groups sorts := by
  have hname : ∀ dialect, escapeIdentifier dialect table.table = table.table := fun dialect =>
    (h dialect _ (by simp [sourceNames, htable])).escapeIdentifier_eq
  have halias : ∀ dialect, ∀ name ∈ source.shownAs, PlainName dialect name :=
    fun dialect name hname => h dialect name (List.mem_append_right _ (Option.mem_toList.2 hname))
  rw [ownClauses, ownClauses, hname, hname, withAlias_eq (halias d) (halias e)]

/-! ### The end of a statement -/

/-- Whether a text ends with neither white space nor a semicolon. -/
def Ended (text : List Char) : Prop :=
  ∃ c ∈ text.getLast?, isBlank c = false ∧ c ≠ ';'

instance (text : List Char) : Decidable (Ended text) :=
  inferInstanceAs (Decidable (∃ c ∈ text.getLast?, isBlank c = false ∧ c ≠ ';'))

theorem Ended.append {back : List Char} (h : Ended back) (front : List Char) :
    Ended (front ++ back) := by
  obtain ⟨c, hc, hlast⟩ := h
  exact ⟨c, by rw [List.getLast?_append, Option.mem_def.1 hc]; rfl, hlast⟩

theorem ended_append (front : String) {back : String} (h : Ended back.toList) :
    Ended (front ++ back).toList := by
  rw [String.toList_append]
  exact h.append _

theorem ended_of_forall {text : List Char} (hne : text ≠ [])
    (h : ∀ c ∈ text, isBlank c = false ∧ c ≠ ';') : Ended text :=
  ⟨text.getLast hne, List.getLast?_eq_some_getLast hne, h _ (List.getLast_mem hne)⟩

theorem ended_quoteLiteral (s : String) : Ended (quoteLiteral s).toList := by
  rw [quoteLiteral, String.toList_ofList]
  exact Ended.append (by decide) _

theorem ended_literal (dialect : Dialect) (value : Json) :
    Ended (literal dialect value).toList := by
  cases value with
  | null => exact (by decide : Ended "NULL".toList)
  | bool b => cases dialect <;> cases b <;> decide
  | num n =>
    have hnumber := n.numberText
    refine ended_of_forall hnumber.ne_nil fun c hc => ?_
    have hc := Numeric.fold_of_isNumeric (hnumber.numeric c hc)
    exact ⟨hc.1, hc.2.1⟩
  | str s => exact ended_quoteLiteral s
  | arr items => exact ended_append _ (by decide)
  | obj fields => exact ended_quoteLiteral _

theorem ended_condition (dialect : Dialect) (filter : Filter) (column : String) :
    Ended (condition dialect filter column).toList := by
  have hvalue := ended_literal dialect filter.value
  have hkeyword : Ended filter.operator.keyword.toList := by cases filter.operator <;> decide
  rw [condition]
  split
  · exact ended_append _ (by decide)
  · unfold comparison
    split
    all_goals
      first
      | exact ended_append _ hvalue
      | exact ended_append _ hkeyword
      | exact ended_append _ (by decide)

theorem ended_name {name : String} (h : PlainName d name) :
    Ended (escapeIdentifier d name).toList := by
  rw [h.escape_eq]
  refine ended_of_forall h.ne_nil fun c hc => ⟨isBlank_of_isPlainChar (h.chars c hc), ?_⟩
  exact ne_of_isPlainChar (h.chars c hc) (by decide +kernel)

theorem ended_intercalate {texts : List String} (hne : texts ≠ []) (sep : String)
    (h : ∀ text ∈ texts, Ended text.toList) : Ended (sep.intercalate texts).toList := by
  induction texts with
  | nil => contradiction
  | cons text texts ih =>
    cases texts with
    | nil => simpa using h text (by simp)
    | cons next texts =>
      rw [String.intercalate_cons_cons]
      exact ended_append _ (ih (by simp) fun text htext => h text (List.mem_cons_of_mem _ htext))

/-- A clause leaves the end of a text visible. -/
theorem Ended.clause {text : List Char} (h : Ended text) {texts : List String}
    (htexts : ∀ text ∈ texts, Ended text.toList) (keyword sep : String) :
    Ended (text ++ spaced (if texts.isEmpty then "" else keyword ++ sep.intercalate texts)) := by
  cases texts with
  | nil => simpa [spaced] using h
  | cons first texts =>
    have hclause := ended_append keyword (ended_intercalate (by simp) sep htexts)
    rw [List.isEmpty_cons, if_neg (by decide), spaced]
    split
    · simpa using h
    · exact Ended.append (hclause.append [' ']) _

theorem exists_of_mem_forall₂ {α β : Type} {r : α → β → Prop} {xs : List α} {ys : List β}
    (h : List.Forall₂ r xs ys) : ∀ y ∈ ys, ∃ x ∈ xs, r x y := by
  induction h with
  | nil => simp
  | @cons x y xs ys hxy _ ih =>
    intro z hz
    rcases List.mem_cons.1 hz with rfl | hz
    · exact ⟨x, by simp, hxy⟩
    · obtain ⟨w, hw, hwz⟩ := ih z hz
      exact ⟨w, List.mem_cons_of_mem _ hw, hwz⟩

theorem Rendering.ended_filters {sql : String} (r : Rendering d schema q source sql) :
    ∀ text ∈ r.filters, Ended text.toList := by
  intro text htext
  obtain ⟨filter, -, name, -, rfl⟩ := exists_of_mem_forall₂ r.filters_eq text htext
  exact ended_condition d filter name

theorem Rendering.ended_groups {sql : String} (r : Rendering d schema q source sql)
    (hplain : ∀ name ∈ q.groupBy.flatMap (columnNames schema), PlainName d name) :
    ∀ text ∈ r.groups, Ended text.toList := by
  intro text htext
  obtain ⟨target, htarget, hcolumn⟩ := exists_of_mem_forall₂ r.groups_eq text htext
  obtain ⟨name, hname, rfl⟩ := column_ok hcolumn
  refine ended_name (hplain name (List.mem_flatMap.2 ⟨target, htarget, ?_⟩))
  rw [columnNames_eq hname]
  exact List.mem_singleton_self name

theorem Rendering.ended_sorts {sql : String} (r : Rendering d schema q source sql) :
    ∀ text ∈ r.sorts, Ended text.toList := by
  intro text htext
  obtain ⟨sort, -, name, -, rfl⟩ := exists_of_mem_forall₂ r.sorts_eq text htext
  refine ended_append _ ?_
  cases sort.direction <;> decide

/-- The statement of a select, without its limit, ends visibly. -/
theorem Rendering.ended {sql : String} (r : Rendering d schema q source sql)
    (hplain : ∀ name ∈ clauseNames schema q source, PlainName d name) (shown : List Char) :
    Ended (shown ++ (ownClauses d source r.table r.filters r.groups r.sorts).flatMap spaced) := by
  simp only [clauseNames, sourceNames, tableFor_eq r.table_eq, List.forall_mem_append] at hplain
  obtain ⟨⟨⟨⟨htable, halias⟩, -⟩, hgroups⟩, -⟩ := hplain
  have hfrom : Ended (withAlias d (escapeIdentifier d r.table.table) source.shownAs).toList := by
    cases hshownAs : source.shownAs with
    | none => exact ended_name (htable _ (by simp))
    | some label => exact ended_append _ (ended_name (halias label (by simp [hshownAs])))
  have hbase := hfrom.append (shown ++ (" " ++ "FROM ").toList)
  have hclauses := ((hbase.clause r.ended_filters "WHERE " " AND ").clause (r.ended_groups hgroups)
    "GROUP BY " ", ").clause r.ended_sorts "ORDER BY " ", "
  simp only [ownClauses, List.flatMap_cons, List.flatMap_nil, List.append_nil]
  rw [@spaced_append "FROM " (by decide)]
  simpa only [List.append_assoc] using hclauses

/-- If every new text ends visibly, a text that does so still does after rewriting. -/
theorem ended_rewriteWordsFrom {rewriteAt? : List Char → Option (List Char × Nat)}
    (hnew : ∀ cs new n, rewriteAt? cs = some (new, n) → Ended new) {text front : List Char}
    {before : Option Char} {literal : Bool} {skip : Nat} (htext : text ≠ [] → Ended text)
    (hfront : text = [] ∨ skip ≠ 0 → Ended front) :
    Ended (front ++ rewriteWordsFrom rewriteAt? before literal skip text) := by
  induction text generalizing before literal skip front with
  | nil => simpa [rewriteWordsFrom] using hfront (Or.inl rfl)
  | cons c cs ih =>
    have hcs : cs ≠ [] → Ended cs := by
      intro hne
      obtain ⟨d, hd, hlast⟩ := htext (by simp)
      refine ⟨d, ?_, hlast⟩
      rwa [List.getLast?_cons_of_ne_nil hne] at hd
    have hpass : ∀ before literal,
        Ended (front ++ c :: rewriteWordsFrom rewriteAt? before literal 0 cs) := by
      intro before literal
      rw [← List.singleton_append, ← List.append_assoc]
      refine ih hcs fun hnil => ?_
      rw [or_iff_left (by simp)] at hnil
      subst hnil
      exact Ended.append (htext (by simp)) _
    cases skip with
    | succ skip =>
      rw [rewriteWordsFrom]
      exact ih hcs fun _ => hfront (Or.inr (by simp))
    | zero =>
      rw [rewriteWordsFrom]
      split
      · exact hpass _ _
      · split
        · rename_i new n hat
          rw [← List.append_assoc]
          exact ih hcs fun _ => Ended.append (hnew _ _ _ hat) _
        · exact hpass _ _

theorem ended_writtenOut {text : List Char} (h : Ended text) : Ended (writtenOut d text) := by
  have hnew : ∀ cs new n, rewriteClockAt? (renderClock d) cs = some (new, n) → Ended new := by
    intro cs new n hat
    obtain ⟨⟨clock, rest⟩, -, heq⟩ := Option.map_eq_some_iff.1 hat
    obtain ⟨rfl, -⟩ := Prod.mk.inj heq
    cases d <;> cases clock <;> decide
  refine @ended_rewriteWordsFrom _ hnew text [] none false 0 (fun _ => h) ?_
  rintro (rfl | hne)
  · exact h
  · contradiction

end Sql

end AskSql
