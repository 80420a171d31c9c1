import AskSql.Proofs.Sql.PlainName
import AskSql.Proofs.Sql.Rendering
import AskSql.Proofs.Sql.Values
import AskSql.Proofs.Translate.Spelling

/-! What translation makes of the statement of a select whose names need no quotes.  It writes out
the clock keywords among the words of those names and does no more; the values of the filters never
reach its rules. -/

namespace AskSql.Sql

open Text Idiom RowLimit

variable {dialect : Dialect} {schema : Schema} {q : Select} {source : EntityRef}

/-! ### What stands in a statement -/

/-- The column of an attribute, if it has one. -/
def columnNames (schema : Schema) (target : AttributeRef) : List String :=
  match schema.columnFor target.entity target.name with
  | .ok name => [name]
  | .error _ => []

/-- The names in an aggregate. -/
def aggregateNames (schema : Schema) (a : Aggregate) : List String :=
  a.target.toList.flatMap (columnNames schema) ++ a.shownAs.toList

/-- The names in an attribute that is shown. -/
def targetNames (schema : Schema) (target : AttributeRef) : List String :=
  columnNames schema target ++ target.shownAs.toList

/-- The names in what a select shows. -/
def shownNames (schema : Schema) (q : Select) : List String :=
  if q.aggregates.isEmpty then q.projection.flatMap (targetNames schema)
  else q.aggregates.flatMap (aggregateNames schema)

/-- The name of a table and its alias. -/
def sourceNames (schema : Schema) (source : EntityRef) : List String :=
  (schema.table? source.name).toList.map (·.table) ++ source.shownAs.toList

/-- The tables, columns and aliases that stand in the statement of a select. -/
def usedNames (schema : Schema) (q : Select) : List String :=
  match q.source? with
  | none => []
  | some source =>
    shownNames schema q ++ sourceNames schema source ++
      q.filters.flatMap (fun filter => columnNames schema filter.target) ++
      q.groupBy.flatMap (columnNames schema) ++
      q.sorts.flatMap fun sort => columnNames schema sort.target

/-- The strings that stand in the statement of a select. -/
def usedStrings (q : Select) : List String :=
  match q.source? with
  | none => []
  | some _ => q.filters.flatMap filterStrings

/-- An entity for which the configuration sets no condition, no filters and no order. -/
structure Unruled (schema : Schema) (entity : String) : Prop where
  condition : ∀ table, schema.table? entity = some table → table.condition = none
  filters : schema.rules.defaultFilters.get? entity = none
  ordering : schema.rules.defaultOrdering.get? entity = none

/-! ### Columns, aliases and aggregates -/

theorem columnNames_eq {target : AttributeRef} {name : String}
    (h : schema.columnFor target.entity target.name = .ok name) :
    columnNames schema target = [name] := by
  rw [columnNames, h]

/-- A column stands in a statement as a name. -/
theorem shown_column {target : AttributeRef} {text : String}
    (h : column dialect schema target = .ok text)
    (hplain : ∀ name ∈ columnNames schema target, PlainName dialect name) :
    Shown dialect (columnNames schema target) text.toList := by
  obtain ⟨name, hname, rfl⟩ := column_ok h
  rw [columnNames_eq hname] at hplain ⊢
  exact (hplain name (by simp)).shown

theorem shown_withAlias {names : List String} {text : String} {shownAs : Option String}
    (h : Shown dialect names text.toList) (hplain : ∀ name ∈ shownAs, PlainName dialect name) :
    Shown dialect (names ++ shownAs.toList) (withAlias dialect text shownAs).toList := by
  cases shownAs with
  | none => simpa [withAlias] using h
  | some label =>
    have hlabel := (hplain label rfl).shown
    rw [withAlias, String.toList_append, String.toList_append, List.append_assoc]
    refine ⟨Item.between h.toPiece hlabel.toItem (by decide) fun _ => guards_of_isGuard (by decide),
      ?_⟩
    rw [writtenOut_between h.toPiece hlabel.toPiece (by decide)]
    exact h.untopped.append (by decide) _

/-- An attribute that is shown is its column and its alias. -/
theorem shown_target {target : AttributeRef} {text : String}
    (h : ∃ name, column dialect schema target = .ok name ∧
      text = withAlias dialect name target.shownAs)
    (hplain : ∀ name ∈ targetNames schema target, PlainName dialect name) :
    Shown dialect (targetNames schema target) text.toList := by
  obtain ⟨name, hcolumn, rfl⟩ := h
  exact shown_withAlias
    (shown_column hcolumn fun name hname => hplain name (List.mem_append_left _ hname))
    fun name hname => hplain name (List.mem_append_right _ (Option.mem_toList.2 hname))

/-- An aggregate begins with the name of its function and a parenthesis. -/
theorem isFront_aggregateFront (function : Aggregation) (target : Option AttributeRef) :
    isFront (aggregateFront function target).toList = true ∧
      ∃ c ∈ (aggregateFront function target).toList.head?,
        isBlank c = false ∧ fold c ≠ 'd' ∧ fold c ≠ 't' := by
  have hall : ∀ front ∈ ["COUNT(DISTINCT ", "COUNT(", "SUM(", "AVG(", "MAX(", "MIN("],
      isFront front.toList = true ∧
        ∃ c ∈ front.toList.head?, isBlank c = false ∧ fold c ≠ 'd' ∧ fold c ≠ 't' := by decide
  refine hall _ ?_
  cases function <;> cases target <;> simp [aggregateFront, Aggregation.keyword]

theorem shown_aggregate {a : Aggregate} {text : String} (h : aggregate dialect schema a = .ok text)
    (hplain : ∀ name ∈ aggregateNames schema a, PlainName dialect name) :
    Shown dialect (aggregateNames schema a) text.toList := by
  obtain ⟨arg, harg, rfl⟩ := aggregate_ok h
  have hpiece : Piece dialect (a.target.toList.flatMap (columnNames schema)) [] arg.toList := by
    rcases harg with ⟨hnone, rfl⟩ | ⟨target, htarget, hcolumn⟩
    · rw [hnone]
      exact (fixed_of_isFixed (by decide)).piece
    · have hnames : a.target.toList.flatMap (columnNames schema) = columnNames schema target := by
        simp [htarget]
      rw [hnames]
      exact (shown_column hcolumn fun name hname =>
        hplain name (List.mem_append_left _ (by rwa [hnames]))).toPiece
  have hcall : Shown dialect (a.target.toList.flatMap (columnNames schema))
      (aggregateFront a.function a.target ++ arg ++ ")").toList := by
    obtain ⟨hfront, c, hc, hhead⟩ := isFront_aggregateFront a.function a.target
    have hbefore := hpiece.before (@back_of_isBack ")".toList (by decide))
    rw [String.toList_append, String.toList_append, List.append_assoc]
    refine ⟨.enclosed hpiece hfront (by decide) (by decide), untopped_of_head ⟨c, ?_, hhead⟩⟩
    rw [(front_of_isFront hfront).writtenOut_append hbefore, List.head?_append, Option.mem_def.1 hc]
    rfl
  exact shown_withAlias hcall fun name hname =>
    hplain name (List.mem_append_right _ (Option.mem_toList.2 hname))

/-- What a select shows begins with no limit. -/
theorem shown_projection {shown : String} (h : projection dialect schema q = .ok shown)
    (hplain : ∀ name ∈ shownNames schema q, PlainName dialect name) :
    Shown dialect (shownNames schema q) shown.toList := by
  have hcomma : isSeparator ", ".toList = true ∧ isGuard ", ".toList = true ∧
      isStop ", ".toList = true := by decide
  rw [shownNames] at hplain ⊢
  rcases projection_ok h with ⟨hne, texts, rfl, htexts⟩ | ⟨hempty, hne, texts, rfl, htexts⟩ |
    ⟨hempty, hnone, rfl⟩
  · rw [if_neg (by simpa using hne)] at hplain ⊢
    refine Shown.list (forall₂_of_imp htexts fun a ha text htext => ?_) hne hcomma.1
      (guards_of_isGuard hcomma.2.1) hcomma.2.2
    exact shown_aggregate htext fun name hname => hplain name (List.mem_flatMap.2 ⟨a, ha, hname⟩)
  · rw [if_pos (by simp [hempty])] at hplain ⊢
    refine Shown.list (forall₂_of_imp htexts fun target htarget text htext => ?_) hne hcomma.1
      (guards_of_isGuard hcomma.2.1) hcomma.2.2
    exact shown_target htext fun name hname =>
      hplain name (List.mem_flatMap.2 ⟨target, htarget, hname⟩)
  · rw [if_pos (by simp [hempty]), hnone]
    refine ⟨item_word _ (by decide) (by decide) (by decide), untopped_of_head ?_⟩
    rw [writtenOut_of_quiet (fixed_of_isFixed (by decide)).quiet]
    decide

/-! ### Clauses -/

/-- A clause behind another one.  An empty clause leaves nothing. -/
def spaced (clause : String) : List Char :=
  if clause.isEmpty then [] else ' ' :: clause.toList

theorem spaced_append {keyword : String} (hne : keyword ≠ "") (text : String) :
    spaced (keyword ++ text) = (" " ++ keyword).toList ++ text.toList := by
  have hfull : (keyword ++ text).isEmpty = false := by
    rw [String.isEmpty_eq_false_iff, ne_eq, String.append_eq_empty_iff]
    exact fun h => hne h.1
  rw [spaced, hfull]
  simp

theorem toList_clauses {first : String} (hne : first ≠ "") (rest : List String) :
    (" ".intercalate ((first :: rest).filter (!·.isEmpty))).toList =
      first.toList ++ rest.flatMap spaced := by
  have hall : ∀ (first : String) (rest : List String), (" ".intercalate (first :: rest)).toList =
      first.toList ++ rest.flatMap fun clause => ' ' :: clause.toList := by
    intro first rest
    induction rest generalizing first with
    | nil => simp
    | cons next rest ih => rw [String.intercalate_cons_cons, String.toList_append, ih]; simp
  have hfirst : first.isEmpty = false := by simpa using hne
  rw [List.filter_cons_of_pos (by simp [hfirst]), hall]
  congr 1
  induction rest with
  | nil => rfl
  | cons next rest ih =>
    rw [List.filter_cons, List.flatMap_cons, spaced]
    cases hnext : next.isEmpty with
    | true => simpa [hnext] using ih
    | false => simpa [hnext] using ih

/-- The clauses of a statement behind `SELECT` that begin with `shown` and the table. -/
structure Body (dialect : Dialect) (shown : List Char) (names strings : List String)
    (text : List Char) : Prop extends Item dialect names strings text where
  begins : ∃ rest, writtenOut dialect text = writtenOut dialect shown ++ (" FROM ".toList ++ rest)

variable {shown text : List Char} {names strings : List String}

/-- A clause is a keyword and a list, or nothing. -/
theorem Item.clause {α : Type} {items : List α} {texts : List String}
    {itemNames itemStrings : α → List String} {keyword between : String}
    (h : Item dialect names strings text)
    (hitems : List.Forall₂ (fun item text =>
      Item dialect (itemNames item) (itemStrings item) text.toList) items texts)
    (hkeyword : isSeparator (" " ++ keyword).toList = true ∧
      isGuard (" " ++ keyword).toList = true ∧ keyword ≠ "")
    (hbetween : isSeparator between.toList = true ∧ isGuard between.toList = true) :
    Item dialect (names ++ items.flatMap itemNames) (strings ++ items.flatMap itemStrings)
      (text ++ spaced (if texts.isEmpty then "" else keyword ++ between.intercalate texts)) := by
  cases hitems with
  | nil => simpa [spaced] using h
  | cons hitem hmore =>
    have hlist := Item.list (.cons hitem hmore) (by simp) hbetween.1 (guards_of_isGuard hbetween.2)
    rw [List.isEmpty_cons, if_neg (by decide), spaced_append hkeyword.2.2]
    exact .between h.toPiece hlist hkeyword.1 fun _ => guards_of_isGuard hkeyword.2.1

/-- The clauses of a select whose entity has no rules of its own. -/
def ownClauses (dialect : Dialect) (source : EntityRef) (table : TableMapping)
    (filters groups sorts : List String) : List String :=
  ["FROM " ++ withAlias dialect (escapeIdentifier dialect table.table) source.shownAs,
   if filters.isEmpty then "" else "WHERE " ++ " AND ".intercalate filters,
   if groups.isEmpty then "" else "GROUP BY " ++ ", ".intercalate groups,
   if sorts.isEmpty then "" else "ORDER BY " ++ ", ".intercalate sorts]

/-- The limit of a select as it stands behind `SELECT`. -/
def topText (dialect : Dialect) (limit : Option Nat) : String :=
  match limit with
  | some n => if usesTop dialect then "TOP " ++ toString n ++ " " else ""
  | none => ""

/-- The limit of a select as it stands at the end of the statement. -/
def limitText (dialect : Dialect) (limit : Option Nat) : String :=
  match limit with
  | some n => if usesTop dialect then "" else "LIMIT " ++ toString n
  | none => ""

variable {table : TableMapping} {what : String} {filters groups sorts : List String} {sql : String}

theorem clauses_eq (htable : schema.table? source.name = some table)
    (hrules : Unruled schema source.name) :
    clauses dialect schema.rules q source table what filters groups sorts =
      ("SELECT " ++ topText dialect q.limit ++ what) ::
        (ownClauses dialect source table filters groups sorts ++ [limitText dialect q.limit]) := by
  have hcondition : tableCondition table = [] := by
    rw [tableCondition, hrules.condition table htable]
  have hfilters : defaultConditions dialect schema.rules source.name table = [] := by
    rw [defaultConditions, hrules.filters]
  have horder : defaultOrder dialect schema.rules source.name table = "" := by
    rw [defaultOrder, hrules.ordering]
  have hfrom : withAlias dialect ("FROM " ++ escapeIdentifier dialect table.table) source.shownAs =
      "FROM " ++ withAlias dialect (escapeIdentifier dialect table.table) source.shownAs := by
    cases source.shownAs with
    | none => rfl
    | some label => simp only [withAlias, String.append_assoc]
  simp only [clauses, ownClauses, topText, limitText, hcondition, hfilters, horder, hfrom,
    List.nil_append, ite_self, List.cons_append]
  cases sorts <;> rfl

theorem tableFor_eq (h : schema.tableFor source.name = .ok table) :
    schema.table? source.name = some table := by
  rw [Schema.tableFor] at h
  split at h
  · rename_i found hfound
    rw [hfound, Except.ok.inj h]
  · contradiction

theorem Rendering.filters_item (r : Rendering dialect schema q source sql)
    (hplain : ∀ name ∈ q.filters.flatMap fun filter => columnNames schema filter.target,
      PlainName dialect name) :
    List.Forall₂ (fun filter text =>
      Item dialect (columnNames schema filter.target) (filterStrings filter) text.toList)
      q.filters r.filters := by
  refine forall₂_of_imp r.filters_eq fun filter hfilter text htext => ?_
  obtain ⟨name, hcolumn, rfl⟩ := htext
  have hshown := shown_column hcolumn fun name hname =>
    hplain name (List.mem_flatMap.2 ⟨filter, hfilter, hname⟩)
  exact item_condition hshown.toPiece filter

theorem Rendering.groups_item (r : Rendering dialect schema q source sql)
    (hplain : ∀ name ∈ q.groupBy.flatMap (columnNames schema), PlainName dialect name) :
    List.Forall₂ (fun target text => Item dialect (columnNames schema target) [] text.toList)
      q.groupBy r.groups :=
  forall₂_of_imp r.groups_eq fun target htarget _ hcolumn =>
    (shown_column hcolumn fun name hname =>
      hplain name (List.mem_flatMap.2 ⟨target, htarget, hname⟩)).toItem

theorem Rendering.sorts_item (r : Rendering dialect schema q source sql)
    (hplain : ∀ name ∈ q.sorts.flatMap fun sort => columnNames schema sort.target,
      PlainName dialect name) :
    List.Forall₂ (fun sort text => Item dialect (columnNames schema sort.target) [] text.toList)
      q.sorts r.sorts := by
  refine forall₂_of_imp r.sorts_eq fun sort hsort text htext => ?_
  obtain ⟨name, hcolumn, rfl⟩ := htext
  have hshown := shown_column hcolumn fun name hname =>
    hplain name (List.mem_flatMap.2 ⟨sort, hsort, hname⟩)
  have hdirection : isBack (" " ++ sort.direction.keyword).toList = true ∧
      ∃ c ∈ (" " ++ sort.direction.keyword).toList.getLast?,
        isBlank c = false ∧ c ≠ ';' ∧ isDecimalDigit c = false := by
    cases sort.direction <;> decide
  rw [String.append_assoc, String.toList_append]
  exact hshown.toPiece.item_before (back_of_isBack hdirection.1) hdirection.2

/-- The names in what comes behind the things that a select shows. -/
def clauseNames (schema : Schema) (q : Select) (source : EntityRef) : List String :=
  sourceNames schema source ++ q.filters.flatMap (fun filter => columnNames schema filter.target) ++
    q.groupBy.flatMap (columnNames schema) ++
    q.sorts.flatMap fun sort => columnNames schema sort.target

theorem usedNames_eq (hsource : q.source? = some source) :
    usedNames schema q = shownNames schema q ++ clauseNames schema q source := by
  simp [usedNames, hsource, clauseNames]

/-- Behind what a select shows stands `FROM` and an item. -/
theorem Rendering.clauses_item (r : Rendering dialect schema q source sql)
    (hplain : ∀ name ∈ clauseNames schema q source, PlainName dialect name) :
    ∃ text, (ownClauses dialect source r.table r.filters r.groups r.sorts).flatMap spaced =
        " FROM ".toList ++ text ∧
      Item dialect (clauseNames schema q source) (q.filters.flatMap filterStrings) text := by
  have hnames : clauseNames schema q source = (r.table.table :: source.shownAs.toList) ++
      q.filters.flatMap (fun filter => columnNames schema filter.target) ++
        q.groupBy.flatMap (columnNames schema) ++
        q.sorts.flatMap fun sort => columnNames schema sort.target := by
    simp [clauseNames, sourceNames, tableFor_eq r.table_eq]
  rw [hnames] at hplain ⊢
  simp only [List.forall_mem_append, List.forall_mem_cons] at hplain
  obtain ⟨⟨⟨⟨htable, halias⟩, hfilters⟩, hgroups⟩, hsorts⟩ := hplain
  have hfrom := @shown_withAlias _ [r.table.table] _ source.shownAs htable.shown
    fun name hname => halias name (Option.mem_toList.2 hname)
  have hwhere := @Item.clause _ _ _ _ _ _ _ _ _ "WHERE " " AND " hfrom.toItem
    (r.filters_item hfilters) (by decide) (by decide)
  have hgroup := @Item.clause _ _ _ _ _ _ _ _ (fun _ => []) "GROUP BY " ", " hwhere
    (r.groups_item hgroups) (by decide) (by decide)
  have horder := @Item.clause _ _ _ _ _ _ _ _ (fun _ => []) "ORDER BY " ", " hgroup
    (r.sorts_item hsorts) (by decide) (by decide)
  have hstrings : [] ++ q.filters.flatMap filterStrings ++ q.groupBy.flatMap (fun _ => []) ++
      q.sorts.flatMap (fun _ => []) = q.filters.flatMap filterStrings := by simp
  rw [hstrings] at horder
  refine ⟨_, ?_, horder⟩
  simp only [ownClauses, List.flatMap_cons, List.flatMap_nil, List.append_nil, List.append_assoc]
  rw [@spaced_append "FROM " (by decide), List.append_assoc]
  rfl

/-- The clauses of a select behind its limit, with the names and strings that stand in them. -/
theorem Rendering.body (r : Rendering dialect schema q source sql)
    (hsource : q.source? = some source)
    (hplain : ∀ name ∈ usedNames schema q, PlainName dialect name) :
    Body dialect r.shown.toList (usedNames schema q) (usedStrings q)
      (r.shown.toList ++
        (ownClauses dialect source r.table r.filters r.groups r.sorts).flatMap spaced) := by
  have hstrings : usedStrings q = [] ++ q.filters.flatMap filterStrings := by
    simp [usedStrings, hsource]
  rw [usedNames_eq hsource] at hplain ⊢
  obtain ⟨hshownPlain, hclauses⟩ := List.forall_mem_append.1 hplain
  have hshown := shown_projection r.shown_eq hshownPlain
  obtain ⟨text, htext, hitem⟩ := r.clauses_item hclauses
  rw [htext, hstrings]
  exact ⟨.between hshown.toPiece hitem (by decide) fun _ => guards_of_isGuard (by decide),
    _, writtenOut_between hshown.toPiece hitem.toPiece (by decide)⟩

/-! ### Limits -/

/-- Whether `c` can stand in a limit behind `SELECT`. -/
def isTopChar (c : Char) : Bool :=
  c.isDigit || ['T', 'O', 'P', ' '].contains c

theorem isTopChar_toUpper {c : Char} (h : isTopChar c = true) : isTopChar c.toUpper = true := by
  rw [isTopChar, Bool.or_eq_true] at h
  rcases h with hdigit | hmem
  · rw [toUpper_of_isDigit hdigit, isTopChar, hdigit]
    rfl
  · have hall : ∀ d ∈ ['T', 'O', 'P', ' '], isTopChar d.toUpper = true := by decide
    exact hall c (by simpa using hmem)

/-- `TOP` and a number spell no word of a date rule, alone or together. -/
theorem fixed_of_topChars (h : ∀ c ∈ text, isTopChar c = true) : Fixed text := by
  have hne : ∀ {d : Char}, isTopChar d = false → ∀ c ∈ text, c ≠ d := by
    rintro d hd c hc rfl
    simp [h c hc] at hd
  have hquote : ∀ c ∈ text, c ≠ '\'' := hne (by decide)
  refine ⟨quiet_of_forall (insideLiteral_of_not_mem fun c hc => beq_eq_false_iff_ne.2 (hquote c hc))
    fun word hword => ⟨?_, ?_⟩, calm_of_forall fun c hc => ?_, fun hmem => hquote _ hmem rfl⟩
  · exact clockKeyword?_of_not_mem fun hmem => @hne '_' (by decide) _ (hword _ hmem) rfl
  · exact ofName?_of_forall (by decide) fun c hc => isTopChar_toUpper (h c (hword c hc))
  · exact ⟨hne (by decide) c hc, hne (by decide) c hc, hquote c hc⟩

theorem top_chars (n : Nat) : ∀ c ∈ ("TOP " ++ toString n ++ " ").toList, isTopChar c = true := by
  have hrepr : (toString n).toList = Nat.toDigits 10 n := Nat.toList_repr
  have hword : ∀ c ∈ "TOP ".toList, isTopChar c = true := by decide
  intro c hc
  simp only [String.toList_append, hrepr, List.mem_append] at hc
  rcases hc with (hc | hc) | hc
  · exact hword c hc
  · rw [isTopChar, Numeric.isDigit_of_mem_toDigits hc]
    rfl
  · obtain rfl := List.mem_singleton.1 hc
    decide

/-- A limit behind `SELECT` is fixed text that any piece may follow. -/
theorem front_top (n : Nat) : Front ("TOP " ++ toString n ++ " ").toList where
  toFixed := fixed_of_topChars (top_chars n)
  last := ⟨' ', by rw [String.toList_append, List.getLast?_append]; rfl, by decide⟩

/-- A number behind a limit is not the limit of `LIMIT`, as the limit ends with a digit. -/
theorem guards_top (n : Nat) : Guards ("TOP " ++ toString n ++ " ").toList := by
  have hrepr : (toString n).toList = Nat.toDigits 10 n := Nat.toList_repr
  obtain ⟨d, hd⟩ : ∃ d, (Nat.toDigits 10 n).getLast? = some d :=
    ⟨_, List.getLast?_eq_some_getLast Nat.toDigits_ne_nil⟩
  obtain ⟨front, hfront⟩ := List.getLast?_eq_some_iff.1 hd
  have hdigit : d.isDigit = true := Numeric.isDigit_of_mem_toDigits (List.mem_of_getLast? hd)
  have hfold : fold d ≠ 't' := by
    rw [fold_of_isDigit hdigit]
    rintro rfl
    exact absurd hdigit (by decide)
  have hrev : ("TOP " ++ toString n ++ " ").toList.reverse =
      ' ' :: d :: (front.reverse ++ "TOP ".toList.reverse) := by
    simp [hfront]
  refine guards_of_isGuard ?_
  have hblank : isBlank ' ' = true := by decide
  rw [isGuard, hrev]
  simp [hblank, differs, isBlank_of_isWordChar (isWordChar_of_isDigit hdigit), hfold]

/-- A body stays one item with its limit before it or behind it, wherever the dialect has it. -/
theorem Body.limited (h : Body dialect shown names strings text) (limit : Option Nat) :
    Item dialect names strings
        ((topText dialect limit).toList ++ (text ++ spaced (limitText dialect limit))) ∧
      (usesTop dialect = false → ∃ rest,
        writtenOut dialect
            ((topText dialect limit).toList ++ (text ++ spaced (limitText dialect limit))) =
          writtenOut dialect shown ++ (" FROM ".toList ++ rest)) := by
  cases limit with
  | none => simpa [topText, limitText, spaced] using ⟨h.toItem, fun _ => h.begins⟩
  | some n =>
    cases htop : usesTop dialect with
    | true =>
      have hitem := h.toItem.after (front_top n) fun _ => guards_top n
      simpa [topText, limitText, htop, spaced] using hitem
    | false =>
      have hnumber : Item dialect [] [] (toString n).toList := (Numeric.numberText_toString n).item
      have hlimit : (topText dialect (some n)).toList ++
          (text ++ spaced (limitText dialect (some n))) =
            text ++ (" LIMIT ".toList ++ (toString n).toList) := by
        simp only [topText, limitText, htop, Bool.false_eq_true, if_false]
        rw [spaced_append (by decide)]
        rfl
      have hitem := @Item.between _ _ _ _ _ _ _ " LIMIT ".toList h.toPiece hnumber (by decide)
        fun htrue => by simp [htop] at htrue
      obtain ⟨rest, hrest⟩ := h.begins
      rw [hlimit]
      refine ⟨by simpa using hitem, fun _ => ?_⟩
      rw [writtenOut_between h.toPiece hnumber.toPiece (by decide), hrest]
      exact ⟨_, by rw [List.append_assoc, List.append_assoc]⟩

/-- A select whose entity has no rules has its limit and its clauses behind `SELECT`. -/
theorem Rendering.sql_toList (r : Rendering dialect schema q source sql)
    (hrules : Unruled schema source.name) :
    sql.toList = "SELECT ".toList ++ ((topText dialect q.limit).toList ++
      (r.shown.toList ++
        (ownClauses dialect source r.table r.filters r.groups r.sorts).flatMap spaced ++
          spaced (limitText dialect q.limit))) := by
  have hne : "SELECT " ++ topText dialect q.limit ++ r.shown ≠ "" := by simp
  refine (congrArg String.toList r.sql_eq).trans ?_
  rw [clauses_eq (tableFor_eq r.table_eq) hrules, toList_clauses hne]
  simp

/-! ### Translation -/

/-- A statement that one pass takes to a text that stays is translated to that text. -/
theorem Piece.translate_eq {sql : String} {moved : List Char}
    (h : Piece dialect names strings sql.toList)
    (hmoved : RowLimit.rewrite dialect (writtenOut dialect sql.toList) = moved)
    (hstable : Stable dialect moved) (hlimit : RowLimit.rewrite dialect moved = moved) :
    translate dialect sql = String.ofList moved := by
  have hcalls := (h.stable.calls (operandText dialect
    (rewriteWithin dialect (8 * sql.toList.length + 63)))).rewriteWords_eq
  have hrewrite : Idiom.rewrite dialect sql.toList = writtenOut dialect sql.toList := by
    rw [Idiom.rewrite, depthFor, rewriteWithin, ← writtenOut, rewriteCalls, hcalls]
    exact h.stable.calm.rewriteIntervals_eq _
  have hfirst : translatePass dialect sql.toList = moved := by
    rw [translatePass, hrewrite, hmoved]
  have hsecond : translatePass dialect moved = moved := by
    rw [translatePass, hstable.rewrite_eq, hlimit]
  rw [translate, maxPasses, settle_of_step hfirst hsecond]

/-- A statement with no limit to move is translated by writing out its clock keywords. -/
theorem translate_of_item {sql : String} (h : Piece dialect names strings sql.toList)
    (hlimit : RowLimit.rewrite dialect (writtenOut dialect sql.toList) =
      writtenOut dialect sql.toList) :
    translate dialect sql = String.ofList (writtenOut dialect sql.toList) :=
  h.translate_eq hlimit h.stable hlimit

/-- The statement of a select whose entity has no rules holds its names and the strings of its
filters, and has its row limit where its dialect has it. -/
theorem Rendering.rewriteLimit_eq (r : Rendering dialect schema q source sql)
    (hsource : q.source? = some source)
    (hplain : ∀ name ∈ usedNames schema q, PlainName dialect name)
    (hrules : Unruled schema source.name) :
    Piece dialect (usedNames schema q) (usedStrings q) sql.toList ∧
      RowLimit.rewrite dialect (writtenOut dialect sql.toList) = writtenOut dialect sql.toList := by
  have hselect := @front_of_isFront "SELECT ".toList (by decide)
  have hshown : Shown dialect (shownNames schema q) r.shown.toList :=
    shown_projection r.shown_eq fun name hname => hplain name (by simp [usedNames, hsource, hname])
  obtain ⟨hitem, hbegins⟩ := (r.body hsource hplain).limited q.limit
  have hpiece := hitem.toPiece.after hselect
  have hout := hselect.writtenOut_append hitem.toPiece
  have hsql := r.sql_toList hrules
  rw [← hsql] at hpiece hout
  refine ⟨hpiece, ?_⟩
  have hlimit : usesTop dialect = false →
      toLimit (writtenOut dialect sql.toList) = writtenOut dialect sql.toList := by
    intro htop
    obtain ⟨rest, hrest⟩ := hbegins htop
    obtain ⟨x, hx⟩ := @stops_of_isStop " FROM ".toList (by decide) rest
    rw [hout, hrest, hshown.untopped _ x hx]
  cases dialect with
  | sqlite => exact hlimit rfl
  | mySql => exact hlimit rfl
  | sqlServer =>
    refine toTop_of_trailingLimit ?_
    rw [hout]
    exact hitem.unlimited rfl _ (guards_of_isGuard (by decide))

/-- Such a statement is translated by writing out the clock keywords in its names. -/
theorem Rendering.translate_eq (r : Rendering dialect schema q source sql)
    (hsource : q.source? = some source)
    (hplain : ∀ name ∈ usedNames schema q, PlainName dialect name)
    (hrules : Unruled schema source.name) :
    Piece dialect (usedNames schema q) (usedStrings q) sql.toList ∧
      translate dialect sql = String.ofList (writtenOut dialect sql.toList) := by
  obtain ⟨hpiece, hlimit⟩ := r.rewriteLimit_eq hsource hplain hrules
  exact ⟨hpiece, translate_of_item hpiece hlimit⟩

/-- A select without an entity has a statement that no rule changes. -/
theorem renderSelect_of_source {sql : String} (hsource : q.source? = none)
    (h : renderSelect dialect schema q = .ok sql) : sql = noEntities := by
  rw [renderSelect] at h
  simp only [hsource] at h
  exact (Except.ok.inj h).symm

/-- Where the names of a select need no quotes and the configuration adds nothing to its entity, all
that translation does to its statement is to write out the clock keywords among the words of the
names.  So the statement stays as it was rendered exactly when no name has such a word.  Whatever
the filters hold, the string literals of the statement are their strings. -/
theorem selectStatement_eq_iff {sql : String} (h : renderSelect dialect schema q = .ok sql)
    (hplain : ∀ name ∈ usedNames schema q, PlainName dialect name)
    (hrules : ∀ source, q.source? = some source → Unruled schema source.name) :
    selectStatement dialect schema q =
        .ok (String.ofList (rewriteClocks (renderClock dialect) sql.toList)) ∧
      (selectStatement dialect schema q = .ok sql ↔
        ∀ name ∈ usedNames schema q, hasClock name.toList = false) ∧
      stringsIn sql = usedStrings q := by
  have hstatement : selectStatement dialect schema q = .ok (translate dialect sql) := by
    rw [selectStatement, h]
    rfl
  have hpiece : Piece dialect (usedNames schema q) (usedStrings q) sql.toList ∧
      translate dialect sql = String.ofList (writtenOut dialect sql.toList) := by
    cases hsource : q.source? with
    | none =>
      obtain rfl := renderSelect_of_source hsource h
      have hfixed : Fixed noEntities.toList := fixed_of_isFixed (by decide)
      have hout : writtenOut dialect noEntities.toList = noEntities.toList :=
        writtenOut_of_quiet hfixed.quiet
      have hpiece : Piece dialect [] [] noEntities.toList := hfixed.piece
      refine ⟨by simpa [usedNames, usedStrings, hsource] using hpiece, translate_of_item hpiece ?_⟩
      rw [hout]
      cases dialect <;> decide
    | some source =>
      obtain ⟨r⟩ := rendering_of_renderSelect hsource h
      exact r.translate_eq hsource hplain (hrules source hsource)
  obtain ⟨hpiece, htranslate⟩ := hpiece
  rw [htranslate] at hstatement
  refine ⟨hstatement, ?_, hpiece.reads.stringsFrom_eq⟩
  have hsame : selectStatement dialect schema q = .ok sql ↔
      writtenOut dialect sql.toList = sql.toList := by
    rw [hstatement, Except.ok.injEq, ← String.toList_inj, String.toList_ofList]
  rw [hsame]
  refine ⟨fun hstays name hname => ?_, hpiece.idle⟩
  by_contra hclock
  have hlt := hpiece.count_lt ⟨name, hname, by simpa using hclock⟩
  rw [hstays] at hlt
  exact Nat.lt_irrefl _ hlt

/-! ### A depot -/

/-- Items in one table, of which one column has a clock keyword in its name. -/
def depot : TenantConfig where
  tenant := "depot"
  ontology :=
    { entities := .ofList
        [("item", ⟨"Item", ["items"], "",
          .ofList [("name", ⟨.string, ["item name"], true, none, false, none⟩),
            ("added", ⟨.date, ["added"], false, none, false, none⟩)]⟩)]
      relationships := .empty }
  functions := ⟨.ofList [("max", ⟨.max, ["highest"], .dynamic, ""⟩)], .empty, {}⟩
  datasource :=
    ⟨"depot", "sqlite", "depot.db",
     .ofList [("item", ⟨"Items", .ofList [("name", "Name"), ("added", "²CURRENT_DATE")], none⟩)],
     {}⟩
  mappings := ⟨"depot", {}, {}, .empty⟩

theorem depot_valid : depot.faults = [] := by decide +kernel

/-- The items with a clock keyword in their name. -/
def depotSelect : Select where
  entities := [⟨"item", none⟩]
  projection := [⟨"item", "added", none⟩]
  filters := [⟨⟨"item", "name", none⟩, .eq, .str "it's CURRENT_DATE", false⟩]

/-- The name of the column is written out, the string is not. -/
theorem selectStatement_depot :
    renderSelect .sqlite ⟨depot, depot_valid⟩ depotSelect =
        .ok "SELECT ²CURRENT_DATE FROM Items WHERE Name = 'it''s CURRENT_DATE'" ∧
      selectStatement .sqlite ⟨depot, depot_valid⟩ depotSelect =
        .ok "SELECT ²date('now') FROM Items WHERE Name = 'it''s CURRENT_DATE'" ∧
      stringsIn "SELECT ²CURRENT_DATE FROM Items WHERE Name = 'it''s CURRENT_DATE'" =
        ["it's CURRENT_DATE"] := by
  have hrender : renderSelect .sqlite ⟨depot, depot_valid⟩ depotSelect =
      .ok "SELECT ²CURRENT_DATE FROM Items WHERE Name = 'it''s CURRENT_DATE'" := by decide +kernel
  have hnames : usedNames ⟨depot, depot_valid⟩ depotSelect =
      ["²CURRENT_DATE", "Items", "Name"] := by
    decide +kernel
  have hplain : ∀ name ∈ ["²CURRENT_DATE", "Items", "Name"], PlainName .sqlite name := by
    decide +kernel
  have hrules : Unruled ⟨depot, depot_valid⟩ "item" := by
    refine ⟨fun table htable => ?_, rfl, rfl⟩
    obtain rfl := Option.some.inj htable
    rfl
  obtain ⟨hstatement, -, hstrings⟩ :=
    selectStatement_eq_iff hrender (by rwa [hnames]) fun source hsource => by
      obtain rfl := Option.some.inj hsource
      exact hrules
  refine ⟨hrender, hstatement.trans (by decide +kernel), hstrings⟩

end AskSql.Sql
