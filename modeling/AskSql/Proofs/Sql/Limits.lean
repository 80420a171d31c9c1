import AskSql.Proofs.Sql.Keyword
import AskSql.Proofs.Sql.Shared

/-! The row limit of a select in two dialects.  Translation takes the `LIMIT` at the end of a
statement to where SQL Server has its `TOP`, and back.  What stands behind `SELECT` decides whether
it gets there: a column whose name reads as `TOP` takes the place of the limit, and one that reads
as `DISTINCT` goes before it. -/

namespace AskSql

open Text Idiom RowLimit Sql

variable {dialect : Dialect}

namespace Sql

variable {schema : Schema} {q : Select} {source : EntityRef} {sql : String}

/-! ### What stands behind `SELECT` -/

/-- A text keeps its first character, unless a clock keyword stands there. -/
theorem head?_writtenOut {text : List Char} (h : clockKeyword? (word text).1 = none) :
    (writtenOut dialect text).head? = text.head? := by
  cases text with
  | nil => rfl
  | cons c cs =>
    have hnone : rewriteClockAt? (renderClock dialect) (c :: cs) = none := by
      simp [rewriteClockAt?, clockAt?, h]
    show (rewriteWordsFrom _ none false 0 (c :: cs)).head? = some c
    rw [rewriteWordsFrom_pass (Or.inr (Or.inr hnone))]
    rfl

/-- An aggregate begins with the name of its function, which is no keyword. -/
theorem head_aggregateFront (function : Aggregation) (target : Option AttributeRef)
    (rest : List Char) :
    ∃ c ∈ (writtenOut dialect ((aggregateFront function target).toList ++ rest)).head?,
      isBlank c = false ∧ c ≠ ')' ∧ fold c ≠ 'd' ∧ fold c ≠ 't' := by
  have hall : ∀ front ∈ ["COUNT(DISTINCT ", "COUNT(", "SUM(", "AVG(", "MAX(", "MIN("],
      ((front.toList.takeWhile isWordChar).length ≠ front.toList.length ∧
        clockKeyword? (front.toList.takeWhile isWordChar) = none) ∧
      ∃ c ∈ front.toList.head?, isBlank c = false ∧ c ≠ ')' ∧ fold c ≠ 'd' ∧ fold c ≠ 't' := by
    decide
  have hmem : aggregateFront function target ∈
      ["COUNT(DISTINCT ", "COUNT(", "SUM(", "AVG(", "MAX(", "MIN("] := by
    cases function <;> cases target <;> simp [aggregateFront, Aggregation.keyword]
  obtain ⟨⟨hlength, hclock⟩, c, hc, hhead⟩ := hall _ hmem
  refine ⟨c, ?_, hhead⟩
  rw [head?_writtenOut, List.head?_append, Option.mem_def.1 hc]
  · rfl
  · rw [word, List.takeWhile_append, if_neg hlength]
    exact hclock

theorem toList_intercalate_cons (sep text : String) (texts : List String) :
    ∃ rest, (sep.intercalate (text :: texts)).toList = text.toList ++ rest := by
  cases texts with
  | nil => exact ⟨[], by simp⟩
  | cons next texts =>
    rw [String.intercalate_cons_cons, String.toList_append, String.toList_append, List.append_assoc]
    exact ⟨_, rfl⟩

theorem toList_withAlias (text : String) (shownAs : Option String) :
    ∃ rest, (withAlias dialect text shownAs).toList = text.toList ++ rest := by
  cases shownAs with
  | none => exact ⟨[], by simp [withAlias]⟩
  | some label =>
    rw [withAlias, String.toList_append, String.toList_append, List.append_assoc]
    exact ⟨_, rfl⟩

/-- What stands behind `SELECT` and the limit. -/
def Rendering.shownClauses (r : Rendering dialect schema q source sql) : List Char :=
  r.shown.toList ++ (ownClauses dialect source r.table r.filters r.groups r.sorts).flatMap spaced

/-- An aggregate or a star reads as no keyword. -/
theorem Rendering.head_of_aggregates (r : Rendering dialect schema q source sql)
    (h : q.aggregates ≠ [] ∨ q.projection = []) :
    ∃ c ∈ (writtenOut dialect r.shownClauses).head?,
      isBlank c = false ∧ c ≠ ')' ∧ fold c ≠ 'd' ∧ fold c ≠ 't' := by
  rw [shownClauses]
  rcases projection_ok r.shown_eq with ⟨hne, texts, hshown, htexts⟩ | ⟨hempty, hne, -⟩ |
    ⟨-, -, hstar⟩
  · obtain ⟨a, aggregates, haggregates⟩ := List.exists_cons_of_ne_nil hne
    rw [haggregates] at htexts
    cases htexts with
    | @cons _ text _ texts ha =>
      obtain ⟨arg, -, rfl⟩ := aggregate_ok ha
      obtain ⟨more, hmore⟩ := toList_intercalate_cons ", " (withAlias dialect
        (aggregateFront a.function a.target ++ arg ++ ")") a.shownAs) texts
      obtain ⟨label, hlabel⟩ := @toList_withAlias dialect
        (aggregateFront a.function a.target ++ arg ++ ")") a.shownAs
      rw [hshown, hmore, hlabel, String.toList_append, String.toList_append]
      simp only [List.append_assoc]
      exact head_aggregateFront _ _ _
  · exact absurd hempty (h.resolve_right hne)
  · rw [hstar]
    refine ⟨'*', ?_, by decide⟩
    have hword : ∀ rest, (word ("*".toList ++ rest)).1 = [] := fun rest => by
      simp [word, (by decide : isWordChar '*' = false)]
    rw [head?_writtenOut]
    · rfl
    · rw [hword]
      rfl

theorem toList_intercalate_append (sep front text : String) (texts : List String) :
    (sep.intercalate ((front ++ text) :: texts)).toList =
      front.toList ++ (sep.intercalate (text :: texts)).toList := by
  cases texts with
  | nil => simp
  | cons next texts =>
    simp only [String.intercalate_cons_cons, String.toList_append, List.append_assoc]

/-- The first name that is shown, what comes between it and the rest, and the rest. -/
structure FirstName (dialect : Dialect) (body : List Char) (name : String) (sep rest : List Char) :
    Prop where
  plain : PlainName dialect name
  body_eq : body = name.toList ++ (sep ++ rest)
  rest_item : ∃ names strings, Item dialect names strings rest

theorem FirstName.intro {name : String} {body sep rest : List Char} {names strings : List String}
    (hname : PlainName dialect name)
    (hbody : body = (escapeIdentifier dialect name).toList ++ (sep ++ rest))
    (hitem : Item dialect names strings rest) : FirstName dialect body name sep rest where
  plain := hname
  body_eq := by rw [hbody, hname.escape_eq]
  rest_item := ⟨names, strings, hitem⟩

/-- A select that aggregates nothing shows the column of its first attribute first.  An alias, a
comma or the table comes behind it. -/
theorem Rendering.firstName (r : Rendering dialect schema q source sql)
    (hsource : q.source? = some source)
    (hplain : ∀ name ∈ usedNames schema q, PlainName dialect name) (hempty : q.aggregates = [])
    {first : AttributeRef} {more : List AttributeRef} (hfirst : q.projection = first :: more) :
    ∃ name sep rest, columnNames schema first = [name] ∧
      FirstName dialect r.shownClauses name sep rest ∧
      ((first.shownAs.isSome || more.isEmpty) = false ∧ sep = ", ".toList ∨
        (first.shownAs.isSome || more.isEmpty) = true ∧
          (sep = " AS ".toList ∨ sep = " FROM ".toList)) := by
  rw [usedNames_eq hsource] at hplain
  obtain ⟨hshownPlain, hclausesPlain⟩ := List.forall_mem_append.1 hplain
  obtain ⟨clauses, hclauses, hitem⟩ := r.clauses_item hclausesPlain
  rw [shownNames, hempty, hfirst, List.isEmpty_nil, if_pos rfl, List.flatMap_cons,
    List.forall_mem_append] at hshownPlain
  obtain ⟨hfirstPlain, hmorePlain⟩ := hshownPlain
  have hfrom : isSeparator " FROM ".toList = true ∧ Guards " FROM ".toList :=
    ⟨by decide, guards_of_isGuard (by decide)⟩
  have hcomma : isSeparator ", ".toList = true ∧ Guards ", ".toList :=
    ⟨by decide, guards_of_isGuard (by decide)⟩
  rcases projection_ok r.shown_eq with ⟨hne, -⟩ | ⟨-, -, texts, hshown, htexts⟩ | ⟨-, hnone, -⟩
  · exact absurd hempty hne
  · rw [hfirst] at htexts
    cases htexts with
    | @cons _ text _ texts htext hmore =>
      obtain ⟨column, hcolumn, rfl⟩ := htext
      obtain ⟨name, hname, rfl⟩ := column_ok hcolumn
      have hnames := columnNames_eq hname
      have hnamePlain : PlainName dialect name :=
        hfirstPlain name (List.mem_append_left _ (by simp [hnames]))
      have hitems : List.Forall₂ (fun target text =>
          Item dialect (targetNames schema target) [] text.toList) more texts :=
        forall₂_of_imp hmore fun target htarget text htext => (shown_target htext fun name hname =>
          hmorePlain name (List.mem_flatMap.2 ⟨target, htarget, hname⟩)).toItem
      rw [shownClauses, hclauses, hshown]
      cases hshownAs : first.shownAs with
      | some label =>
        have hlabel : PlainName dialect label :=
          hfirstPlain label (List.mem_append_right _ (by simp [hshownAs]))
        have hlist := @Item.cons _ _ _ _ _ _ _ (fun _ => []) _ _ hlabel.shown.toItem hitems
          hcomma.1 hcomma.2
        refine ⟨name, " AS ".toList, _, hnames,
          .intro hnamePlain ?_ (.between hlist.toPiece hitem hfrom.1 fun _ => hfrom.2),
          Or.inr ⟨rfl, Or.inl rfl⟩⟩
        rw [withAlias, toList_intercalate_append, String.toList_append]
        simp only [List.append_assoc]
      | none =>
        cases hitems with
        | nil =>
          refine ⟨name, " FROM ".toList, clauses, hnames, .intro hnamePlain ?_ hitem,
            Or.inr ⟨rfl, Or.inr rfl⟩⟩
          rw [withAlias, String.intercalate_singleton]
        | @cons _ text _ texts hnext hrest =>
          have hlist := @Item.list _ _ _ _ _ (fun _ => []) ", " (.cons hnext hrest) (by simp)
            hcomma.1 hcomma.2
          refine ⟨name, ", ".toList, _, hnames,
            .intro hnamePlain ?_ (.between hlist.toPiece hitem hfrom.1 fun _ => hfrom.2),
            Or.inl ⟨rfl, rfl⟩⟩
          rw [withAlias, String.intercalate_cons_cons, String.toList_append, String.toList_append]
          simp only [List.append_assoc]
  · rw [hfirst] at hnone
    cases hnone

section
variable {body sep rest : List Char} {name : String}

theorem FirstName.writtenOut_eq (h : FirstName dialect body name sep rest)
    (hsep : isSeparator sep = true) :
    writtenOut dialect body =
      writtenOut dialect name.toList ++ (sep ++ writtenOut dialect rest) := by
  obtain ⟨names, strings, hitem⟩ := h.rest_item
  have hname := h.plain.shown.toPiece
  rw [h.plain.escape_eq] at hname
  rw [h.body_eq, writtenOut_between hname hitem.toPiece hsep]

/-- A body that begins with a column whose name reads as `DISTINCT`, and white space behind it. -/
structure DistinctName (dialect : Dialect) (body : List Char) (name : String) (rest : List Char) :
    Prop where
  plain : PlainName dialect name
  reads : readsAsDistinct name.toList = true
  rest_item : ∃ names strings, Item dialect names strings rest
  writtenOut_eq : writtenOut dialect body = name.toList ++ (' ' :: writtenOut dialect rest)
  head : ∃ c ∈ (writtenOut dialect rest).head?, isBlank c = false ∧ fold c ≠ 't'

theorem FirstName.distinctName (h : FirstName dialect body name sep rest)
    (hsep : sep = " AS ".toList ∨ sep = " FROM ".toList)
    (hreads : readsAsDistinct name.toList = true) :
    ∃ rest, DistinctName dialect body name rest := by
  obtain ⟨names, strings, hitem⟩ := h.rest_item
  have hname : writtenOut dialect name.toList = name.toList :=
    h.plain.exists_writesOut.eq_of_not_busy (hasClock_of_readsAsDistinct hreads)
  have hfront : ∀ front, isFront front = true → isGuard front = true →
      (∃ c ∈ front.head?, isBlank c = false ∧ fold c ≠ 't') → sep = ' ' :: front →
      isSeparator sep = true → DistinctName dialect body name (front ++ rest) := by
    intro front hfront hguard hhead heq hsep
    have hout : writtenOut dialect (front ++ rest) = front ++ writtenOut dialect rest :=
      (front_of_isFront hfront).writtenOut_append hitem.toPiece
    refine ⟨h.plain, hreads, ⟨names, strings, ?_⟩, ?_, ?_⟩
    · exact hitem.after (front_of_isFront hfront) fun _ => guards_of_isGuard hguard
    · rw [h.writtenOut_eq hsep, hname, heq, hout]
      rfl
    · obtain ⟨c, hc, hink⟩ := hhead
      exact ⟨c, by rw [hout, List.head?_append, Option.mem_def.1 hc]; rfl, hink⟩
  rcases hsep with rfl | rfl
  · exact ⟨_, hfront "AS ".toList (by decide) (by decide) (by decide) rfl (by decide)⟩
  · exact ⟨_, hfront "FROM ".toList (by decide) (by decide) (by decide) rfl (by decide)⟩

/-- Behind a name no keyword goes on. -/
theorem FirstName.stops (h : FirstName dialect body name sep rest)
    (hsep : sep ∈ [", ".toList, " AS ".toList, " FROM ".toList]) :
    isSeparator sep = true ∧ ∃ x, Stops (sep ++ writtenOut dialect rest) x ∧ isWordChar x = false ∧
      (sep = ", ".toList → isBlank x = false) := by
  have hall : ∀ sep ∈ [", ".toList, " AS ".toList, " FROM ".toList], isSeparator sep = true ∧
      isStop sep = true ∧ ∀ x ∈ sep.head?, isWordChar x = false ∧
        (sep = ", ".toList → isBlank x = false) := by decide
  obtain ⟨hseparator, hstop, hhead⟩ := hall sep hsep
  obtain ⟨x, hx⟩ := stops_of_isStop hstop (writtenOut dialect rest)
  refine ⟨hseparator, x, hx, hhead x ?_⟩
  cases sep with
  | nil => cases hstop
  | cons c cs => exact hx.head

end

/-- Whether a select shows first a column whose name reads as a keyword: as `TOP`, or as `DISTINCT`
with white space behind it. -/
def showsKeyword (schema : Schema) (q : Select) : Bool :=
  q.aggregates.isEmpty &&
    match q.projection with
    | [] => false
    | first :: more => (columnNames schema first).any fun name =>
        readsAsTop name.toList ||
          readsAsDistinct name.toList && (first.shownAs.isSome || more.isEmpty)

/-- What stands behind `SELECT` and the limit begins visibly, and reads as a keyword exactly if the
name of the first column does. -/
theorem Rendering.front_cases (r : Rendering dialect schema q source sql)
    (hsource : q.source? = some source)
    (hplain : ∀ name ∈ usedNames schema q, PlainName dialect name) :
    (∃ c ∈ (writtenOut dialect r.shownClauses).head?, isBlank c = false ∧ c ≠ ')') ∧
      (distinct (writtenOut dialect r.shownClauses) = ([], writtenOut dialect r.shownClauses) ∧
          readsAsTop (writtenOut dialect r.shownClauses) = showsKeyword schema q ∨
        showsKeyword schema q = true ∧
          ∃ name rest, DistinctName dialect r.shownClauses name rest) := by
  by_cases hfixed : q.aggregates ≠ [] ∨ q.projection = []
  · obtain ⟨c, hc, hblank, hclose, hd, ht⟩ := r.head_of_aggregates hfixed
    refine ⟨⟨c, hc, hblank, hclose⟩, Or.inl ?_⟩
    obtain ⟨cs, hcs⟩ := List.head?_eq_some_iff.1 hc
    have hshows : showsKeyword schema q = false := by
      rcases hfixed with hne | hnil
      · simp [showsKeyword, hne]
      · simp [showsKeyword, hnil]
    rw [hcs, hshows]
    refine ⟨distinct_of_keyword (keyword?_cons_eq_none rfl hd), ?_⟩
    rw [readsAsTop, keyword?_cons_eq_none rfl ht]
    rfl
  · rw [not_or, not_not] at hfixed
    obtain ⟨hempty, hne⟩ := hfixed
    obtain ⟨first, more, hfirst⟩ := List.exists_cons_of_ne_nil hne
    obtain ⟨name, sep, rest, hnames, hname, hsep⟩ := r.firstName hsource hplain hempty hfirst
    have hout := hname.plain.exists_writesOut
    have hshows : showsKeyword schema q = (readsAsTop name.toList ||
        readsAsDistinct name.toList && (first.shownAs.isSome || more.isEmpty)) := by
      simp [showsKeyword, hempty, hfirst, hnames]
    have hmem : sep ∈ [", ".toList, " AS ".toList, " FROM ".toList] := by
      rcases hsep with ⟨-, rfl⟩ | ⟨-, rfl | rfl⟩ <;> simp
    obtain ⟨hseparator, x, hstops, hword, hcomma⟩ := hname.stops hmem
    have hwritten := hname.writtenOut_eq hseparator
    refine ⟨?_, ?_⟩
    · obtain ⟨c, hc, hink⟩ := hout.head hname.plain.ne_nil
      exact ⟨c, by rw [hwritten, List.head?_append, Option.mem_def.1 hc]; rfl, hink⟩
    · cases hdistinct : readsAsDistinct name.toList &&
          (first.shownAs.isSome || more.isEmpty) with
      | true =>
        rw [Bool.and_eq_true] at hdistinct
        rcases hsep with ⟨hno, -⟩ | ⟨-, hsep⟩
        · rw [hno] at hdistinct
          cases hdistinct.2
        · refine Or.inr ⟨by rw [hshows, hdistinct.1, hdistinct.2]; simp, name, ?_⟩
          exact hname.distinctName hsep hdistinct.1
      | false =>
        rw [hdistinct, Bool.or_false] at hshows
        refine Or.inl ⟨?_, ?_⟩
        · rw [hwritten]
          refine hout.distinct_eq hname.plain.ne_nil hstops ?_
          rw [Bool.and_eq_false_iff] at hdistinct
          refine hdistinct.imp_right fun hno => ?_
          rcases hsep with ⟨-, hsep⟩ | ⟨hyes, -⟩
          · exact hcomma hsep
          · rw [hno] at hyes
            cases hyes
        · rw [hwritten, hshows, hout.readsAsTop_eq hname.plain.ne_nil hstops hword]

/-! ### Limits that move -/

theorem isDecimalDigit_toString (n : Nat) : ∀ c ∈ (toString n).toList, isDecimalDigit c = true := by
  have hrepr : (toString n).toList = Nat.toDigits 10 n := Nat.toList_repr
  intro c hc
  rw [hrepr] at hc
  exact isDecimalDigit_of_isDigit (Numeric.isDigit_of_mem_toDigits hc)

theorem toString_ne_nil (n : Nat) : (toString n).toList ≠ [] :=
  (Numeric.numberText_toString n).ne_nil

theorem top_append (n : Nat) (text : List Char) :
    ("TOP " ++ toString n ++ " ").toList ++ text =
      "TOP ".toList ++ ((toString n).toList ++ ([' '] ++ text)) := by
  rw [String.toList_append, String.toList_append, List.append_assoc, List.append_assoc]
  rfl

section
variable {n : Nat} (r : Rendering dialect schema q source sql) (hrules : Unruled schema source.name)
include hrules

theorem Rendering.toList_of_limit_none (hlimit : q.limit = none) :
    sql.toList = "SELECT ".toList ++ r.shownClauses := by
  rw [r.sql_toList hrules, hlimit, shownClauses]
  simp [topText, limitText, spaced]

theorem Rendering.toList_of_top (htop : usesTop dialect = true) (hlimit : q.limit = some n) :
    sql.toList = "SELECT ".toList ++ (("TOP " ++ toString n ++ " ").toList ++ r.shownClauses) := by
  rw [r.sql_toList hrules, hlimit, shownClauses]
  simp [topText, limitText, htop, spaced]

theorem Rendering.toList_of_limit (htop : usesTop dialect = false) (hlimit : q.limit = some n) :
    sql.toList =
      "SELECT ".toList ++ (r.shownClauses ++ (" LIMIT ".toList ++ (toString n).toList)) := by
  rw [r.sql_toList hrules, hlimit, shownClauses]
  simp only [topText, limitText, htop, Bool.false_eq_true, if_false]
  rw [spaced_append (by decide)]
  rfl

end

section
variable {names strings : List String} {body : List Char} (h : Piece dialect names strings body)
  (n : Nat)
include h

theorem Piece.withTop :
    Piece dialect names strings
        ("SELECT ".toList ++ (("TOP " ++ toString n ++ " ").toList ++ body)) ∧
      writtenOut dialect ("SELECT ".toList ++ (("TOP " ++ toString n ++ " ").toList ++ body)) =
        "SELECT ".toList ++ (("TOP " ++ toString n ++ " ").toList ++ writtenOut dialect body) := by
  have hselect := @front_of_isFront "SELECT ".toList (by decide)
  have htop := h.after (front_top n)
  refine ⟨htop.after hselect, ?_⟩
  rw [hselect.writtenOut_append htop, (front_top n).writtenOut_append h]

theorem Piece.withLimit :
    Piece dialect names strings
        ("SELECT ".toList ++ (body ++ (" LIMIT ".toList ++ (toString n).toList))) ∧
      writtenOut dialect ("SELECT ".toList ++ (body ++ (" LIMIT ".toList ++ (toString n).toList))) =
        "SELECT ".toList ++
          (writtenOut dialect body ++ (" LIMIT ".toList ++ (toString n).toList)) := by
  have hselect := @front_of_isFront "SELECT ".toList (by decide)
  have hnumber : Piece dialect [] [] (toString n).toList :=
    (Numeric.numberText_toString n).item.toPiece
  have hlimit := h.between hnumber (by decide : isSeparator " LIMIT ".toList = true)
  rw [List.append_nil, List.append_nil] at hlimit
  refine ⟨hlimit.after hselect, ?_⟩
  rw [hselect.writtenOut_append hlimit, writtenOut_between h hnumber (by decide),
    hnumber.idle (by simp)]

end

theorem Rendering.item (r : Rendering dialect schema q source sql)
    (hsource : q.source? = some source)
    (hplain : ∀ name ∈ usedNames schema q, PlainName dialect name) :
    Item dialect (usedNames schema q) (usedStrings q) r.shownClauses :=
  (r.body hsource hplain).toItem

theorem Rendering.ended_writtenOut (r : Rendering dialect schema q source sql)
    (hsource : q.source? = some source)
    (hplain : ∀ name ∈ usedNames schema q, PlainName dialect name) :
    Ended (writtenOut dialect r.shownClauses) := by
  rw [usedNames_eq hsource] at hplain
  exact Sql.ended_writtenOut (r.ended (List.forall_mem_append.1 hplain).2 r.shown.toList)

theorem Rendering.eq_of_limit_none {r : Rendering dialect schema q source sql} {top : String}
    {s : Rendering .sqlServer schema q source top} (hsame : s.shownClauses = r.shownClauses)
    (hrules : Unruled schema source.name) (hlimit : q.limit = none) : top = sql :=
  String.toList_inj.1 <| by
    rw [s.toList_of_limit_none hrules hlimit, r.toList_of_limit_none hrules hlimit, hsame]

/-- Where the limit stands behind `SELECT`, translation takes it to the end. -/
theorem Rendering.translate_top (r : Rendering dialect schema q source sql) {top : String}
    (s : Rendering .sqlServer schema q source top) (hsame : s.shownClauses = r.shownClauses)
    (hlow : usesTop dialect = false) (hsource : q.source? = some source)
    (hplain : ∀ name ∈ usedNames schema q, PlainName dialect name)
    (hrules : Unruled schema source.name) : translate dialect top = translate dialect sql := by
  cases hlimit : q.limit with
  | none => rw [Rendering.eq_of_limit_none hsame hrules hlimit]
  | some n =>
    have hbody := (r.item hsource hplain).toPiece
    obtain ⟨hpiece, htop⟩ := hbody.withTop n
    obtain ⟨-, hsql⟩ := hbody.withLimit n
    rw [← hsame, ← s.toList_of_top hrules rfl hlimit] at hpiece htop
    rw [hsame] at htop
    rw [← r.toList_of_limit hrules hlow hlimit] at hsql
    have hmoved : RowLimit.rewrite dialect (writtenOut dialect top.toList) =
        writtenOut dialect sql.toList := by
      have hlimitRule : ∀ text, RowLimit.rewrite dialect text = toLimit text := by
        cases dialect with
        | sqlServer => cases hlow
        | sqlite | mySql => exact fun _ => rfl
      rw [hlimitRule, htop, hsql, top_append]
      exact toLimit_top_of_ink (toString_ne_nil n) (isDecimalDigit_toString n)
        (r.front_cases hsource hplain).1 (r.ended_writtenOut hsource hplain)
    obtain ⟨hfixed, hlast⟩ := r.rewriteLimit_eq hsource hplain hrules
    rw [hpiece.translate_eq hmoved hfixed.stable hlast, (r.translate_eq hsource hplain hrules).2]

/-! ### Limits that SQL Server takes to the front -/

/-- A limit behind a name that reads as `DISTINCT` stays there. -/
theorem DistinctName.topped {body rest : List Char} {name : String}
    (h : DistinctName .sqlServer body name rest) (n : Nat) :
    let moved := "SELECT ".toList ++ (name.toList ++ (' ' ::
      (("TOP " ++ toString n ++ " ").toList ++ writtenOut .sqlServer rest)))
    Stable .sqlServer moved ∧ trailingLimit? moved = none := by
  obtain ⟨names, strings, hitem⟩ := h.rest_item
  have hname := h.plain.shown.toPiece
  have hsame : writtenOut .sqlServer name.toList = name.toList :=
    h.plain.exists_writesOut.eq_of_not_busy (hasClock_of_readsAsDistinct h.reads)
  rw [h.plain.escape_eq] at hname
  have hspace := @front_of_isFront [' '] (by decide)
  have hselect := @front_of_isFront "SELECT ".toList (by decide)
  have hfront := hitem.toPiece.after (front_top n)
  have hout : writtenOut .sqlServer ([' '] ++ (("TOP " ++ toString n ++ " ").toList ++ rest)) =
      [' '] ++ (("TOP " ++ toString n ++ " ").toList ++ writtenOut .sqlServer rest) := by
    rw [hspace.writtenOut_append hfront, (front_top n).writtenOut_append hitem.toPiece]
  have hjoin : ∀ back,
      Joins name.toList ([' '] ++ (("TOP " ++ toString n ++ " ").toList ++ back)) := fun back =>
    joins_of_head ⟨' ', rfl, by decide⟩
      ⟨'T', by rw [top_append]; rfl, by decide⟩
  have hpiece := hname.append (hfront.after hspace) (hjoin rest)
    (by rw [hsame, hout]; exact hjoin _) nofun
  constructor
  · have hstable := (hpiece.after hselect).stable
    rwa [hselect.writtenOut_append hpiece,
      writtenOut_append hname (hfront.after hspace) (hjoin rest), hsame, hout] at hstable
  · have hnone := hitem.unlimited rfl _
      ((guards_top n).prepend ("SELECT ".toList ++ (name.toList ++ [' '])))
    simpa only [List.append_assoc, List.cons_append, List.nil_append] using hnone

section
variable {r : Rendering dialect schema q source sql} {top : String}
  {s : Rendering .sqlServer schema q source top} {n : Nat}
  (hsame : s.shownClauses = r.shownClauses) (hlow : usesTop dialect = false)
  (hlimit : q.limit = some n) (hsource : q.source? = some source)
  (hplain : ∀ name ∈ usedNames schema q, PlainName .sqlServer name)
  (hrules : Unruled schema source.name)
include hlimit hsource hplain hrules

/-- Where SQL Server has the limit, it stays. -/
theorem Rendering.translate_of_top :
    translate .sqlServer top = String.ofList ("SELECT ".toList ++
      (("TOP " ++ toString n ++ " ").toList ++ writtenOut .sqlServer s.shownClauses)) := by
  obtain ⟨-, hout⟩ := (s.item hsource hplain).toPiece.withTop n
  rw [(s.translate_eq hsource hplain hrules).2, s.toList_of_top hrules rfl hlimit, hout]

include hsame hlow

/-- What SQL Server reads before a limit at the end. -/
theorem Rendering.trailingLimit?_eq :
    Piece .sqlServer (usedNames schema q) (usedStrings q) sql.toList ∧
      trailingLimit? (writtenOut .sqlServer sql.toList) =
        some ("SELECT ".toList ++ writtenOut .sqlServer s.shownClauses, (toString n).toList) := by
  obtain ⟨hpiece, hout⟩ := (s.item hsource hplain).toPiece.withLimit n
  rw [hsame, ← r.toList_of_limit hrules hlow hlimit] at hpiece hout
  refine ⟨hpiece, ?_⟩
  rw [hout, ← hsame, ← List.append_assoc]
  obtain ⟨c, hc, hblank, -⟩ := s.ended_writtenOut hsource hplain
  refine trailingLimit?_append (toString_ne_nil n) (isDecimalDigit_toString n) ⟨c, ?_, hblank⟩
  rw [List.getLast?_append, Option.mem_def.1 hc]
  rfl

/-- The limit is dropped where what stands behind `SELECT` reads as `TOP`. -/
theorem Rendering.translate_of_readsAsTop
    (hdistinct : distinct (writtenOut .sqlServer s.shownClauses) =
      ([], writtenOut .sqlServer s.shownClauses))
    (htop : readsAsTop (writtenOut .sqlServer s.shownClauses) = true) :
    translate .sqlServer sql =
      String.ofList ("SELECT ".toList ++ writtenOut .sqlServer s.shownClauses) := by
  obtain ⟨hpiece, htrailing⟩ := Rendering.trailingLimit?_eq hsame hlow hlimit hsource hplain hrules
  have hselect := @front_of_isFront "SELECT ".toList (by decide)
  have hbody := s.item hsource hplain
  obtain ⟨c, hc, hblank, -⟩ := (s.front_cases hsource hplain).1
  refine hpiece.translate_eq (toTop_of_hasTop htrailing ?_) ?_ ?_
  · rw [hasTop_select ⟨c, hc, hblank⟩, hdistinct, htop]
  · have hstable := (hbody.toPiece.after hselect).stable
    rwa [hselect.writtenOut_append hbody.toPiece] at hstable
  · exact toTop_of_trailingLimit (hbody.unlimited rfl _ (guards_of_isGuard (by decide)))

/-- The limit gets to where SQL Server has it if no keyword stands behind `SELECT`. -/
theorem Rendering.translate_limit
    (hdistinct : distinct (writtenOut .sqlServer s.shownClauses) =
      ([], writtenOut .sqlServer s.shownClauses))
    (htop : readsAsTop (writtenOut .sqlServer s.shownClauses) = false) :
    translate .sqlServer sql = translate .sqlServer top := by
  obtain ⟨hpiece, htrailing⟩ := Rendering.trailingLimit?_eq hsame hlow hlimit hsource hplain hrules
  obtain ⟨c, hc, hblank, -⟩ := (s.front_cases hsource hplain).1
  have hmove := toTop_of_distinct ⟨c, hc, hblank⟩ hdistinct htop htrailing
  obtain ⟨-, hout⟩ := (s.item hsource hplain).toPiece.withTop n
  rw [List.nil_append, ← top_append, ← hout, ← s.toList_of_top hrules rfl hlimit] at hmove
  obtain ⟨hfixed, hlast⟩ := s.rewriteLimit_eq hsource hplain hrules
  rw [hpiece.translate_eq hmove hfixed.stable hlast, (s.translate_eq hsource hplain hrules).2]

/-- The limit gets behind a name that reads as `DISTINCT`. -/
theorem Rendering.translate_of_distinctName {name : String} {rest : List Char}
    (h : DistinctName .sqlServer s.shownClauses name rest) :
    translate .sqlServer sql = String.ofList ("SELECT ".toList ++ (name.toList ++ (' ' ::
      (("TOP " ++ toString n ++ " ").toList ++ writtenOut .sqlServer rest)))) := by
  obtain ⟨hpiece, htrailing⟩ := Rendering.trailingLimit?_eq hsame hlow hlimit hsource hplain hrules
  obtain ⟨c, hc, hblank, -⟩ := (s.front_cases hsource hplain).1
  obtain ⟨d, hd, hdblank, hfold⟩ := h.head
  have hdistinct : distinct (writtenOut .sqlServer s.shownClauses) =
      (name.toList ++ [' '], writtenOut .sqlServer rest) := by
    rw [h.writtenOut_eq]
    refine distinct_append h.reads fun e he => ?_
    rwa [Option.mem_unique he hd]
  have htop : readsAsTop (writtenOut .sqlServer rest) = false := by
    obtain ⟨ds, hds⟩ := List.head?_eq_some_iff.1 hd
    rw [hds, readsAsTop, keyword?_cons_eq_none rfl hfold]
    rfl
  have hmove := toTop_of_distinct ⟨c, hc, hblank⟩ hdistinct htop htrailing
  rw [← top_append, List.append_assoc, List.singleton_append] at hmove
  obtain ⟨hstable, hlast⟩ := h.topped n
  exact hpiece.translate_eq hmove hstable (toTop_of_trailingLimit hlast)

/-- The limit gets to where SQL Server has it exactly if no keyword stands behind `SELECT`. -/
theorem Rendering.translate_limit_iff :
    translate .sqlServer sql = translate .sqlServer top ↔ showsKeyword schema q = false := by
  have htop := @Rendering.translate_of_top _ _ _ _ s _ hlimit hsource hplain hrules
  rcases (s.front_cases hsource hplain).2 with ⟨hdistinct, hreads⟩ | ⟨hshows, name, rest, hname⟩
  · cases hshows : showsKeyword schema q with
    | false =>
      rw [hshows] at hreads
      exact iff_of_true
        (Rendering.translate_limit hsame hlow hlimit hsource hplain hrules hdistinct hreads) rfl
    | true =>
      rw [hshows] at hreads
      refine iff_of_false (fun heq => ?_) Bool.noConfusion
      rw [Rendering.translate_of_readsAsTop hsame hlow hlimit hsource hplain hrules hdistinct
        hreads, htop, String.ofList_inj, List.append_cancel_left_eq,
        List.self_eq_append_left] at heq
      simp at heq
  · rw [hshows]
    refine iff_of_false (fun heq => ?_) Bool.noConfusion
    rw [Rendering.translate_of_distinctName hsame hlow hlimit hsource hplain hrules hname, htop,
      String.ofList_inj, List.append_cancel_left_eq,
      top_append n (writtenOut .sqlServer s.shownClauses)] at heq
    -- The name begins as `DISTINCT` does, which `TOP` does not.
    have hfold : name.toList.map fold = "distinct".toList := by
      simpa [readsAsDistinct] using hname.reads
    obtain ⟨c, cs, hcs, hc, -⟩ := List.map_eq_cons_iff.1 hfold
    rw [hcs] at heq
    rw [(List.cons.inj heq).1] at hc
    exact absurd hc (by decide)

end

/-! ### The limit in two dialects -/

/-- Whether SQL Server misplaces the row limit of a select when it comes at the end. -/
def misplacesLimit (schema : Schema) (q : Select) : Bool :=
  q.source?.isSome && q.limit.isSome && showsKeyword schema q

theorem Rendering.translate_eq_self_iff (r : Rendering dialect schema q source sql)
    (hsource : q.source? = some source)
    (hplain : ∀ name ∈ usedNames schema q, PlainName dialect name)
    (hrules : Unruled schema source.name) :
    translate dialect sql = sql ↔ ∀ name ∈ usedNames schema q, hasClock name.toList = false := by
  obtain ⟨hpiece, htranslate⟩ := r.translate_eq hsource hplain hrules
  rw [htranslate, ← String.toList_inj, String.toList_ofList]
  refine ⟨fun hstays name hname => ?_, hpiece.idle⟩
  by_contra hclock
  have hlt := hpiece.count_lt ⟨name, hname, by simpa using hclock⟩
  rw [hstays] at hlt
  exact Nat.lt_irrefl _ hlt

theorem Rendering.translate_same_iff (r : Rendering dialect schema q source sql) {top : String}
    (s : Rendering .sqlServer schema q source top) (hsame : s.shownClauses = r.shownClauses)
    (hlow : usesTop dialect = false) (hsource : q.source? = some source)
    (hplain : ∀ name ∈ usedNames schema q, PlainName .sqlServer name)
    (hrules : Unruled schema source.name) :
    translate .sqlServer sql = translate .sqlServer top ↔ misplacesLimit schema q = false := by
  cases hlimit : q.limit with
  | none =>
    simp [Rendering.eq_of_limit_none hsame hrules hlimit, misplacesLimit, hlimit]
  | some n =>
    rw [Rendering.translate_limit_iff hsame hlow hlimit hsource hplain hrules]
    simp [misplacesLimit, hsource, hlimit]

/-- The same parts leave the same behind `SELECT` in two dialects. -/
theorem Parts.shownClauses_same {p : Parts} (hd : parts .sqlServer schema q source = .ok p)
    (he : parts dialect schema q source = .ok p) (h : AlwaysPlain (sourceNames schema source)) :
    (Parts.rendering hd).shownClauses = (Parts.rendering he).shownClauses :=
  congrArg (fun clauses => p.shown.toList ++ clauses.flatMap spaced) <|
    ownClauses_same (tableFor_eq (parts_ok hd).1) h p.filters p.groups p.sorts

theorem translate_noEntities : translate dialect noEntities = noEntities := by
  cases dialect <;> decide +kernel

/-- Where no name needs quotes, no value is a truth value and the configuration adds nothing, a
select has a statement in a dialect with `LIMIT` exactly if it has one in SQL Server.  The dialect
translates both to the same statement, which is its own exactly if no name has a clock keyword among
its words. SQL Server translates both to the same statement exactly if it does not misplace the
limit, and without clock keywords that statement is its own. -/
theorem translate_statement_iff (hlow : usesTop dialect = false)
    (hplain : AlwaysPlain (usedNames schema q))
    (hbool : ∀ filter ∈ q.filters, filter.value.hasBool = false)
    (hrules : ∀ source, q.source? = some source → Unruled schema source.name) :
    (∃ fault, renderSelect dialect schema q = .error fault ∧
        renderSelect .sqlServer schema q = .error fault) ∨
      ∃ sql top, renderSelect dialect schema q = .ok sql ∧
        renderSelect .sqlServer schema q = .ok top ∧
        translate dialect top = translate dialect sql ∧
        (translate dialect top = sql ↔ ∀ name ∈ usedNames schema q, hasClock name.toList = false) ∧
        (translate .sqlServer sql = translate .sqlServer top ↔ misplacesLimit schema q = false) ∧
        ((∀ name ∈ usedNames schema q, hasClock name.toList = false) →
          (translate .sqlServer sql = top ↔ misplacesLimit schema q = false)) := by
  cases hsource : q.source? with
  | none =>
    have hrender : ∀ dialect, renderSelect dialect schema q = .ok noEntities := by
      intro dialect
      rw [renderSelect]
      simp only [hsource]
      rfl
    have hnames : usedNames schema q = [] := by simp only [usedNames, hsource]
    have hmisplaces : misplacesLimit schema q = false := by simp [misplacesLimit, hsource]
    refine Or.inr ⟨noEntities, noEntities, hrender _, hrender _, rfl, ?_, ?_, ?_⟩
    all_goals simp [translate_noEntities, hnames, hmisplaces]
  | some source =>
    have hrules := hrules source hsource
    have hparts := parts_same (d := .sqlServer) (e := dialect) hsource hplain hbool
    rw [renderSelect_eq_map_parts hsource, renderSelect_eq_map_parts hsource, hparts]
    cases hp : parts dialect schema q source with
    | error fault => exact Or.inl ⟨fault, rfl, rfl⟩
    | ok p =>
      rw [hp] at hparts
      let r := Parts.rendering hp
      let s := Parts.rendering hparts
      have hsourceNames : AlwaysPlain (sourceNames schema source) := hplain.mono <| by
        intro name hname
        simp [usedNames, hsource, hname]
      have hsame : s.shownClauses = r.shownClauses :=
        Parts.shownClauses_same hparts hp hsourceNames
      have htop := r.translate_top s hsame hlow hsource (hplain dialect) hrules
      have hlimit := r.translate_same_iff s hsame hlow hsource (hplain .sqlServer) hrules
      refine Or.inr ⟨_, _, rfl, rfl, htop, ?_, hlimit, fun hclock => ?_⟩
      · rw [htop, r.translate_eq_self_iff hsource (hplain dialect) hrules]
      · rw [← hlimit, (s.translate_eq_self_iff hsource (hplain .sqlServer) hrules).2 hclock]

/-! ### A column that reads as `TOP` -/

/-- The depot with a column whose name reads as `TOP`. -/
def halfDepot : TenantConfig :=
  { depot with
    datasource :=
      { depot.datasource with
        tables := .ofList
          [("item", ⟨"Items", .ofList [("name", "Name"), ("added", "TOP½")], none⟩)] } }

theorem halfDepot_valid : halfDepot.faults = [] := by decide +kernel

/-- Five values of an attribute of the items. -/
def fiveItems (attr : String) : Select where
  entities := [⟨"item", none⟩]
  projection := [⟨"item", attr, none⟩]
  limit := some 5

theorem halfDepot_unruled (attr : String) (source : EntityRef)
    (hsource : (fiveItems attr).source? = some source) :
    Unruled ⟨halfDepot, halfDepot_valid⟩ source.name := by
  obtain rfl := Option.some.inj hsource
  refine ⟨fun table htable => ?_, rfl, rfl⟩
  obtain rfl := Option.some.inj htable
  rfl

/-- The limit of five names gets there and back, that of five halves is misplaced. -/
theorem translate_halfDepot :
    (translate .sqlite "SELECT TOP 5 Name FROM Items" = "SELECT Name FROM Items LIMIT 5" ∧
        translate .sqlServer "SELECT Name FROM Items LIMIT 5" = "SELECT TOP 5 Name FROM Items") ∧
      translate .sqlite "SELECT TOP 5 TOP½ FROM Items" =
        translate .sqlite "SELECT TOP½ FROM Items LIMIT 5" ∧
      translate .sqlServer "SELECT TOP½ FROM Items LIMIT 5" ≠
        translate .sqlServer "SELECT TOP 5 TOP½ FROM Items" := by
  have hplain : ∀ attr ∈ ["name", "added"],
      AlwaysPlain (usedNames ⟨halfDepot, halfDepot_valid⟩ (fiveItems attr)) := by
    have hnames : ∀ dialect, ∀ attr ∈ ["name", "added"],
        ∀ name ∈ usedNames ⟨halfDepot, halfDepot_valid⟩ (fiveItems attr),
          PlainName dialect name := by
      intro dialect
      cases dialect <;> decide +kernel
    exact fun attr hattr dialect => hnames dialect attr hattr
  have hrender : ∀ dialect, renderSelect dialect ⟨halfDepot, halfDepot_valid⟩ (fiveItems "name") =
        .ok (if usesTop dialect then "SELECT TOP 5 Name FROM Items"
          else "SELECT Name FROM Items LIMIT 5") ∧
      renderSelect dialect ⟨halfDepot, halfDepot_valid⟩ (fiveItems "added") =
        .ok (if usesTop dialect then "SELECT TOP 5 TOP½ FROM Items"
          else "SELECT TOP½ FROM Items LIMIT 5") := by
    intro dialect
    cases dialect <;> decide +kernel
  refine ⟨?_, ?_⟩
  · rcases @translate_statement_iff .sqlite _ _ rfl (hplain "name" (by simp)) nofun
      (halfDepot_unruled "name") with ⟨fault, hfault, -⟩ |
        ⟨sql, top, hsql, htop, -, hback, -, hfront⟩
    · rw [(hrender .sqlite).1] at hfault
      cases hfault
    · rw [(hrender _).1] at hsql htop
      obtain rfl := Except.ok.inj hsql
      obtain rfl := Except.ok.inj htop
      have hclock : ∀ name ∈ usedNames ⟨halfDepot, halfDepot_valid⟩ (fiveItems "name"),
          hasClock name.toList = false := by decide +kernel
      exact ⟨hback.2 hclock, (hfront hclock).2 (by decide +kernel)⟩
  · rcases @translate_statement_iff .sqlite _ _ rfl (hplain "added" (by simp)) nofun
      (halfDepot_unruled "added") with ⟨fault, hfault, -⟩ |
        ⟨sql, top, hsql, htop, hsame, -, hlimit, -⟩
    · rw [(hrender .sqlite).2] at hfault
      cases hfault
    · rw [(hrender _).2] at hsql htop
      obtain rfl := Except.ok.inj hsql
      obtain rfl := Except.ok.inj htop
      refine ⟨hsame, fun heq => ?_⟩
      exact absurd (hlimit.1 heq) (by decide +kernel)

end Sql

end AskSql
