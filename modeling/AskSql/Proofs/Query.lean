import AskSql.Proofs.Distinct
import AskSql.Query

/-! What a select names, and what the operations that extend one do to that. -/

namespace AskSql

namespace Select

variable {q : Select} {target : AttributeRef} {a : Aggregate}

/-- The attributes whose columns a select shows. -/
def shownTargets (q : Select) : List AttributeRef :=
  if q.aggregates.isEmpty then q.projection else q.aggregates.filterMap (·.target)

/-- The attributes that the clauses of a select name. -/
def clauseTargets (q : Select) : List AttributeRef :=
  q.filters.map (·.target) ++ q.sorts.map (·.target) ++ q.groupBy

/-- The attributes whose columns stand in the statement of a select. -/
def rendered (q : Select) : List AttributeRef :=
  q.shownTargets ++ q.clauseTargets

/-- `after` differs from `before` in what it shows and in its limit alone. -/
structure Shows (before after : Select) : Prop where
  entities : after.entities = before.entities
  clauses : after.clauseTargets = before.clauseTargets

theorem Shows.refl (q : Select) : Shows q q := ⟨rfl, rfl⟩

theorem Shows.trans {q' q'' : Select} (h : Shows q q') (hnext : Shows q' q'') : Shows q q'' :=
  ⟨hnext.entities.trans h.entities, hnext.clauses.trans h.clauses⟩

/-- A select that names no attribute in its clauses has none. -/
theorem clauseTargets_eq_nil_iff :
    q.clauseTargets = [] ↔ q.filters = [] ∧ q.sorts = [] ∧ q.groupBy = [] := by
  simp [clauseTargets]

/-! ### Attributes -/

theorem shows_pushAttribute (q : Select) (target : AttributeRef) :
    Shows q (q.pushAttribute target) := by
  rw [pushAttribute]
  split <;> exact ⟨rfl, rfl⟩

theorem aggregates_pushAttribute (q : Select) (target : AttributeRef) :
    (q.pushAttribute target).aggregates = q.aggregates := by
  rw [pushAttribute]
  split <;> rfl

theorem aggregates_pushAttributes (q : Select) (targets : List AttributeRef) :
    (targets.foldl pushAttribute q).aggregates = q.aggregates := by
  induction targets generalizing q with
  | nil => rfl
  | cons target targets ih => exact (ih _).trans (aggregates_pushAttribute q target)

/-- A select without aggregates takes the attributes that are added to it, each once. -/
theorem projection_pushAttributes (h : q.aggregates = []) (targets : List AttributeRef) :
    (targets.foldl pushAttribute q).projection = targets.foldl pushNew q.projection := by
  induction targets generalizing q with
  | nil => rfl
  | cons target targets ih =>
    have hstep : (q.pushAttribute target).projection = pushNew q.projection target := by
      rw [pushAttribute, pushNew]
      cases q.projection.contains target <;> simp [h]
    rw [List.foldl_cons, List.foldl_cons, ih ((aggregates_pushAttribute q target).trans h), hstep]

theorem shows_pushAttributes (q : Select) (targets : List AttributeRef) :
    Shows q (targets.foldl pushAttribute q) := by
  induction targets generalizing q with
  | nil => exact .refl q
  | cons target targets ih => exact (shows_pushAttribute q target).trans (ih _)

/-- A select without aggregates shows each attribute that is added to it. -/
theorem mem_shownTargets_pushAttributes {targets : List AttributeRef} (h : q.aggregates = []) :
    target ∈ (targets.foldl pushAttribute q).shownTargets ↔
    target ∈ q.projection ∨ target ∈ targets := by
  rw [shownTargets, aggregates_pushAttributes, h, projection_pushAttributes h]
  exact mem_foldl_pushNew

/-! ### Aggregates -/

theorem shows_pushAggregates (q : Select) (aggregates : List Aggregate) :
    Shows q (aggregates.foldl pushAggregate q) := by
  induction aggregates generalizing q with
  | nil => exact .refl q
  | cons a aggregates ih => exact (show Shows q (q.pushAggregate a) from ⟨rfl, rfl⟩).trans (ih _)

theorem aggregates_pushAggregates (q : Select) (aggregates : List Aggregate) :
    (aggregates.foldl pushAggregate q).aggregates = aggregates.foldl pushNew q.aggregates := by
  induction aggregates generalizing q with
  | nil => rfl
  | cons a aggregates ih => exact ih _

theorem projection_pushAggregates {aggregates : List Aggregate} (h : q.projection = []) :
    (aggregates.foldl pushAggregate q).projection = [] := by
  induction aggregates generalizing q with
  | nil => exact h
  | cons a aggregates ih => exact ih rfl

theorem shows_setAggregates (q : Select) (aggregates : List Aggregate) :
    Shows q (q.setAggregates aggregates) := by
  have hclear : Shows q { q with aggregates := [] } := ⟨rfl, rfl⟩
  exact hclear.trans (shows_pushAggregates _ aggregates)

/-- New aggregates take the place of the old ones, each once. -/
theorem aggregates_setAggregates (q : Select) (aggregates : List Aggregate) :
    (q.setAggregates aggregates).aggregates = aggregates.eraseDups := by
  rw [setAggregates, aggregates_pushAggregates, foldl_pushNew_nil]

/-- A select with new aggregates shows the attributes that they range over. -/
theorem mem_shownTargets_setAggregates {aggregates : List Aggregate} (h : q.projection = []) :
    target ∈ (q.setAggregates aggregates).shownTargets ↔
    ∃ a ∈ aggregates, a.target = some target := by
  have hmem : ∀ a, a ∈ (q.setAggregates aggregates).aggregates ↔ a ∈ aggregates := by
    intro a
    rw [aggregates_setAggregates, List.mem_eraseDups]
  have hprojection : (q.setAggregates aggregates).projection = [] := projection_pushAggregates h
  rw [shownTargets]
  split
  · rename_i hempty
    rw [List.isEmpty_iff] at hempty
    have hnone : ∀ a, a ∉ aggregates := by simpa [hempty] using hmem
    simp [hprojection, hnone]
  · simp [List.mem_filterMap, hmem]

end Select

end AskSql
