import AskSql.Proofs.Query

/-! Selects that are put together by edits: a fresh select over some entities, another attribute or
aggregate, new aggregates, or another limit.  Whatever the edits and their order, a select shows
either attributes or aggregates, each once, and its limit, if it has one, is not zero.  That is also
why a push that adds nothing changes nothing: adding an aggregate empties the projection, but a
select that has the aggregate already has no projection. -/

namespace AskSql.Select

/-- An operation that makes a select of another. -/
inductive Edit
  | new (entities : List EntityRef)
  | pushAttribute (target : AttributeRef)
  | pushAggregate (aggregate : Aggregate)
  | setAggregates (aggregates : List Aggregate)
  | setLimit (limit : Option Nat)
deriving Repr, DecidableEq

/-- The select after an edit. -/
def edit (q : Select) : Edit → Select
  | .new entities => { entities }
  | .pushAttribute target => q.pushAttribute target
  | .pushAggregate aggregate => q.pushAggregate aggregate
  | .setAggregates aggregates => q.setAggregates aggregates
  | .setLimit limit => q.setLimit limit

/-- The select that edits make of the empty one. -/
def edited (edits : List Edit) : Select :=
  edits.foldl edit .empty

/-- What every edit keeps. -/
structure Coherent (q : Select) : Prop where
  exclusive : q.aggregates ≠ [] → q.projection = []
  projection : q.projection.Nodup
  aggregates : q.aggregates.Nodup
  limit : ∀ n ∈ q.limit, 0 < n

variable {q : Select} {target : AttributeRef} {a : Aggregate}

theorem coherent_empty : Coherent .empty :=
  ⟨fun _ => rfl, List.nodup_nil, List.nodup_nil, nofun⟩

/-! ### One edit -/

/-- An attribute goes to the end of the projection, unless the select aggregates or shows it. -/
theorem pushAttribute_eq (q : Select) (target : AttributeRef) :
    q.pushAttribute target =
      if q.aggregates ≠ [] ∨ target ∈ q.projection then q
      else { q with projection := q.projection ++ [target] } := by
  rw [pushAttribute]
  by_cases haggregates : q.aggregates = [] <;> by_cases hmem : target ∈ q.projection <;>
    simp [haggregates, hmem]

/-- An aggregate that is there already only empties the projection. -/
theorem pushAggregate_of_mem (h : a ∈ q.aggregates) :
    q.pushAggregate a = { q with projection := [] } := by
  simp [pushAggregate, h]

theorem pushAggregate_of_not_mem (h : a ∉ q.aggregates) :
    q.pushAggregate a = { q with projection := [], aggregates := q.aggregates ++ [a] } := by
  simp [pushAggregate, h]

theorem Coherent.pushAttribute (h : q.Coherent) (target : AttributeRef) :
    (q.pushAttribute target).Coherent := by
  rw [pushAttribute_eq]
  split
  · exact h
  · rename_i hnew
    obtain ⟨haggregates, hmem⟩ := not_or.1 hnew
    refine ⟨fun hne => absurd hne haggregates, ?_, h.aggregates, h.limit⟩
    show (q.projection ++ [target]).Nodup
    rw [← List.concat_eq_append]
    exact h.projection.concat hmem

theorem Coherent.pushAggregate (h : q.Coherent) (a : Aggregate) : (q.pushAggregate a).Coherent := by
  by_cases hmem : a ∈ q.aggregates
  · rw [pushAggregate_of_mem hmem]
    exact ⟨fun _ => rfl, List.nodup_nil, h.aggregates, h.limit⟩
  · rw [pushAggregate_of_not_mem hmem]
    refine ⟨fun _ => rfl, List.nodup_nil, ?_, h.limit⟩
    show (q.aggregates ++ [a]).Nodup
    rw [← List.concat_eq_append]
    exact h.aggregates.concat hmem

theorem Coherent.pushAggregates (h : q.Coherent) (aggregates : List Aggregate) :
    (aggregates.foldl Select.pushAggregate q).Coherent := by
  induction aggregates generalizing q with
  | nil => exact h
  | cons a aggregates ih => exact ih (h.pushAggregate a)

/-- A select without aggregates may show any attributes. -/
theorem Coherent.setAggregates (h : q.Coherent) (aggregates : List Aggregate) :
    (q.setAggregates aggregates).Coherent := by
  have hcleared : Coherent { q with aggregates := [] } :=
    ⟨fun hne => absurd rfl hne, h.projection, List.nodup_nil, h.limit⟩
  exact hcleared.pushAggregates aggregates

theorem Coherent.setLimit (h : q.Coherent) (limit : Option Nat) : (q.setLimit limit).Coherent := by
  refine ⟨h.exclusive, h.projection, h.aggregates, fun n hn => ?_⟩
  obtain ⟨-, hpositive⟩ := Option.filter_eq_some_iff.1 hn
  exact of_decide_eq_true hpositive

theorem Coherent.edit (h : q.Coherent) (change : Edit) : (q.edit change).Coherent := by
  cases change with
  | new entities => exact ⟨fun _ => rfl, List.nodup_nil, List.nodup_nil, nofun⟩
  | pushAttribute target => exact h.pushAttribute target
  | pushAggregate a => exact h.pushAggregate a
  | setAggregates aggregates => exact h.setAggregates aggregates
  | setLimit limit => exact h.setLimit limit

/-! ### Every run -/

theorem Coherent.foldl_edit (h : q.Coherent) (edits : List Edit) :
    (edits.foldl Select.edit q).Coherent := by
  induction edits generalizing q with
  | nil => exact h
  | cons change edits ih => exact ih (h.edit change)

/-- The attributes of a select stay as they are exactly if it aggregates or shows the attribute. -/
theorem projection_pushAttribute_eq_iff :
    (q.pushAttribute target).projection = q.projection ↔
    q.aggregates ≠ [] ∨ target ∈ q.projection := by
  rw [pushAttribute_eq]
  split
  · rename_i h
    exact iff_of_true rfl h
  · rename_i h
    exact iff_of_false (by simp) h

/-- The aggregates of a select stay as they are exactly if it has the aggregate. -/
theorem aggregates_pushAggregate_eq_iff :
    (q.pushAggregate a).aggregates = q.aggregates ↔ a ∈ q.aggregates := by
  by_cases h : a ∈ q.aggregates
  · rw [pushAggregate_of_mem h]
    exact iff_of_true rfl h
  · rw [pushAggregate_of_not_mem h]
    exact iff_of_false (by simp) h

/-- An aggregate that a coherent select has already changes nothing. -/
theorem Coherent.pushAggregate_eq_self (h : q.Coherent) (hmem : a ∈ q.aggregates) :
    q.pushAggregate a = q := by
  have hprojection : q.projection = [] := h.exclusive (List.ne_nil_of_mem hmem)
  rw [pushAggregate_of_mem hmem, ← hprojection]

/-- Whatever the edits, a select that aggregates has no projection, repeats neither attributes nor
aggregates and has no limit of zero.  Taking its aggregates away leaves the rest of it alone, and a
push that adds nothing to its list, which is so exactly if the select aggregates or has what is
pushed, leaves all of it alone. -/
theorem coherent_edited (edits : List Edit) :
    (edited edits).Coherent ∧
    (edited edits).edit (.setAggregates []) = { edited edits with aggregates := [] } ∧
    (∀ target,
      (((edited edits).edit (.pushAttribute target)).projection = (edited edits).projection ↔
        (edited edits).aggregates ≠ [] ∨ target ∈ (edited edits).projection) ∧
      (((edited edits).edit (.pushAttribute target)).projection = (edited edits).projection →
        (edited edits).edit (.pushAttribute target) = edited edits)) ∧
    ∀ a,
      (((edited edits).edit (.pushAggregate a)).aggregates = (edited edits).aggregates ↔
        a ∈ (edited edits).aggregates) ∧
      (((edited edits).edit (.pushAggregate a)).aggregates = (edited edits).aggregates →
        (edited edits).edit (.pushAggregate a) = edited edits) := by
  have h : (edited edits).Coherent := coherent_empty.foldl_edit edits
  refine ⟨h, rfl, fun target => ⟨projection_pushAttribute_eq_iff, fun hsame => ?_⟩,
    fun a => ⟨aggregates_pushAggregate_eq_iff, fun hsame => ?_⟩⟩
  · exact (pushAttribute_eq _ target).trans (if_pos (projection_pushAttribute_eq_iff.1 hsame))
  · exact h.pushAggregate_eq_self (aggregates_pushAggregate_eq_iff.1 hsame)

-- an aggregate takes the place of the projection, and the limit of zero goes
example : edited [.new [⟨"client", none⟩], .pushAttribute ⟨"client", "city", none⟩,
      .pushAggregate .countAll, .pushAggregate .countAll, .setLimit (some 0)] =
    { entities := [⟨"client", none⟩], aggregates := [.countAll] } := rfl

end AskSql.Select
