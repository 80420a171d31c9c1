import AskSql.Proofs.Query
import AskSql.Question.Parse

/-! What the query of a question shows, in terms of the phrases found in the question. -/

namespace AskSql.Question

variable {schema : Schema} {hits : List Match} {intent : Intent} {target : AttributeRef}

/-- The attributes that an intent takes from the phrases of a question.  An aggregation other than
counting takes the first, counting takes none, a sum takes the first that is numeric, and any other
intent takes all. -/
def taken (schema : Schema) (hits : List Match) : Intent → List AttributeRef
  | .aggregate =>
    if hits.any fun hit => hit.aggregation.any (· ≠ .count) then
      (mentionedAttributes hits).head?.toList
    else []
  | .count => []
  | .sum => (firstNumeric? schema (mentionedAttributes hits)).toList
  | _ => mentionedAttributes hits

theorem target_pair (function : Aggregation) (first : Option AttributeRef) :
    (pair function first).target = if function = .count then none else first := by
  cases function <;> cases first <;> rfl

theorem exists_mentionedAggregates :
    (∃ a ∈ mentionedAggregates hits, a.target = some target) ↔
    target ∈ taken schema hits .aggregate := by
  have hmem : ∀ a, a ∈ mentionedAggregates hits ↔
      ∃ hit ∈ hits, ∃ function, hit.aggregation = some function ∧
        pair function (mentionedAttributes hits).head? = a := by
    intro a
    simp only [mentionedAggregates, List.mem_eraseDups, List.mem_map, List.mem_filterMap]
    constructor
    · rintro ⟨function, ⟨hit, hhit, hfunction⟩, heq⟩
      exact ⟨hit, hhit, function, hfunction, heq⟩
    · rintro ⟨hit, hhit, function, hfunction, heq⟩
      exact ⟨function, ⟨hit, hhit, hfunction⟩, heq⟩
  simp only [hmem, taken]
  constructor
  · rintro ⟨a, ⟨hit, hhit, function, hfunction, rfl⟩, htarget⟩
    rw [target_pair] at htarget
    split at htarget
    · contradiction
    · rename_i hcount
      have hany : (hits.any fun hit => hit.aggregation.any (· ≠ .count)) = true :=
        List.any_eq_true.2 ⟨hit, hhit, by simp [hfunction, hcount]⟩
      rw [if_pos hany, htarget]
      exact List.mem_singleton_self target
  · intro h
    split at h
    · rename_i hany
      obtain ⟨hit, hhit, hother⟩ := List.any_eq_true.1 hany
      obtain ⟨function, hfunction, hcount⟩ := Option.any_eq_true _ _ |>.1 hother
      refine ⟨_, ⟨hit, hhit, function, hfunction, rfl⟩, ?_⟩
      rw [target_pair, if_neg (by simpa using hcount)]
      simpa using h
    · simp at h

/-- A query that shows what an intent takes from a question and reads what the question mentions. -/
structure Assembled (schema : Schema) (hits : List Match) (intent : Intent) (query : Select) :
    Prop where
  shown : ∀ target, target ∈ query.shownTargets ↔ target ∈ taken schema hits intent
  entities : query.entities = mentionedEntities hits
  clauses : query.clauseTargets = []

/-- The query before its intent is known. -/
def unshown (hits : List Match) : Select :=
  { entities := mentionedEntities hits }

theorem assembled_pushAttributes (h : taken schema hits intent = mentionedAttributes hits) :
    Assembled schema hits intent
      ((mentionedAttributes hits).foldl Select.pushAttribute (unshown hits)) := by
  have hshows := Select.shows_pushAttributes (unshown hits) (mentionedAttributes hits)
  refine ⟨fun target => ?_, hshows.entities, hshows.clauses⟩
  rw [Select.mem_shownTargets_pushAttributes rfl, h]
  simp [unshown]

theorem assembled_setAggregates {aggregates : List Aggregate}
    (h : ∀ target, (∃ a ∈ aggregates, a.target = some target) ↔ target ∈ taken schema hits intent) :
    Assembled schema hits intent ((unshown hits).setAggregates aggregates) := by
  have hshows := Select.shows_setAggregates (unshown hits) aggregates
  exact ⟨fun target => (Select.mem_shownTargets_setAggregates rfl).trans (h target),
    hshows.entities, hshows.clauses⟩

theorem assembled_assemble (schema : Schema) (hits : List Match) (intent : Intent) :
    Assembled schema hits intent (assemble schema hits intent).1 := by
  have hlimit : ∀ query, Assembled schema hits intent query →
      Assembled schema hits intent (query.setLimit schema.maxResults) :=
    fun query h => ⟨h.shown, h.entities, h.clauses⟩
  cases intent with
  | aggregate => exact hlimit _ (assembled_setAggregates fun _ => exists_mentionedAggregates)
  | count =>
    exact hlimit _ (assembled_setAggregates fun target => by simp [taken, Aggregate.countAll])
  | sum =>
    rw [assemble]
    cases hnumeric : firstNumeric? schema (mentionedAttributes hits) with
    | some first =>
      exact hlimit _ (assembled_setAggregates fun target => by
        simp [taken, hnumeric, Aggregate.over, eq_comm])
    | none =>
      exact hlimit _ ⟨fun target => by simp [taken, hnumeric, Select.shownTargets], rfl, rfl⟩
  | select | filter | shortcut | unknown => exact hlimit _ (assembled_pushAttributes rfl)

/-- The entity that the query of a question reads is the first that the question mentions. -/
theorem Assembled.source?_eq {query : Select} (h : Assembled schema hits intent query) :
    query.source?.map (·.name) = (hits.filterMap (·.entity)).head? := by
  rw [Select.source?, h.entities, mentionedEntities]
  cases hits.filterMap (·.entity) with
  | nil => rfl
  | cons name names => simp [List.eraseDups_cons]

end AskSql.Question
