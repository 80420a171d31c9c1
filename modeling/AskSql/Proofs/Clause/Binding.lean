import AskSql.Clause.Bind
import AskSql.Proofs.Query

/-! What binding does to a query: clauses add filters, sorts and groups over attributes of the
entity that the query reads from, and change nothing else. -/

namespace AskSql

open Vocabulary

variable {resolver : Resolver} {dictionary : Dictionary} {query bound : Select} {entity : String}

namespace Vocabulary.Resolver

@[simp] theorem indexed_schema (resolver : Resolver) (dictionary : Dictionary) :
    (resolver.indexed dictionary).schema = resolver.schema := rfl

/-- Resolution may build the index and leaves the schema as it is. -/
@[simp] theorem resolve_schema (resolver : Resolver) (dictionary : Dictionary) (phrase : String) :
    (resolver.resolve dictionary phrase).2.schema = resolver.schema := by
  rw [resolve]
  split <;> rfl

@[simp] theorem dictionaryTerms_schema (resolver : Resolver) (dictionary : Dictionary) :
    (resolver.dictionaryTerms dictionary).2.schema = resolver.schema := rfl

end Vocabulary.Resolver

namespace Clause

/-- `bound` reads and shows what `query` does, and each attribute that it has in its clauses beyond
those of `query` belongs to `entity`. -/
structure Extends (entity : String) (query bound : Select) : Prop where
  entities : bound.entities = query.entities
  projection : bound.projection = query.projection
  aggregates : bound.aggregates = query.aggregates
  added : ∀ target ∈ bound.clauseTargets, target ∈ query.clauseTargets ∨ target.entity = entity

theorem Extends.refl (entity : String) (query : Select) : Extends entity query query :=
  ⟨rfl, rfl, rfl, fun _ h => Or.inl h⟩

theorem Extends.trans {middle : Select} (h : Extends entity query middle)
    (hnext : Extends entity middle bound) : Extends entity query bound :=
  ⟨hnext.entities.trans h.entities, hnext.projection.trans h.projection,
    hnext.aggregates.trans h.aggregates,
    fun target ht => (hnext.added target ht).elim (h.added target) Or.inr⟩

/-- A clause adds the attribute that it is bound to. -/
theorem extends_apply (query : Select) (clause : Clause) {target : AttributeRef}
    (h : target.entity = entity) : Extends entity query (apply query clause target) := by
  cases clause with
  | filter field operator value negate =>
    refine ⟨rfl, rfl, rfl, fun other hother => ?_⟩
    simp only [apply, Select.clauseTargets, List.map_append, List.mem_append, List.map_cons,
      List.map_nil, List.mem_singleton] at hother ⊢
    rcases hother with ((hfilter | rfl) | hsort) | hgroup
    · exact Or.inl (Or.inl (Or.inl hfilter))
    · exact Or.inr h
    · exact Or.inl (Or.inl (Or.inr hsort))
    · exact Or.inl (Or.inr hgroup)
  | sort field direction =>
    refine ⟨rfl, rfl, rfl, fun other hother => ?_⟩
    simp only [apply, Select.clauseTargets, List.map_append, List.mem_append, List.map_cons,
      List.map_nil, List.mem_singleton] at hother ⊢
    rcases hother with (hfilter | hsort | rfl) | hgroup
    · exact Or.inl (Or.inl (Or.inl hfilter))
    · exact Or.inl (Or.inl (Or.inr hsort))
    · exact Or.inr h
    · exact Or.inl (Or.inr hgroup)
  | groupBy field =>
    rw [apply]
    split
    · exact Extends.refl entity query
    · refine ⟨rfl, rfl, rfl, fun other hother => ?_⟩
      simp only [Select.clauseTargets, List.mem_append, List.mem_singleton] at hother ⊢
      rcases hother with (hfilter | hsort) | hgroup | rfl
      · exact Or.inl (Or.inl (Or.inl hfilter))
      · exact Or.inl (Or.inl (Or.inr hsort))
      · exact Or.inl (Or.inr hgroup)
      · exact Or.inr h

/-- The attribute that a term denotes is one of the entity that it was asked for. -/
theorem entity_of_attributeFor {field source : String} {term : Term} {target : AttributeRef}
    (h : attributeFor field source term = .ok target) : target.entity = source := by
  rw [attributeFor] at h
  split at h
  · split at h
    · rename_i heq
      obtain rfl := Except.ok.inj h
      exact heq
    · contradiction
  · contradiction

/-- A bound clause extends a query that has a source. -/
theorem bindOne_ok {source : EntityRef} {clause : Clause} {node : QueryNode}
    (hsource : query.source? = some source)
    (h : (bindOne resolver dictionary (.select query) clause).1 = .ok node) :
    ∃ bound, node = .select bound ∧ Extends source.name query bound := by
  simp only [bindOne, hsource] at h
  cases hterm : (resolver.resolve dictionary clause.field).1 with
  | error fault => simp [hterm, Except.bind, Except.map] at h
  | ok term =>
    cases htarget : attributeFor clause.field source.name term with
    | error fault => simp [hterm, htarget, Except.bind, Except.map] at h
    | ok target =>
      have hnode : QueryNode.select (apply query clause target) = node := by
        simpa [hterm, htarget, Except.bind, Except.map] using h
      exact ⟨_, hnode.symm, extends_apply query clause (entity_of_attributeFor htarget)⟩

@[simp] theorem bindOne_schema (resolver : Resolver) (dictionary : Dictionary) (node : QueryNode)
    (clause : Clause) : (bindOne resolver dictionary node clause).2.schema = resolver.schema := by
  cases node with
  | shortcut => rfl
  | select query =>
    simp only [bindOne]
    cases query.source? with
    | none => rfl
    | some source => simp only [Resolver.resolve_schema]

/-- `bound` is the question `parsed` with clauses bound: what was found in it is the same. -/
structure Binds (entity : String) (query : Select) (parsed bound : ParsedQuestion) : Prop where
  hits : bound.hits = parsed.hits
  intent : bound.intent = parsed.intent
  node : ∃ extended, bound.node = .select extended ∧ Extends entity query extended

/-- Binding clauses extends a query, whatever clauses are left out. -/
theorem bind_ok {policy : UnboundPolicy} {source : EntityRef} {clauses : List Clause}
    {parsed result : ParsedQuestion} {count : Nat} (hnode : parsed.node = .select query)
    (hsource : query.source? = some source)
    (h : (Clause.bind resolver dictionary policy parsed clauses).1 = .ok (result, count)) :
    Binds source.name query parsed result := by
  induction clauses generalizing resolver parsed query count with
  | nil =>
    obtain ⟨rfl, -⟩ := Prod.mk.inj (Except.ok.inj h)
    exact ⟨rfl, rfl, query, hnode, Extends.refl _ _⟩
  | cons clause clauses ih =>
    rw [Clause.bind] at h
    cases hone : bindOne resolver dictionary parsed.node clause with
    | mk one next =>
      rw [hone] at h
      cases one with
      | ok node =>
        rw [hnode] at hone
        obtain ⟨middle, rfl, hmiddle⟩ := bindOne_ok hsource (congrArg Prod.fst hone)
        cases hrest : (Clause.bind next dictionary policy { parsed with node := .select middle }
            clauses).1 with
        | error fault => simp [hrest, Except.map] at h
        | ok found =>
          obtain ⟨bound, rest⟩ := found
          obtain ⟨rfl, -⟩ : bound = result ∧ rest + 1 = count := by
            simpa [hrest, Except.map] using h
          have hmiddleSource : middle.source? = some source := by
            rw [Select.source?, hmiddle.entities]
            exact hsource
          obtain ⟨hhits, hintent, extended, hext, hextends⟩ := ih rfl hmiddleSource hrest
          exact ⟨hhits, hintent, extended, hext, hmiddle.trans hextends⟩
      | error fault =>
        dsimp only at h
        split at h
        · contradiction
        · have hwarned : ParsedQuestion.node { parsed with
              warnings := parsed.warnings ++ [dropWarning clause fault] } = .select query := hnode
          obtain ⟨hhits, hintent, extended, hext, hextends⟩ := ih hwarned hsource h
          exact ⟨hhits, hintent, extended, hext, hextends⟩

/-- Binding leaves the schema of the resolver as it is. -/
@[simp] theorem bind_schema (policy : UnboundPolicy) (parsed : ParsedQuestion)
    (clauses : List Clause) :
    (Clause.bind resolver dictionary policy parsed clauses).2.schema = resolver.schema := by
  induction clauses generalizing resolver parsed with
  | nil => rfl
  | cons clause clauses ih =>
    have hschema := bindOne_schema resolver dictionary parsed.node clause
    rw [Clause.bind]
    cases hone : bindOne resolver dictionary parsed.node clause with
    | mk one next =>
      rw [hone] at hschema
      cases one with
      | ok node => exact (ih _).trans hschema
      | error fault =>
        dsimp only
        split
        · exact hschema
        · exact (ih _).trans hschema

end Clause

end AskSql
