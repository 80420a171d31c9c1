import AskSql.Proofs.Keyed
import AskSql.Schema

/-! What holds of every valid configuration. -/

namespace AskSql

@[simp] theorem faultIf_eq_nil_iff {condition : Bool} {fault : Fault} :
    faultIf condition fault = [] ↔ condition = false := by
  cases condition <;> simp [faultIf]

theorem vocabularyFaults_eq_nil_iff {owner : VocabularyOwner} {phrases : List String} :
    vocabularyFaults owner phrases = [] ↔
      phrases ≠ [] ∧ ∀ phrase ∈ phrases, isBlankText phrase = false := by
  simp [vocabularyFaults]

/-- A list put together of others is empty if each of them is. -/
theorem flatMap_entries_eq_nil_iff {α β : Type} {m : Keyed α} {f : String × α → List β} :
    m.entries.flatMap f = [] ↔ ∀ key value, m.get? key = some value → f (key, value) = [] := by
  rw [List.flatMap_eq_nil_iff]
  exact ⟨fun h key value hget => h _ ((Keyed.mem_entries_iff m).2 hget),
    fun h ⟨key, value⟩ hmem => h key value ((Keyed.mem_entries_iff m).1 hmem)⟩

namespace Schema

variable {schema : Schema} {entity attr : String} {e : Entity} {a : Attribute}

theorem ofConfig_config (schema : Schema) : ofConfig schema.config = .ok schema := by
  rw [ofConfig]
  split
  · rfl
  · rename_i hfaults
    simp [schema.valid] at hfaults

theorem config_of_ofConfig {config : TenantConfig} (h : ofConfig config = .ok schema) :
    schema.config = config := by
  rw [ofConfig] at h
  split at h
  · rw [← Except.ok.inj h]
  · contradiction

/-- A table in the configuration is the table of an entity. -/
theorem exists_entityForTable? {mapping : String × TableMapping} {table : String}
    (hmapping : mapping ∈ schema.config.datasource.tables.entries)
    (htable : sameName mapping.2.table table = true) :
    ∃ entity, schema.entityForTable? table = some entity := by
  rw [← Option.isSome_iff_exists, entityForTable?, Option.isSome_map, List.find?_isSome]
  exact ⟨mapping, hmapping, htable⟩

theorem entity_faults (h : schema.entities.get? entity = some e) : e.faults entity = [] := by
  have hvalid := schema.valid
  simp only [TenantConfig.faults, Ontology.faults, List.append_eq_nil_iff] at hvalid
  exact flatMap_entries_eq_nil_iff.1 hvalid.1.1.1.1.1.1.2 entity e h

/-- The vocabulary of an entity has a phrase, and none of its phrases is blank. -/
theorem entity_vocabulary (h : schema.entities.get? entity = some e) :
    e.vocabulary ≠ [] ∧ ∀ phrase ∈ e.vocabulary, isBlankText phrase = false := by
  have hfaults := entity_faults h
  simp only [Entity.faults, List.append_eq_nil_iff] at hfaults
  exact vocabularyFaults_eq_nil_iff.1 hfaults.1.1.1

/-- The vocabulary of an attribute has a phrase, and none of its phrases is blank. -/
theorem attribute_vocabulary (h : schema.attribute? entity attr = some a) :
    a.vocabulary ≠ [] ∧ ∀ phrase ∈ a.vocabulary, isBlankText phrase = false := by
  obtain ⟨e, he, ha⟩ := Option.bind_eq_some_iff.1 h
  have hfaults := entity_faults he
  simp only [Entity.faults, List.append_eq_nil_iff] at hfaults
  exact vocabularyFaults_eq_nil_iff.1 (flatMap_entries_eq_nil_iff.1 hfaults.2 attr a ha)

theorem rowCapFaults_eq_nil_iff {limit : Option Nat} :
    rowCapFaults limit = [] ↔ ∀ n, limit = some n → 1 ≤ n ∧ n ≤ maxRowCap := by
  cases limit with
  | none => simp [rowCapFaults]
  | some n =>
    simp only [rowCapFaults, faultIf_eq_nil_iff, Bool.or_eq_false_iff, decide_eq_false_iff_not]
    constructor
    · intro h m hm
      obtain rfl := Option.some.inj hm
      omega
    · intro h
      have hrange := h n rfl
      omega

/-- The row cap of a tenant is between one and the largest. -/
theorem maxResults_range (schema : Schema) {n : Nat} (h : schema.maxResults = some n) :
    1 ≤ n ∧ n ≤ maxRowCap := by
  have hvalid := schema.valid
  simp only [TenantConfig.faults, List.append_eq_nil_iff] at hvalid
  rcases Option.or_eq_some_iff.1 h with hrule | ⟨-, hsetting⟩
  · exact rowCapFaults_eq_nil_iff.1 hvalid.1.2 n hrule
  · exact rowCapFaults_eq_nil_iff.1 hvalid.1.1.2 n hsetting

end Schema

end AskSql
