import AskSql.Proofs.Question.Listing
import AskSql.Proofs.Schema

/-! The shape of the query that a question asks for.  It reads the entities that are mentioned, the
earliest first, and shows what its intent takes from the mentioned attributes and aggregations:
either attributes or aggregates, never both.  It has no clauses yet, and its limit is the row cap of
the tenant.  A question in which nothing is found asks for a query that is empty altogether and has
no limit either. -/

namespace AskSql.Question

open Text Vocabulary

variable {schema : Schema} {terms : List Term} {question : String} {hits : List Match}
  {intent : Intent} {target : AttributeRef}

/-! ### What is named -/

/-- The attributes that hits name, as often as they do. -/
def namedAttributes (hits : List Match) : List AttributeRef :=
  hits.filterMap attributeOf?

theorem once_mentionedAttributes (hits : List Match) :
    Once (namedAttributes hits) (mentionedAttributes hits) :=
  once_eraseDups _

/-- The entity of an attribute is named with it. -/
theorem entity_of_mem_namedAttributes (h : target ∈ namedAttributes hits) :
    target.entity ∈ hits.filterMap (·.entity) := by
  obtain ⟨hit, hhit, hattr⟩ := List.mem_filterMap.1 h
  obtain ⟨entity, hentity, hattr⟩ := Option.bind_eq_some_iff.1 hattr
  obtain ⟨name, -, hattr⟩ := Option.bind_eq_some_iff.1 hattr
  obtain rfl := Option.some.inj hattr
  exact List.mem_filterMap.2 ⟨hit, hhit, hentity⟩

/-- An attribute is numeric if the ontology knows it and its values can be summed. -/
def IsNumeric (schema : Schema) (target : AttributeRef) : Prop :=
  ∃ a, schema.attribute? target.entity target.name = some a ∧ a.type.isNumeric = true

theorem any_isNumeric_iff :
    (schema.attribute? target.entity target.name).any (·.type.isNumeric) = true ↔
      IsNumeric schema target := by
  rw [IsNumeric, Option.any_eq_true]

/-- The first of some attributes that is numeric. -/
def FirstNumeric (schema : Schema) (targets : List AttributeRef) (target : AttributeRef) : Prop :=
  IsNumeric schema target ∧
    ∃ front back, targets = front ++ target :: back ∧ ∀ other ∈ front, ¬IsNumeric schema other

theorem firstNumeric?_eq_some_iff {targets : List AttributeRef} :
    firstNumeric? schema targets = some target ↔ FirstNumeric schema targets target := by
  simp only [firstNumeric?, FirstNumeric, List.find?_eq_some_iff_append, any_isNumeric_iff,
    Bool.not_eq_true', ← Bool.not_eq_true]

theorem firstNumeric?_eq_none_iff {targets : List AttributeRef} :
    firstNumeric? schema targets = none ↔ ∀ target ∈ targets, ¬IsNumeric schema target := by
  simp only [firstNumeric?, List.find?_eq_none, any_isNumeric_iff]

/-- It does not matter for the first numeric attribute how often an attribute is named. -/
theorem firstNumeric?_mentionedAttributes (schema : Schema) (hits : List Match) :
    firstNumeric? schema (mentionedAttributes hits) = firstNumeric? schema (namedAttributes hits) :=
  find?_eraseDups ..

/-! ### What is shown -/

/-- The projection, the aggregates and the warnings that a question leads to under each intent. -/
inductive Shown (schema : Schema) (hits : List Match) :
    Intent → List AttributeRef → List Aggregate → List String → Prop
  | aggregate {aggregates : List Aggregate} (hne : aggregates ≠ [])
      (h : Once ((hits.filterMap (·.aggregation)).map (pair · (namedAttributes hits).head?))
        aggregates) :
      Shown schema hits .aggregate [] aggregates []
  | count : Shown schema hits .count [] [.countAll] []
  | sum {target : AttributeRef} (h : FirstNumeric schema (namedAttributes hits) target) :
      Shown schema hits .sum [] [.over .sum target] []
  | noSum (h : ∀ target ∈ namedAttributes hits, ¬IsNumeric schema target) :
      Shown schema hits .sum [] [] ["Sum requested but no numeric attribute was mentioned"]
  | select {projection : List AttributeRef} (h : Once (namedAttributes hits) projection) :
      Shown schema hits .select projection [] []
  | filter {projection : List AttributeRef} (h : Once (namedAttributes hits) projection) :
      Shown schema hits .filter projection [] []
  | unknown (h : hits = []) : Shown schema hits .unknown [] [] []

section
variable {projection : List AttributeRef} {aggregates : List Aggregate} {warnings : List String}

theorem Shown.exclusive (h : Shown schema hits intent projection aggregates warnings) :
    projection = [] ∨ aggregates = [] := by
  cases h <;> simp

/-- Whatever is shown is named by a hit. -/
theorem Shown.mem_namedAttributes (h : Shown schema hits intent projection aggregates warnings)
    (htarget : target ∈ projection ∨ ∃ a ∈ aggregates, a.target = some target) :
    target ∈ namedAttributes hits := by
  cases h with
  | aggregate hne h =>
    obtain ⟨a, ha, htarget⟩ := htarget.resolve_left List.not_mem_nil
    obtain ⟨function, -, rfl⟩ := List.mem_map.1 ((h.mem a).1 ha)
    rw [target_pair] at htarget
    split at htarget
    · contradiction
    · exact List.mem_of_head? htarget
  | sum h =>
    obtain ⟨-, front, back, hnamed, -⟩ := h
    obtain ⟨a, ha, htarget⟩ := htarget.resolve_left List.not_mem_nil
    rw [List.mem_singleton.1 ha] at htarget
    obtain rfl := Option.some.inj htarget
    rw [hnamed]
    exact List.mem_append_right _ List.mem_cons_self
  | select h | filter h => exact (h.mem target).1 (htarget.resolve_right (by simp))
  | count | noSum | unknown => simp [Aggregate.countAll] at htarget

end

/-- A question in which something is found aggregates only if an aggregation is found. -/
theorem intentOf_cases (triggers : IntentTriggers) (hits : List Match) (lowered : List Char) :
    (intentOf triggers hits lowered = .aggregate ∧ hits.filterMap (·.aggregation) ≠ []) ∨
      intentOf triggers hits lowered ∈ [Intent.select, .count, .sum, .filter] := by
  rw [intentOf]
  split
  · rename_i hany
    obtain ⟨hit, hhit, hsome⟩ := List.any_eq_true.1 hany
    obtain ⟨function, hfunction⟩ := Option.isSome_iff_exists.1 hsome
    exact Or.inl ⟨rfl, List.ne_nil_of_mem (List.mem_filterMap.2 ⟨hit, hhit, hfunction⟩)⟩
  · refine Or.inr ?_
    split_ifs <;> simp

theorem once_mentionedAggregates (hits : List Match) :
    Once ((hits.filterMap (·.aggregation)).map (pair · (namedAttributes hits).head?))
      (mentionedAggregates hits) := by
  rw [mentionedAggregates, mentionedAttributes, head?_eraseDups]
  exact once_eraseDups _

/-- New aggregates leave no projection behind. -/
theorem setAggregates_unshown (hits : List Match) (aggregates : List Aggregate) :
    ((unshown hits).setAggregates aggregates).projection = [] ∧
      ((unshown hits).setAggregates aggregates).aggregates = aggregates.eraseDups :=
  ⟨Select.projection_pushAggregates rfl, Select.aggregates_setAggregates _ _⟩

theorem pushAttributes_unshown (hits : List Match) :
    ((mentionedAttributes hits).foldl Select.pushAttribute (unshown hits)).projection =
        mentionedAttributes hits ∧
      ((mentionedAttributes hits).foldl Select.pushAttribute (unshown hits)).aggregates = [] := by
  refine ⟨?_, Select.aggregates_pushAttributes _ _⟩
  rw [Select.projection_pushAttributes rfl]
  exact (foldl_pushNew_nil _).trans (eraseDups_of_nodup (once_mentionedAttributes hits).nodup)

theorem shown_assemble {triggers : IntentTriggers} {lowered : List Char}
    (hintent : intentOf triggers hits lowered = intent) :
    Shown schema hits intent (assemble schema hits intent).1.projection
      (assemble schema hits intent).1.aggregates (assemble schema hits intent).2 := by
  have hall := intentOf_cases triggers hits lowered
  rw [hintent] at hall
  rcases hall with ⟨rfl, hfound⟩ | hall
  · obtain ⟨hprojection, haggregates⟩ := setAggregates_unshown hits (mentionedAggregates hits)
    have honce := once_mentionedAggregates hits
    rw [eraseDups_of_nodup honce.nodup] at haggregates
    change Shown schema hits .aggregate ((unshown hits).setAggregates _).projection
      ((unshown hits).setAggregates _).aggregates []
    rw [hprojection, haggregates]
    exact .aggregate (by simpa [honce.eq_nil_iff] using hfound) honce
  · obtain ⟨hprojection, haggregates⟩ := pushAttributes_unshown hits
    simp only [List.mem_cons, List.not_mem_nil, or_false] at hall
    rcases hall with rfl | rfl | rfl | rfl
    · change Shown schema hits .select (List.foldl Select.pushAttribute (unshown hits) _).projection
        (List.foldl Select.pushAttribute (unshown hits) _).aggregates []
      rw [hprojection, haggregates]
      exact .select (once_mentionedAttributes hits)
    · exact .count
    · rw [assemble]
      cases hnumeric : firstNumeric? schema (mentionedAttributes hits) with
      | some target =>
        rw [firstNumeric?_mentionedAttributes] at hnumeric
        exact .sum (firstNumeric?_eq_some_iff.1 hnumeric)
      | none =>
        rw [firstNumeric?_mentionedAttributes] at hnumeric
        exact .noSum (firstNumeric?_eq_none_iff.1 hnumeric)
    · change Shown schema hits .filter (List.foldl Select.pushAttribute (unshown hits) _).projection
        (List.foldl Select.pushAttribute (unshown hits) _).aggregates []
      rw [hprojection, haggregates]
      exact .filter (once_mentionedAttributes hits)

/-! ### The whole query -/

/-- The shape of a query, given what is found in its question. -/
structure Shaped (schema : Schema) (parsed : ParsedQuestion) (query : Select) : Prop where
  entities : Once (parsed.hits.filterMap (·.entity)) (query.entities.map (·.name))
  source : ∀ source, query.source? = some source → ∃ front hit back,
    parsed.hits = front ++ hit :: back ∧ hit.entity = some source.name ∧
      (∀ other ∈ front, other.entity = none) ∧ ∀ other ∈ back, hit.position ≤ other.position
  named : ∀ target, target ∈ query.projection ∨ (∃ a ∈ query.aggregates, a.target = some target) →
    (∃ hit ∈ parsed.hits, attributeOf? hit = some target) ∧
      target.entity ∈ query.entities.map (·.name)
  exclusive : query.projection = [] ∨ query.aggregates = []
  shown : Shown schema parsed.hits parsed.intent query.projection query.aggregates parsed.warnings
  clauses : query.filters = [] ∧ query.sorts = [] ∧ query.groupBy = []
  limit : query.limit = if parsed.hits = [] then none else schema.maxResults

/-- A limit that is a row cap stays when it is set. -/
theorem filter_maxResults (schema : Schema) :
    schema.maxResults.filter (0 < ·) = schema.maxResults := by
  cases h : schema.maxResults with
  | none => rfl
  | some n =>
    have hpos : 0 < n := (schema.maxResults_range h).1
    simp [Option.filter, hpos]

/-- The hits are in the order of their places. -/
theorem pairwise_hits (known : List Phrase) (text : List Char) :
    (Question.hits known text).Pairwise fun a b => a.position ≤ b.position := by
  refine (List.pairwise_mergeSort before_trans before_total _).imp fun {a b} h => ?_
  rw [before_iff] at h
  omega

/-- The entity that a query reads is that of the earliest hit with one. -/
theorem exists_first_entity {name : String} (h : (hits.filterMap (·.entity)).head? = some name)
    (hordered : hits.Pairwise fun a b => a.position ≤ b.position) :
    ∃ front hit back, hits = front ++ hit :: back ∧ hit.entity = some name ∧
      (∀ other ∈ front, other.entity = none) ∧ ∀ other ∈ back, hit.position ≤ other.position := by
  obtain ⟨rest, hrest⟩ := List.head?_eq_some_iff.1 h
  obtain ⟨front, hit, back, rfl, hfront, hhit, -⟩ := List.filterMap_eq_cons_iff.1 hrest
  refine ⟨front, hit, back, rfl, hhit, hfront, fun other hother => ?_⟩
  exact List.rel_of_pairwise_cons (List.pairwise_append.1 hordered).2.1 hother

theorem map_name_mentionedEntities (hits : List Match) :
    (mentionedEntities hits).map (·.name) = (hits.filterMap (·.entity)).eraseDups := by
  rw [mentionedEntities, List.map_map]
  exact List.map_id _

theorem limit_assemble (schema : Schema) (hits : List Match) (intent : Intent) :
    (assemble schema hits intent).1.limit = schema.maxResults := by
  refine Eq.trans ?_ (filter_maxResults schema)
  cases intent with
  | sum =>
    rw [assemble]
    cases firstNumeric? schema (mentionedAttributes hits) <;> rfl
  | aggregate | count | select | filter | shortcut | unknown => rfl

theorem shaped_unresolved (schema : Schema) (text : String) :
    Shaped schema (.unresolved text) .empty where
  entities := once_eraseDups []
  source _ h := by contradiction
  named target h := by simp [Select.empty] at h
  exclusive := Or.inl rfl
  shown := .unknown rfl
  clauses := ⟨rfl, rfl, rfl⟩
  limit := rfl

/-- What is found in a question, in the order of places, gives the query its shape. -/
theorem shaped_ofHits (schema : Schema) (text : String) (lowered : List Char)
    (hordered : hits.Pairwise fun a b => a.position ≤ b.position) :
    ∃ query, (ofHits schema text lowered hits).node = .select query ∧
      Shaped schema (ofHits schema text lowered hits) query := by
  rw [ofHits]
  split
  · exact ⟨.empty, rfl, shaped_unresolved schema text⟩
  · rename_i hfound
    rw [List.isEmpty_iff] at hfound
    have hassembled := assembled_assemble schema hits
      (intentOf schema.config.functions.triggers hits lowered)
    have hshown := @shown_assemble schema hits _ schema.config.functions.triggers lowered rfl
    have hentities := congrArg (List.map (·.name)) hassembled.entities
    rw [map_name_mentionedEntities] at hentities
    have honce := once_eraseDups (hits.filterMap (·.entity))
    refine ⟨_, rfl, ?_, fun source hsource => ?_, fun target htarget => ?_,
      hshown.exclusive, hshown, Select.clauseTargets_eq_nil_iff.1 hassembled.clauses, ?_⟩
    · rw [hentities]
      exact honce
    · have hfirst := hassembled.source?_eq
      rw [hsource] at hfirst
      exact exists_first_entity hfirst.symm hordered
    · have hnamed := hshown.mem_namedAttributes htarget
      refine ⟨List.mem_filterMap.1 hnamed, ?_⟩
      rw [hentities]
      exact (honce.mem _).2 (entity_of_mem_namedAttributes hnamed)
    · rw [if_neg hfound]
      exact limit_assemble ..

/-- A question that names no stored statement asks for a query of the shape that its hits and its
intent give, and the row cap, if there is one, is in its range. -/
theorem shaped_parse (hshortcut : NamesNoShortcut schema question) :
    ∃ query, (parse schema terms question).node = .select query ∧
      Shaped schema (parse schema terms question) query ∧
      ∀ n, schema.maxResults = some n → 1 ≤ n ∧ n ≤ maxRowCap := by
  have hstored : stored? schema question (lowercase question.toList) = none :=
    stored?_eq_none hshortcut
  have hparse : parse schema terms question = ofHits schema question (lowercase question.toList)
      (Question.hits (withTerms (vocabulary schema) terms) (lowercase question.toList)) := by
    simp only [parse, parseWith, hstored]
  rw [hparse]
  obtain ⟨query, hnode, hshaped⟩ := shaped_ofHits schema question (lowercase question.toList)
    (pairwise_hits (withTerms (vocabulary schema) terms) (lowercase question.toList))
  exact ⟨query, hnode, hshaped, fun n => schema.maxResults_range⟩

/-! ### A cap on the rows of the shop -/

theorem highest_hits : (parse ⟨shop, shop_valid⟩ [] "clients amount highest").hits =
    [⟨"clients", some "client", none, none, 0, 7⟩,
     ⟨"amount", some "order", some "amount", none, 8, 6⟩,
     ⟨"highest", none, none, some .max, 15, 7⟩] := by
  have hlower : lowercase "clients amount highest".toList = "clients amount highest".toList := by
    decide +kernel
  rw [parse, hits_parseWith rfl, hlower, Question.hits,
    List.mergeSort_of_pairwise (by decide +kernel)]
  decide +kernel

/-- The query names the entities in the order of the question. -/
theorem shaped_parse_highest :
    NamesNoShortcut ⟨shop, shop_valid⟩ "clients amount highest" ∧
      ∃ query, (parse ⟨shop, shop_valid⟩ [] "clients amount highest").node = .select query ∧
        Shaped ⟨shop, shop_valid⟩ (parse ⟨shop, shop_valid⟩ [] "clients amount highest") query ∧
        query.entities.map (·.name) = ["client", "order"] := by
  have hshortcut := namesNoShortcut_shop "clients amount highest"
  obtain ⟨query, hnode, hshaped, -⟩ := @shaped_parse _ [] _ hshortcut
  refine ⟨hshortcut, query, hnode, hshaped, ?_⟩
  have honce := hshaped.entities
  rw [highest_hits] at honce
  exact honce.unique (once_eraseDups _)

/-- The shop with a cap on the rows that it shows. -/
def cappedShop : TenantConfig :=
  { shop with datasource := { shop.datasource with settings := { maxResults := some 100 } } }

theorem cappedShop_valid : cappedShop.faults = [] := by decide +kernel

/-- A question in which nothing is found has no limit, though the tenant has a cap. -/
theorem limit_weather :
    NamesNoShortcut ⟨cappedShop, cappedShop_valid⟩ "weather" ∧
      ∃ query, (parse ⟨cappedShop, cappedShop_valid⟩ [] "weather").node = .select query ∧
        query.limit ≠ (Schema.mk cappedShop cappedShop_valid).maxResults := by
  have hlower : lowercase "weather".toList = "weather".toList := by decide +kernel
  have hfound : (withTerms (vocabulary ⟨cappedShop, cappedShop_valid⟩) []).filterMap
      (hit? "weather".toList) = [] := by decide +kernel
  have hstored : stored? ⟨cappedShop, cappedShop_valid⟩ "weather" "weather".toList = none := rfl
  refine ⟨nofun, .empty, ?_, by decide⟩
  simp only [parse, parseWith, hlower, hstored, Question.hits, hfound, List.mergeSort_nil]
  rfl

end AskSql.Question
