import AskSql.Proofs.Schema
import AskSql.Proofs.Vocabulary.Index
import AskSql.Vocabulary.Resolver

/-! Which phrases of a configuration resolve to what they name.  An entity or an attribute has one
term, under all of its phrases; the term is kept unless its first phrase names an earlier one, and
then none of its phrases leads to it.  So a phrase that nothing else goes by resolves exactly if the
first phrase of what it names is not taken. -/

namespace AskSql.Vocabulary

variable {schema : Schema} {entity : String} {attr : Option String} {term : Term}

/-! ### What a configuration names -/

/-- What the ontology names: its entities and their attributes, each with its entity. -/
def named (schema : Schema) : List (String × Option String) :=
  schema.entities.entries.flatMap fun (name, entity) =>
    (name, none) :: entity.attributes.entries.map fun (attr, _) => (name, some attr)

/-- The phrases of an entity or of one of its attributes: its vocabulary, the names that the tenant
adds, and its own name, that of an attribute also qualified. -/
def phrases (schema : Schema) (entity : String) (attr : Option String) : List String :=
  match attr with
  | none =>
    match schema.entities.get? entity with
    | some e => e.vocabulary ++ extraEntityNames schema entity ++ [entity]
    | none => []
  | some name =>
    match schema.attribute? entity name with
    | some a =>
      a.vocabulary ++ extraAttributeNames schema entity name ++ [entity ++ "." ++ name, name]
    | none => []

/-- The term of an entity or of one of its attributes, if the primary key of the entity has a column
and so has the attribute. -/
def schemaTerm? (schema : Schema) (entity : String) (attr : Option String) : Option Term := do
  let e ← schema.entities.get? entity
  let table ← schema.table? entity
  let head ← entityTerm? schema entity e table
  match attr with
  | none => some head
  | some name => attributeTerm? schema entity e table name (← e.attributes.get? name)

theorem mem_entityTerms_iff {e : Entity} (he : schema.entities.get? entity = some e) :
    term ∈ entityTerms schema entity e ↔ ∃ attr, schemaTerm? schema entity attr = some term := by
  rw [entityTerms]
  cases htable : schema.table? entity with
  | none => simp [schemaTerm?, he, htable]
  | some table =>
    dsimp only
    cases hhead : entityTerm? schema entity e table with
    | none => simp [schemaTerm?, he, htable, hhead]
    | some head =>
      rw [List.mem_cons, List.mem_filterMap, Option.exists]
      simp only [schemaTerm?, he, htable, hhead, Option.bind_eq_bind, Option.bind_some,
        Option.some.injEq, Option.bind_eq_some_iff, ← Keyed.mem_entries_iff, Prod.exists]
      rw [eq_comm]

theorem mem_schemaTerms_iff :
    term ∈ schemaTerms schema ↔ ∃ entity attr, schemaTerm? schema entity attr = some term := by
  rw [schemaTerms, List.mem_flatMap]
  constructor
  · rintro ⟨⟨entity, e⟩, he, hterm⟩
    exact ⟨entity, (mem_entityTerms_iff ((Keyed.mem_entries_iff _).1 he)).1 hterm⟩
  · rintro ⟨entity, attr, hterm⟩
    obtain ⟨e, he, -⟩ := Option.bind_eq_some_iff.1 hterm
    exact ⟨(entity, e), (Keyed.mem_entries_iff _).2 he, (mem_entityTerms_iff he).2 ⟨attr, hterm⟩⟩

/-- What the term of an entity or of an attribute is made of. -/
structure IsTermOf (schema : Schema) (entity : String) (attr : Option String) (term : Term) :
    Prop where
  entity_eq : term.entity = some entity
  attr_eq : term.attr = attr
  phrases_eq : phrases schema entity attr = term.canonical :: term.aliases
  mem_named : (entity, attr) ∈ named schema
  canonical : isBlankText term.canonical = false

theorem isTermOf_of_entityTerm? {e : Entity} {table : TableMapping}
    (he : schema.entities.get? entity = some e)
    (h : entityTerm? schema entity e table = some term) : IsTermOf schema entity none term := by
  rw [entityTerm?] at h
  obtain ⟨key, -, h⟩ := Option.bind_eq_some_iff.1 h
  obtain ⟨column, -, h⟩ := Option.bind_eq_some_iff.1 h
  have hink := (Schema.entity_vocabulary he).2
  split at h
  · contradiction
  · rename_i canonical rest hvocabulary
    obtain rfl := Option.some.inj h
    refine ⟨rfl, rfl,
      by simp [phrases, he, hvocabulary], ?_, hink canonical (by simp [hvocabulary])⟩
    exact List.mem_flatMap.2 ⟨(entity, e), (Keyed.mem_entries_iff _).2 he, by simp⟩

theorem isTermOf_of_attributeTerm? {e : Entity} {table : TableMapping} {name : String}
    {a : Attribute} (he : schema.entities.get? entity = some e)
    (ha : e.attributes.get? name = some a)
    (h : attributeTerm? schema entity e table name a = some term) :
    IsTermOf schema entity (some name) term := by
  rw [attributeTerm?] at h
  obtain ⟨column, -, h⟩ := Option.bind_eq_some_iff.1 h
  have hattr : schema.attribute? entity name = some a := by
    rw [Schema.attribute?, he]
    exact ha
  have hink := (Schema.attribute_vocabulary hattr).2
  split at h
  · contradiction
  · rename_i canonical rest hvocabulary
    obtain rfl := Option.some.inj h
    refine ⟨rfl, rfl,
      by simp [phrases, hattr, hvocabulary], ?_, hink canonical (by simp [hvocabulary])⟩
    refine List.mem_flatMap.2
      ⟨(entity, e), (Keyed.mem_entries_iff _).2 he, List.mem_cons_of_mem _ ?_⟩
    exact List.mem_map.2 ⟨(name, a), (Keyed.mem_entries_iff _).2 ha, rfl⟩

theorem isTermOf_of_schemaTerm? (h : schemaTerm? schema entity attr = some term) :
    IsTermOf schema entity attr term := by
  obtain ⟨e, he, h⟩ := Option.bind_eq_some_iff.1 h
  obtain ⟨table, -, h⟩ := Option.bind_eq_some_iff.1 h
  obtain ⟨head, hhead, h⟩ := Option.bind_eq_some_iff.1 h
  cases attr with
  | none =>
    obtain rfl := Option.some.inj h
    exact isTermOf_of_entityTerm? he hhead
  | some name =>
    obtain ⟨a, ha, h⟩ := Option.bind_eq_some_iff.1 h
    exact isTermOf_of_attributeTerm? he ha h

/-- A term goes by the normal forms of the phrases of what it names. -/
theorem IsTermOf.goesBy_iff (h : IsTermOf schema entity attr term) (key : String) :
    term.goesBy key = true ↔ ∃ phrase ∈ phrases schema entity attr, normalize phrase = key := by
  rw [h.phrases_eq]
  simp [Term.goesBy]

/-! ### Resolution -/

/-- Whether a term is the first of `terms` that its canonical phrase names. -/
def IsFirst (terms : List Term) (term : Term) : Prop :=
  terms.find? (·.isNamed (normalize term.canonical)) = some term

instance (terms : List Term) (term : Term) : Decidable (IsFirst terms term) :=
  inferInstanceAs (Decidable (_ = _))

/-- The term of a schema is kept if it is the first that its canonical phrase names. -/
theorem mem_terms_build_iff :
    term ∈ (TermIndex.build schema []).terms ↔
      ∃ entity attr, schemaTerm? schema entity attr = some term ∧
      IsFirst (schemaTerms schema) term := by
  rw [TermIndex.terms_build, List.map_nil, List.append_nil, mem_foldl_keep]
  constructor
  · rintro (h | ⟨-, -, h⟩)
    · contradiction
    · obtain ⟨entity, attr, hterm⟩ := mem_schemaTerms_iff.1 (List.mem_of_find?_eq_some h)
      exact ⟨entity, attr, hterm, h⟩
  · rintro ⟨entity, attr, hterm, h⟩
    exact Or.inr ⟨(isTermOf_of_schemaTerm? hterm).canonical, rfl, h⟩

/-- Whatever a phrase resolves to is a term of the index. -/
theorem mem_of_lookUp {index : TermIndex} {threshold : Rat} {phrase : String}
    (hlawful : index.Lawful)
    (h : Resolver.lookUp index threshold phrase = .ok term) : term ∈ index.terms := by
  rw [Resolver.lookUp] at h
  split at h
  · rename_i found hfound
    obtain rfl := Except.ok.inj h
    rcases Option.or_eq_some_iff.1 hfound with hfound | ⟨-, hfound⟩
    · rw [hlawful.find?_eq] at hfound
      exact termFor?_mem hfound
    · exact TermIndex.closest?_mem hfound
  · contradiction

/-- A phrase that only one term of the index goes by resolves to it. -/
theorem lookUp_of_goesBy {index : TermIndex} {threshold : Rat} {phrase : String}
    (hlawful : index.Lawful) (hphrase : isBlankText phrase = false) (hterm : term ∈ index.terms)
    (hgoes : term.goesBy (normalize phrase) = true)
    (honly : ∀ other ∈ index.terms, other.goesBy (normalize phrase) = true → other = term) :
    Resolver.lookUp index threshold phrase = .ok term := by
  have hsome : (termFor? index.terms (normalize phrase)).isSome = true := by
    rw [termFor?_isSome ((normalize_isEmpty phrase).trans hphrase)]
    exact List.any_eq_true.2 ⟨term, hterm, hgoes⟩
  obtain ⟨found, hfound⟩ := Option.isSome_iff_exists.1 hsome
  obtain rfl := honly found (termFor?_mem hfound) (termFor?_goesBy hfound)
  rw [Resolver.lookUp, hlawful.find?_eq, hfound]
  rfl

/-- A phrase of an entity or of an attribute that is the same, in normal form, as no phrase of any
other. -/
structure IsOwnPhrase (schema : Schema) (entity : String) (attr : Option String) (phrase : String) :
    Prop where
  mem : phrase ∈ phrases schema entity attr
  nonempty : (normalize phrase).isEmpty = false
  only : ∀ other ∈ named schema, other ≠ (entity, attr) →
    ∀ p ∈ phrases schema other.1 other.2, normalize p ≠ normalize phrase

/-- Whether a resolver without a dictionary takes a phrase for an entity or for an attribute. -/
def ResolvesTo (schema : Schema) (threshold : Rat) (phrase entity : String) (attr : Option String) :
    Prop :=
  ∃ term, (Resolver.resolve ⟨schema, threshold, none⟩ .empty phrase).1 = .ok term ∧
    term.entity = some entity ∧ term.attr = attr

theorem resolve_eq_lookUp {threshold : Rat} {phrase : String}
    (h : (normalize phrase).isEmpty = false) :
    (Resolver.resolve ⟨schema, threshold, none⟩ .empty phrase).1 =
      Resolver.lookUp (.build schema []) threshold phrase := by
  rw [Resolver.resolve, if_neg (by simp [h])]
  rfl

/-- What a phrase resolves to has a term, the first under its canonical phrase. -/
theorem exists_of_resolvesTo {threshold : Rat} {phrase : String}
    (hphrase : (normalize phrase).isEmpty = false)
    (h : ResolvesTo schema threshold phrase entity attr) :
    ∃ term, schemaTerm? schema entity attr = some term ∧ IsFirst (schemaTerms schema) term := by
  obtain ⟨term, hterm, hentity, hattr⟩ := h
  have hlawful := TermIndex.build_lawful schema []
  rw [resolve_eq_lookUp hphrase] at hterm
  obtain ⟨entity', attr', hof, hfirst⟩ := mem_terms_build_iff.1 (mem_of_lookUp hlawful hterm)
  have hnames := isTermOf_of_schemaTerm? hof
  obtain rfl : entity' = entity := Option.some.inj (hnames.entity_eq.symm.trans hentity)
  obtain rfl : attr' = attr := hnames.attr_eq.symm.trans hattr
  exact ⟨term, hof, hfirst⟩

/-- A phrase that nothing else goes by resolves to what it names if the term of that is the first
under its canonical phrase. -/
theorem resolvesTo_of_isFirst {threshold : Rat} {phrase : String}
    (h : IsOwnPhrase schema entity attr phrase) (hof : schemaTerm? schema entity attr = some term)
    (hfirst : IsFirst (schemaTerms schema) term) :
    ResolvesTo schema threshold phrase entity attr := by
  have hlawful := TermIndex.build_lawful schema []
  have hnames := isTermOf_of_schemaTerm? hof
  have hink : isBlankText phrase = false := (normalize_isEmpty phrase).symm.trans h.nonempty
  have hkept := mem_terms_build_iff.2 ⟨entity, attr, hof, hfirst⟩
  have hgoes : term.goesBy (normalize phrase) = true :=
    (hnames.goesBy_iff (normalize phrase)).2 ⟨phrase, h.mem, rfl⟩
  refine ⟨term, ?_, hnames.entity_eq, hnames.attr_eq⟩
  rw [resolve_eq_lookUp h.nonempty]
  refine lookUp_of_goesBy hlawful hink hkept hgoes ?_
  intro other hother hgoes
  obtain ⟨entity', attr', hof', -⟩ := mem_terms_build_iff.1 hother
  have hnames' := isTermOf_of_schemaTerm? hof'
  obtain ⟨p, hp, hnormal⟩ := (hnames'.goesBy_iff _).1 hgoes
  by_cases hsame : (entity', attr') = (entity, attr)
  · obtain ⟨rfl, rfl⟩ := Prod.mk.inj hsame
    exact Option.some.inj (hof'.symm.trans hof)
  · exact absurd hnormal (h.only _ hnames'.mem_named hsame p hp)

/-! ### What has a term -/

/-- The column of an attribute. -/
def column? (schema : Schema) (entity name : String) : Option String :=
  (schema.table? entity).bind (·.columns.get? name)

theorem exists_entityTerm?_iff {e : Entity} {table : TableMapping}
    (he : schema.entities.get? entity = some e) (htable : schema.table? entity = some table) :
    (∃ term, entityTerm? schema entity e table = some term) ↔
      ∃ key, schema.primaryKey? entity = some key ∧ (column? schema entity key).isSome := by
  obtain ⟨canonical, rest, hvocabulary⟩ :=
    List.exists_cons_of_ne_nil (Schema.entity_vocabulary he).1
  simp only [Schema.primaryKey?, he, column?, htable, Option.bind_some]
  constructor
  · rintro ⟨term, h⟩
    rw [entityTerm?] at h
    obtain ⟨key, hkey, h⟩ := Option.bind_eq_some_iff.1 h
    obtain ⟨column, hcolumn, -⟩ := Option.bind_eq_some_iff.1 h
    exact ⟨key, hkey, by rw [hcolumn]; rfl⟩
  · rintro ⟨key, hkey, hcolumn⟩
    obtain ⟨column, hcolumn⟩ := Option.isSome_iff_exists.1 hcolumn
    simp [entityTerm?, hkey, hcolumn, hvocabulary]

theorem exists_attributeTerm?_iff {e : Entity} {table : TableMapping} {name : String}
    {a : Attribute} (ha : schema.attribute? entity name = some a)
    (htable : schema.table? entity = some table) :
    (∃ term, attributeTerm? schema entity e table name a = some term) ↔
      (column? schema entity name).isSome := by
  obtain ⟨canonical, rest, hvocabulary⟩ :=
    List.exists_cons_of_ne_nil (Schema.attribute_vocabulary ha).1
  simp only [column?, htable, Option.bind_some]
  constructor
  · rintro ⟨term, h⟩
    rw [attributeTerm?] at h
    obtain ⟨column, hcolumn, -⟩ := Option.bind_eq_some_iff.1 h
    rw [hcolumn]
    rfl
  · intro hcolumn
    obtain ⟨column, hcolumn⟩ := Option.isSome_iff_exists.1 hcolumn
    simp [attributeTerm?, hcolumn, hvocabulary]

/-- An entity whose primary key has a column has a term, and so has each of its attributes that has
a column. -/
theorem exists_schemaTerm?_iff {phrase : String} (hphrase : phrase ∈ phrases schema entity attr) :
    (∃ term, schemaTerm? schema entity attr = some term) ↔
      (∃ key, schema.primaryKey? entity = some key ∧ (column? schema entity key).isSome) ∧
        ∀ name ∈ attr, (column? schema entity name).isSome := by
  cases htable : schema.table? entity with
  | none => simp [schemaTerm?, htable, column?]
  | some table =>
    cases he : schema.entities.get? entity with
    | none => simp [schemaTerm?, he, Schema.primaryKey?]
    | some e =>
      rw [← exists_entityTerm?_iff he htable]
      simp only [schemaTerm?, he, htable, Option.bind_eq_bind, Option.bind_some,
        Option.bind_eq_some_iff]
      cases attr with
      | none => simp
      | some name =>
        cases ha : schema.attribute? entity name with
        | none => simp [phrases, ha] at hphrase
        | some a =>
          have hget : e.attributes.get? name = some a := by
            simpa [Schema.attribute?, he] using ha
          simp only [Option.mem_def, Option.some.injEq, forall_eq', hget,
            ← @exists_attributeTerm?_iff schema entity e table name a ha htable]
          exact ⟨fun ⟨term, head, hhead, hterm⟩ => ⟨⟨head, hhead⟩, term, hterm⟩,
            fun ⟨⟨head, hhead⟩, term, hterm⟩ => ⟨term, head, hhead, hterm⟩⟩

/-- A phrase that nothing else goes by resolves to the entity or the attribute that it names exactly
if that has a term, and no term before it goes by its canonical phrase.  It has one exactly if the
primary key of the entity has a column and so has the attribute. -/
theorem resolvesTo_iff {threshold : Rat} {phrase : String}
    (h : IsOwnPhrase schema entity attr phrase) :
    (ResolvesTo schema threshold phrase entity attr ↔
      ∃ term, schemaTerm? schema entity attr = some term ∧ IsFirst (schemaTerms schema) term) ∧
    ((∃ term, schemaTerm? schema entity attr = some term) ↔
      (∃ key, schema.primaryKey? entity = some key ∧ (column? schema entity key).isSome) ∧
        ∀ name ∈ attr, (column? schema entity name).isSome) := by
  refine ⟨⟨exists_of_resolvesTo h.nonempty, ?_⟩, exists_schemaTerm?_iff h.mem⟩
  rintro ⟨term, hof, hfirst⟩
  exact resolvesTo_of_isFirst h hof hfirst

/-! ### Two parties -/

/-- Clients and suppliers, who are both called parties before anything else. -/
def trade : TenantConfig where
  tenant := "trade"
  ontology :=
    { entities := .ofList
        [("client", ⟨"Client", ["parties", "clients"], "",
          .ofList [("id", ⟨.integer, ["client id"], true, none, false, none⟩)]⟩),
         ("supplier", ⟨"Supplier", ["parties", "vendors"], "",
          .ofList [("number", ⟨.integer, ["supplier number"], true, none, false, none⟩)]⟩)]
      relationships := .empty }
  functions := ⟨.ofList [("max", ⟨.max, ["highest"], .dynamic, ""⟩)], .empty, {}⟩
  datasource :=
    ⟨"trade", "sqlite", "trade.db",
     .ofList [("client", ⟨"Clients", .ofList [("id", "ClientId")], none⟩),
              ("supplier", ⟨"Suppliers", .ofList [("number", "SupplierNo")], none⟩)], {}⟩
  mappings := ⟨"trade", {}, {}, .empty⟩

theorem trade_valid : trade.faults = [] := by decide +kernel

/-- The trade as a schema. -/
def tradeSchema : Schema := ⟨trade, trade_valid⟩

/-- Nothing but the clients is called clients and nothing but the suppliers is called vendors.  Both
have columns; the clients are found, and the suppliers, who come after them, are not. -/
theorem resolvesTo_clients_not_vendors :
    (IsOwnPhrase tradeSchema "client" none "clients" ∧
      (column? tradeSchema "client" "id").isSome ∧
      ResolvesTo tradeSchema defaultThreshold "clients" "client" none) ∧
    IsOwnPhrase tradeSchema "supplier" none "vendors" ∧
      (column? tradeSchema "supplier" "number").isSome ∧
      ¬ResolvesTo tradeSchema defaultThreshold "vendors" "supplier" none := by
  have hclients : IsOwnPhrase tradeSchema "client" none "clients" :=
    ⟨by decide +kernel, by decide +kernel, by decide +kernel⟩
  have hvendors : IsOwnPhrase tradeSchema "supplier" none "vendors" :=
    ⟨by decide +kernel, by decide +kernel, by decide +kernel⟩
  refine ⟨⟨hclients, by decide +kernel, ?_⟩, hvendors, by decide +kernel, fun h => ?_⟩
  · have hkey : tradeSchema.primaryKey? "client" = some "id" := by decide +kernel
    obtain ⟨term, hterm⟩ := (@resolvesTo_iff _ _ _ defaultThreshold _ hclients).2.2
      ⟨⟨"id", hkey, by decide +kernel⟩, by simp⟩
    have hfirst : ∀ term ∈ schemaTerm? tradeSchema "client" none,
        IsFirst (schemaTerms tradeSchema) term := by decide +kernel
    exact (resolvesTo_iff hclients).1.2 ⟨term, hterm, hfirst term hterm⟩
  · have htaken : ∀ term ∈ schemaTerm? tradeSchema "supplier" none,
        ¬IsFirst (schemaTerms tradeSchema) term := by decide +kernel
    obtain ⟨term, hterm, hfirst⟩ := (resolvesTo_iff hvendors).1.1 h
    exact htaken term hterm hfirst

end AskSql.Vocabulary
