import AskSql.Vocabulary.Term

/-! The phrases that are looked for in a question, in small letters, each with what it points at.
The configured vocabulary comes first, entity by entity, then the aggregations; dictionary terms
follow.  A phrase occurs once for each target. -/

namespace AskSql.Question

open Vocabulary

/-- What a phrase points at. -/
inductive Target
  | entity (name : String)
  | attr (holder name : String)
  | aggregation (function : Aggregation)
deriving Repr, DecidableEq

/-- A phrase and what it points at. -/
structure Phrase where
  text : String
  target : Target
deriving Repr, DecidableEq

/-- A phrase as it is looked for: trimmed and in small letters. -/
def searchText (phrase : String) : String :=
  String.ofList (Text.lowercase (Text.trim phrase.toList))

/-- `known` with one more phrase at the end, unless it is empty or known already. -/
def pushPhrase (known : List Phrase) (phrase : Phrase) : List Phrase :=
  if phrase.text.isEmpty || known.contains phrase then known else known ++ [phrase]

/-- The phrases of an entity and its attributes. -/
def entityPhrases (schema : Schema) (name : String) (entity : Entity) : List Phrase :=
  (entity.vocabulary ++ extraEntityNames schema name).map (⟨searchText ·, .entity name⟩) ++
    entity.attributes.entries.flatMap fun (attrName, attr) =>
      (attr.vocabulary ++ extraAttributeNames schema name attrName).map
        (⟨searchText ·, .attr name attrName⟩)

/-- The phrases of a schema, with those that occur twice. -/
def schemaPhrases (schema : Schema) : List Phrase :=
  schema.entities.entries.flatMap (fun (name, entity) => entityPhrases schema name entity) ++
    schema.config.functions.aggregations.values.flatMap fun term =>
      term.vocabulary.map (⟨searchText ·, .aggregation term.function⟩)

/-- The phrases of a schema. -/
def vocabulary (schema : Schema) : List Phrase :=
  (schemaPhrases schema).foldl pushPhrase []

/-- The phrases of a dictionary term.  A term without an entity has none. -/
def termPhrases (term : Term) : List Phrase :=
  match term.entity with
  | none => []
  | some entity =>
    let target :=
      match term.attr with
      | some attr => Target.attr entity attr
      | none => Target.entity entity
    (term.canonical :: term.aliases).map (⟨searchText ·, target⟩)

/-- `known` with the phrases of dictionary terms. -/
def withTerms (known : List Phrase) (terms : List Term) : List Phrase :=
  (terms.flatMap termPhrases).foldl pushPhrase known

end AskSql.Question
