import AskSql.Numeric.Binary64
import AskSql.Question.Find

/-! The query that a question asks for.  A question that contains the name of a stored statement
asks for that; otherwise the phrases found in it give the entities, the attributes and the
aggregations, and the intent says what becomes of them. -/

namespace AskSql.Question

open Text Vocabulary

/-- The answer of a stored statement to a question. -/
def storedAnswer (text : String) (name : String) (stored : StoredQuery) (position length : Nat) :
    ParsedQuestion :=
  { text
    node := .shortcut ⟨name, stored.sql, stored.description, stored.parameters⟩
    hits := [⟨name, none, none, none, position, length⟩]
    confidence := 1
    intent := .shortcut
    warnings := [] }

/-- The first stored statement whose name occurs in the question.  `lowered` is the question in
small letters; a blank name never occurs. -/
def stored? (schema : Schema) (text : String) (lowered : List Char) : Option ParsedQuestion :=
  schema.config.mappings.shortcuts.entries.findSome? fun (name, stored) =>
    let key := lowercase name.toList
    if blank key then none
    else (offset? key lowered).map (storedAnswer text name stored · key.length)

/-- Whether one of the phrases, which are trimmed and put in small letters first, occurs in a
text. -/
def mentions (lowered : List Char) (phrases : List String) : Bool :=
  phrases.any fun phrase =>
    let key := (searchText phrase).toList
    !key.isEmpty && occurs key lowered

/-- The intent of a question. -/
def intentOf (triggers : IntentTriggers) (hits : List Match) (lowered : List Char) : Intent :=
  if hits.any (·.aggregation.isSome) then .aggregate
  else if mentions lowered triggers.select then .select
  else if mentions lowered triggers.count then .count
  else if mentions lowered triggers.sum then .sum
  else if mentions lowered triggers.filter then .filter
  else .select

/-- The distinct entities of the hits, in order. -/
def mentionedEntities (hits : List Match) : List EntityRef :=
  (hits.filterMap (·.entity)).eraseDups.map (⟨·, none⟩)

/-- The attribute of a hit. -/
def attributeOf? (hit : Match) : Option AttributeRef := do
  return ⟨← hit.entity, ← hit.attr, none⟩

/-- The distinct attributes of the hits, in order. -/
def mentionedAttributes (hits : List Match) : List AttributeRef :=
  (hits.filterMap attributeOf?).eraseDups

/-- An aggregation over an attribute.  Counting takes none, and without an attribute all that is
left is to count the rows. -/
def pair (function : Aggregation) (target : Option AttributeRef) : Aggregate :=
  match function, target with
  | .count, _ | _, none => .countAll
  | function, some target => .over function target

/-- The distinct aggregates of the hits, in order, each over the first attribute. -/
def mentionedAggregates (hits : List Match) : List Aggregate :=
  ((hits.filterMap (·.aggregation)).map (pair · (mentionedAttributes hits).head?)).eraseDups

/-- The first attribute whose values can be summed. -/
def firstNumeric? (schema : Schema) (targets : List AttributeRef) : Option AttributeRef :=
  targets.find? fun target =>
    (schema.attribute? target.entity target.name).any (·.type.isNumeric)

/-- The select that the hits of a question make, and its warnings. -/
def assemble (schema : Schema) (hits : List Match) (intent : Intent) : Select × List String :=
  let query : Select := { entities := mentionedEntities hits }
  let targets := mentionedAttributes hits
  let (query, warnings) :=
    match intent with
    | .aggregate => (query.setAggregates (mentionedAggregates hits), [])
    | .count => (query.setAggregates [.countAll], [])
    | .sum =>
      match firstNumeric? schema targets with
      | some target => (query.setAggregates [.over .sum target], [])
      | none => (query, ["Sum requested but no numeric attribute was mentioned"])
    | _ => (targets.foldl Select.pushAttribute query, [])
  (query.setLimit schema.maxResults, warnings)

/-- The share of a question's words that its hits cover, at most one. -/
def confidenceOf (text : String) (hits : List Match) : Rat :=
  let found := (hits.map (·.term)).eraseDups.length
  let total := max (words text.toList).length 1
  if total ≤ found then 1 else Numeric.Binary64.round (mkRat found total)

/-- What the hits of a question ask for. -/
def ofHits (schema : Schema) (text : String) (lowered : List Char) (hits : List Match) :
    ParsedQuestion :=
  if hits.isEmpty then .unresolved text
  else
    let intent := intentOf schema.config.functions.triggers hits lowered
    let (query, warnings) := assemble schema hits intent
    ⟨text, .select query, hits, confidenceOf text hits, intent, warnings⟩

/-- What a question asks for, where `known` is the vocabulary of the schema and `terms` are
dictionary terms. -/
def parseWith (schema : Schema) (known : List Phrase) (terms : List Term) (text : String) :
    ParsedQuestion :=
  let lowered := lowercase text.toList
  match stored? schema text lowered with
  | some parsed => parsed
  | none => ofHits schema text lowered (hits (withTerms known terms) lowered)

/-- What a question asks for, given dictionary terms. -/
def parse (schema : Schema) (terms : List Term) (text : String) : ParsedQuestion :=
  parseWith schema (vocabulary schema) terms text

end AskSql.Question
