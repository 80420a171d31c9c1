import AskSql.Vocabulary.Index

/-! Resolution of terms against a schema and a dictionary.  A resolver keeps the index that it first
needed and goes on using it: a term put straight into the dictionary is not seen until the index is
built again.  A term added through the resolver discards the index. -/

namespace AskSql.Vocabulary

/-- A schema, the similarity that a term needs, and the index if it has been built. -/
structure Resolver where
  schema : Schema
  threshold : Rat := defaultThreshold
  index : Option TermIndex := none

namespace Resolver

/-- The index as it would be built now. -/
def freshIndex (resolver : Resolver) (dictionary : Dictionary) : TermIndex :=
  .build resolver.schema (dictionary.terms resolver.schema.tenant)

/-- The index in use. -/
def currentIndex (resolver : Resolver) (dictionary : Dictionary) : TermIndex :=
  resolver.index.getD (resolver.freshIndex dictionary)

/-- The resolver after its index has been used. -/
def indexed (resolver : Resolver) (dictionary : Dictionary) : Resolver :=
  { resolver with index := some (resolver.currentIndex dictionary) }

/-- The resolver with its index built again. -/
def refresh (resolver : Resolver) (dictionary : Dictionary) : Resolver :=
  { resolver with index := some (resolver.freshIndex dictionary) }

/-- What a phrase denotes according to an index: a canonical phrase goes before an alias, and either
before the most similar canonical phrase. -/
def lookUp (index : TermIndex) (threshold : Rat) (phrase : String) : Except Fault Term :=
  let key := normalize phrase
  match (index.find? key).or (index.closest? threshold key) with
  | some term => .ok term
  | none => .error (.unknownTerm phrase)

/-- What a phrase denotes.  A blank phrase denotes nothing, and does not need the index. -/
def resolve (resolver : Resolver) (dictionary : Dictionary) (phrase : String) :
    Except Fault Term × Resolver :=
  if (normalize phrase).isEmpty then (.error (.unknownTerm phrase), resolver)
  else
    (lookUp (resolver.currentIndex dictionary) resolver.threshold phrase,
      resolver.indexed dictionary)

/-- Whether a phrase is a canonical phrase or an alias. -/
def knows (resolver : Resolver) (dictionary : Dictionary) (phrase : String) : Bool × Resolver :=
  ((resolver.currentIndex dictionary).knows (normalize phrase), resolver.indexed dictionary)

/-- Every term of the index. -/
def terms (resolver : Resolver) (dictionary : Dictionary) : List Term × Resolver :=
  ((resolver.currentIndex dictionary).terms, resolver.indexed dictionary)

/-- The terms of the index that come from the dictionary. -/
def dictionaryTerms (resolver : Resolver) (dictionary : Dictionary) : List Term × Resolver :=
  ((resolver.currentIndex dictionary).dictionaryTerms, resolver.indexed dictionary)

/-- Adds a phrase for a column to the dictionary, unless the index or the dictionary knows the
phrase already.  Returns whether it was added. -/
def add (resolver : Resolver) (dictionary : Dictionary) (phrase table column : String)
    (aggregation : Option Aggregation) (dateField : Option String) :
    Except Fault Bool × Resolver × Dictionary :=
  let key := normalize phrase
  if key.isEmpty || isBlankText table || isBlankText column then
    (.error .blankMapping, resolver, dictionary)
  else if (resolver.currentIndex dictionary).knows key ||
      dictionary.knows resolver.schema.tenant key then
    (.ok false, resolver, dictionary)
  else
    let term : Term :=
      { canonical := trimmed phrase, table := trimmed table, column := trimmed column,
        aggregation, dateField }
    (.ok true, { resolver with index := none }, dictionary.add resolver.schema.tenant term)

end Resolver

end AskSql.Vocabulary
