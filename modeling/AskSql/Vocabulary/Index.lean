import AskSql.Vocabulary.Similarity
import AskSql.Vocabulary.Term

/-! An index of terms.  Terms are added one by one; one whose canonical phrase is blank, or equal in
normal form to that of an earlier term, is left out together with its aliases.  An alias that two
terms share belongs to the first. -/

namespace AskSql.Vocabulary

/-- The terms kept, the normal forms of their canonical phrases, and where each normal form leads.
The terms from `dictionaryStart` on come from a dictionary. -/
structure TermIndex where
  terms : List Term := []
  canonical : List String := []
  exact : Keyed Nat := .empty
  aliases : Keyed Nat := .empty
  dictionaryStart : Nat := 0
deriving Repr

namespace TermIndex

/-- The index without terms. -/
def empty : TermIndex := {}

/-- `aliases` with one more phrase leading to `position`, unless it is blank or leads elsewhere. -/
def putAlias (position : Nat) (aliases : Keyed Nat) (phrase : String) : Keyed Nat :=
  let key := normalize phrase
  if key.isEmpty || aliases.contains key then aliases else aliases.insert key position

/-- The index with one more term. -/
def push (index : TermIndex) (term : Term) : TermIndex :=
  let key := normalize term.canonical
  if key.isEmpty || index.exact.contains key then index
  else
    let position := index.terms.length
    { index with
      terms := index.terms ++ [term]
      canonical := index.canonical ++ [key]
      exact := index.exact.insert key position
      aliases := term.aliases.foldl (putAlias position) index.aliases }

/-- The index of a schema's terms and of a list of dictionary terms. -/
def build (schema : Schema) (dictionary : List Term) : TermIndex :=
  let base := (schemaTerms schema).foldl push empty
  (dictionary.map (located schema)).foldl push { base with dictionaryStart := base.terms.length }

/-- The term that a normal form names as a canonical phrase or else as an alias. -/
def find? (index : TermIndex) (key : String) : Option Term :=
  (index.exact.get? key).or (index.aliases.get? key) |>.bind (index.terms[·]?)

/-- Whether a normal form names a term. -/
def knows (index : TermIndex) (key : String) : Bool :=
  (index.find? key).isSome

/-- The term whose canonical phrase is most similar to a normal form. -/
def closest? (index : TermIndex) (threshold : Rat) (key : String) : Option Term :=
  (bestMatch threshold key index.canonical).bind fun (position, _) => index.terms[position]?

/-- The terms that come from the dictionary. -/
def dictionaryTerms (index : TermIndex) : List Term :=
  index.terms.drop index.dictionaryStart

end TermIndex

end AskSql.Vocabulary
