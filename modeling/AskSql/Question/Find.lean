import AskSql.Query
import AskSql.Question.Phrase

/-! Where the phrases of a vocabulary occur in a question.  Only the first occurrence of a phrase
counts.  The hits are in the order of their positions, a longer one before a shorter one, and those
alike in both in the order of the vocabulary. -/

namespace AskSql.Question

/-- The number of characters before the first occurrence of `needle` in a text, added to
`offset`. -/
def offsetFrom (needle : List Char) (offset : Nat) : List Char → Option Nat
  | [] => if needle.isEmpty then some offset else none
  | c :: cs =>
    if needle.isPrefixOf (c :: cs) then some offset else offsetFrom needle (offset + 1) cs

/-- The number of characters before the first occurrence of `needle` in `text`. -/
def offset? (needle text : List Char) : Option Nat :=
  offsetFrom needle 0 text

/-- Whether `needle` occurs in `text`. -/
def occurs (needle text : List Char) : Bool :=
  (offset? needle text).isSome

/-- The hit of a phrase in a text in small letters. -/
def hit? (text : List Char) (phrase : Phrase) : Option Match := do
  let needle := phrase.text.toList
  let position ← offset? needle text
  let hit : Match := ⟨phrase.text, none, none, none, position, needle.length⟩
  match phrase.target with
  | .entity name => return { hit with entity := some name }
  | .attr holder name => return { hit with entity := some holder, attr := some name }
  | .aggregation function => return { hit with aggregation := some function }

/-- Whether one hit may come before another. -/
def before (a b : Match) : Bool :=
  a.position < b.position || (a.position == b.position && b.length ≤ a.length)

/-- The hits of the phrases of a vocabulary in a text in small letters. -/
def hits (vocabulary : List Phrase) (text : List Char) : List Match :=
  (vocabulary.filterMap (hit? text)).mergeSort before

end AskSql.Question
