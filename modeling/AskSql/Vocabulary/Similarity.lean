import AskSql.Numeric.Binary64

/-! How similar two terms are, from 0 to 100: the share of the longer term that need not be edited
to get the other.  The quotient, the difference and the product are each rounded to binary64. -/

namespace AskSql.Vocabulary

open Numeric

/-- The rest of the next row of the table of edit distances.  `above` is the row before, from the
entry diagonally above on, and `left` is the entry before. -/
def rowAfter (x : Char) (left : Nat) : List Char → List Nat → List Nat
  | y :: ys, diagonal :: up :: above =>
    let entry := min (min (left + 1) (up + 1)) (diagonal + if x = y then 0 else 1)
    entry :: rowAfter x entry ys (up :: above)
  | _, _ => []

/-- The next row of the table of edit distances, for one more character `x` of the first text. -/
def nextRow (ys : List Char) (row : List Nat) (x : Char) : List Nat :=
  let first := row.headD 0 + 1
  first :: rowAfter x first ys row

/-- The least number of insertions, deletions and replacements that turn `xs` into `ys`. -/
def editDistance (xs ys : List Char) : Nat :=
  (xs.foldl (nextRow ys) (List.range (ys.length + 1))).getLastD 0

/-- The similarity of two texts. -/
def similarity (a b : String) : Rat :=
  let (xs, ys) := (a.toList, b.toList)
  if xs.isEmpty && ys.isEmpty then 100
  else
    let share := Binary64.round (mkRat (editDistance xs ys) (max xs.length ys.length))
    Binary64.round (Binary64.round (1 - share) * 100)

/-- The similarity that a term needs to be taken for another, if nothing else is asked. -/
def defaultThreshold : Rat := 80

/-- The better of a hit and the candidate with index `index`: the candidate if it reaches the
threshold and beats the hit. -/
def better (threshold : Rat) (target : String) (best : Option (Nat × Rat)) (candidate : String)
    (index : Nat) : Option (Nat × Rat) :=
  let score := similarity target candidate
  if score < threshold then best
  else
    match best with
    | some (_, high) => if score ≤ high then best else some (index, score)
    | none => some (index, score)

/-- The index and similarity of the candidate most similar to `target`, if it reaches the threshold.
The first of several counts. -/
def bestMatch (threshold : Rat) (target : String) (candidates : List String) :
    Option (Nat × Rat) :=
  candidates.zipIdx.foldl (fun best (candidate, index) =>
    better threshold target best candidate index) none

end AskSql.Vocabulary
