import AskSql.Text.Blank
import AskSql.Text.Case

/-! The normal form of a term, by which terms are compared.  White space collapses to single spaces,
letters become small, the five Hebrew letters with a final form lose it, and a leading definite
article is dropped as long as something follows it. -/

namespace AskSql.Vocabulary

open Text

/-- The definite article that a term may begin with. -/
def article : Char := 'ה'

/-- A letter in the form that it has inside a word. -/
def ordinaryForm (c : Char) : Char :=
  match c with
  | 'ך' => 'כ'
  | 'ם' => 'מ'
  | 'ן' => 'נ'
  | 'ף' => 'פ'
  | 'ץ' => 'צ'
  | c => c

/-- `cs` without the definite articles at its front, the white space after each of them included.
The last character stays.  `dropped` says whether an article has just been dropped. -/
def stripArticles (dropped : Bool) : List Char → List Char
  | [] => []
  | c :: cs =>
    if dropped && isBlank c then stripArticles true cs
    else if c = article ∧ cs ≠ [] then stripArticles true cs
    else c :: cs

/-- The normal form of a term given as its characters. -/
def normalChars (cs : List Char) : List Char :=
  stripArticles false ((lowercase (collapse cs)).map ordinaryForm)

/-- The normal form of a term. -/
def normalize (term : String) : String :=
  String.ofList (normalChars term.toList)

end AskSql.Vocabulary
