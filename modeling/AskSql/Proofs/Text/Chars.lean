/-! Statements about the characters of a text.  They are decided by going through the text, where
the general instance would go through every character there is. -/

namespace AskSql.Text

variable (p : Char → Prop) [DecidablePred p]

instance decidableForallMem (cs : List Char) : Decidable (∀ c ∈ cs, p c) :=
  List.decidableBAll p cs

instance decidableExistsMem (cs : List Char) : Decidable (∃ c ∈ cs, p c) :=
  List.decidableBEx p cs

instance decidableForallMemOption (c? : Option Char) : Decidable (∀ c ∈ c?, p c) :=
  Option.decidableForallMem c?

instance decidableExistsMemOption (c? : Option Char) : Decidable (∃ c ∈ c?, p c) :=
  Option.decidableExistsMem c?

end AskSql.Text
