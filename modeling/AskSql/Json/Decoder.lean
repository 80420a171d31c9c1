import AskSql.Json.Value

/-! Decoding of typed documents.  A decoder reads a form directly, so that a part it does not look
at may be anything the grammar allows.  A record is written as an object, whose unknown fields are
passed over and whose known fields occur at most once, or as an array of its fields in order. -/

namespace AskSql.Json

/-- A decoder of values of type `α`. -/
abbrev Decoder (α : Type) := Form → Option α

namespace Decoder

/-- A string. -/
def text : Decoder String
  | .string pieces => stringOf? pieces
  | _ => none

/-- A truth value. -/
def flag : Decoder Bool
  | .bool b => some b
  | _ => none

/-- A natural number of 32 bits. -/
def natural : Decoder Nat
  | .number n =>
    match n.value? with
    | some (.int (.ofNat k)) => if k < Numeric.twoTo 32 then some k else none
    | _ => none
  | _ => none

/-- A list. -/
def list {α : Type} (item : Decoder α) : Decoder (List α)
  | .array items => items.mapM item
  | _ => none

/-- A value that may be null. -/
def nullable {α : Type} (value : Decoder α) : Decoder (Option α)
  | .null => some none
  | form => (value form).map some

/-- A map, of which the last entry for a name counts. -/
def keyed {α : Type} (value : Decoder α) : Decoder (Keyed α)
  | .object fields => do
    let entries ← fields.mapM fun (name, form) => do return (← stringOf? name, ← value form)
    return Keyed.ofList entries
  | _ => none

/-- One of several names, given as a string or as the only field of an object, with null for its
value. -/
def choice {α : Type} (names : List (String × α)) : Decoder α
  | .string pieces => stringOf? pieces >>= (List.lookup · names)
  | .object [(name, .null)] => stringOf? name >>= (List.lookup · names)
  | _ => none

/-- The fields of a record by name. -/
structure Fields where
  values : List (String × Form)

/-- The fields `names` of a record. -/
def record (names : List String) : Decoder Fields
  | .object fields => do
    let entries ← fields.mapM fun (name, form) => do return (← stringOf? name, form)
    let known := entries.filter fun e => names.contains e.1
    if (known.map (·.1)).Nodup then some ⟨known⟩ else none
  | .array items => if items.length ≤ names.length then some ⟨names.zip items⟩ else none
  | _ => none

/-- The value of a field that must be there. -/
def Fields.required {α : Type} (fields : Fields) (name : String) (value : Decoder α) : Option α :=
  fields.values.lookup name >>= value

/-- The value of a field, or `default` if it is not there. -/
def Fields.orElse {α : Type} (fields : Fields) (name : String) (value : Decoder α) (default : α) :
    Option α :=
  match fields.values.lookup name with
  | some form => value form
  | none => some default

end Decoder

end AskSql.Json
