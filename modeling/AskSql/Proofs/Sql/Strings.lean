import AskSql.Sql.Literal

/-! The string literals of a statement, as a reader of SQL finds them: a literal begins at a single
quote and ends at the next one that is not written twice. -/

namespace AskSql.Sql

variable {text front back rest : List Char} {strings strings' : List String}

/-- The contents of the string literals of a text.  `content` is the part that has been read of a
literal in which the text begins, backwards. -/
def stringsFrom : Option (List Char) → List Char → List String
  | _, [] => []
  | none, c :: cs => if c = '\'' then stringsFrom (some []) cs else stringsFrom none cs
  | some content, '\'' :: '\'' :: cs => stringsFrom (some ('\'' :: content)) cs
  | some content, c :: cs =>
    if c = '\'' then String.ofList content.reverse :: stringsFrom none cs
    else stringsFrom (some (c :: content)) cs

/-- The contents of the string literals of a text, in order. -/
def stringsIn (text : String) : List String :=
  stringsFrom none text.toList

/-- A literal reads back as what was written in it. -/
theorem stringsFrom_doubled (content text rest : List Char) (h : rest.head? ≠ some '\'') :
    stringsFrom (some content) (doubled '\'' text ++ '\'' :: rest) =
      String.ofList (content.reverse ++ text) :: stringsFrom none rest := by
  induction text generalizing content with
  | nil =>
    cases rest with
    | nil => simp [doubled, stringsFrom]
    | cons c rest =>
      have hc : c ≠ '\'' := by simpa using h
      simp [doubled, stringsFrom, hc]
  | cons c text ih =>
    simp only [doubled, List.flatMap_cons] at ih ⊢
    by_cases hc : c = '\''
    · simp [hc, stringsFrom, ih]
    · simp [hc, stringsFrom, ih]

/-- A quote written twice would join two literals into one. -/
def Parted (front back : List Char) : Prop :=
  back.head? = some '\'' → front.getLast? ≠ some '\''

/-- `text` has the string literals `strings`, wherever it stands. -/
def Reads (text : List Char) (strings : List String) : Prop :=
  ∀ rest, Parted text rest →
    stringsFrom none (text ++ rest) = strings ++ stringsFrom none rest

theorem Reads.stringsFrom_eq (h : Reads text strings) : stringsFrom none text = strings := by
  have hread := h [] (by simp [Parted])
  simpa [stringsFrom] using hread

theorem Reads.nil : Reads [] [] :=
  fun _ _ => rfl

theorem Reads.append (hf : Reads front strings) (hb : Reads back strings')
    (hparted : Parted front back) : Reads (front ++ back) (strings ++ strings') := by
  intro rest hrest
  have hfront : Parted front (back ++ rest) := by
    cases back with
    | nil => simpa using hrest
    | cons c back => exact hparted
  have hback : Parted back rest := by
    intro hhead hlast
    exact hrest hhead (by rw [List.getLast?_append, hlast]; rfl)
  rw [List.append_assoc, hf _ hfront, hb _ hback, List.append_assoc]

/-- A text without quotes has no literals. -/
theorem reads_of_not_mem (h : '\'' ∉ text) : Reads text [] := by
  induction text with
  | nil => exact .nil
  | cons c text ih =>
    intro rest _
    have hc : c ≠ '\'' := fun heq => h (by simp [heq])
    have htext : '\'' ∉ text := fun hmem => h (List.mem_cons_of_mem c hmem)
    have hparted : Parted text rest := fun _ hlast => htext (List.mem_of_getLast? hlast)
    rw [List.cons_append, stringsFrom, if_neg hc, ih htext rest hparted]

/-- A string literal holds its string. -/
theorem reads_quoteLiteral (s : String) : Reads (quoteLiteral s).toList [s] := by
  intro rest hparted
  have hlast : ('\'' :: doubled '\'' s.toList ++ ['\'']).getLast? = some '\'' :=
    List.getLast?_concat ..
  rw [quoteLiteral, String.toList_ofList] at hparted ⊢
  rw [List.cons_append, List.cons_append, stringsFrom, if_pos rfl, List.append_assoc,
    List.singleton_append, stringsFrom_doubled _ _ _ fun hhead => hparted hhead hlast]
  simp

end AskSql.Sql
