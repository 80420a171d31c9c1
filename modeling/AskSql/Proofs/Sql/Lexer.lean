import AskSql.Dialect
import AskSql.Sql.Literal

/-! How a database reads a string literal.  In every dialect the literal ends at the first single
quote that is not written twice.  MySQL, as it is configured unless it is told otherwise, reads a
backslash inside the literal as the start of an escape as well; what it makes of the character
after it is left to a table.  The literals of SQLite and SQL Server read back as the strings they
were written for; those of MySQL do as long as none of their backslashes starts an escape. -/

namespace AskSql.Sql

variable {escape : Char → Option Char} {text cs rest : List Char}

/-- Puts a character in front of the content of a literal. -/
def pushContent (c : Char) (read : List Char × List Char) : List Char × List Char :=
  (c :: read.1, read.2)

/-- The content of a literal from inside it and what comes after its closing quote.  `escape` says
which characters a backslash escapes, and what the two are read as. -/
def readContent (escape : Char → Option Char) : List Char → Option (List Char × List Char)
  | [] => none
  | [c] => if c = '\'' then some ([], []) else none
  | c :: d :: cs =>
    if c = '\'' then
      if d = '\'' then (readContent escape cs).map (pushContent '\'')
      else some ([], d :: cs)
    else if c = '\\' then
      match escape d with
      | some e => (readContent escape cs).map (pushContent e)
      | none => (readContent escape (d :: cs)).map (pushContent '\\')
    else (readContent escape (d :: cs)).map (pushContent c)

/-- The escapes of a dialect's string literals, where `table` is that of MySQL. -/
def escapes (dialect : Dialect) (table : Char → Option Char) : Char → Option Char :=
  match dialect with
  | .mySql => table
  | .sqlite | .sqlServer => fun _ => none

/-- The string literal at the front of a text, read, and what comes after it. -/
def readLiteral (dialect : Dialect) (table : Char → Option Char) (text : String) :
    Option (String × String) :=
  match text.toList with
  | '\'' :: cs =>
    (readContent (escapes dialect table) cs).map fun read =>
      (String.ofList read.1, String.ofList read.2)
  | _ => none

/-! ### One character of the content -/

/-- The text inside a literal for `cs`, with the closing quote. -/
def closedContent (cs : List Char) : List Char :=
  doubled '\'' cs ++ ['\'']

/-- Such a text begins with the first character of `cs`, or with the closing quote. -/
theorem closedContent_eq_cons (cs : List Char) :
    ∃ rest, closedContent cs = cs.headD '\'' :: rest := by
  cases cs with
  | nil => exact ⟨[], rfl⟩
  | cons c cs =>
    by_cases hc : c = '\''
    · exact ⟨_, by simp [closedContent, doubled, hc]; rfl⟩
    · exact ⟨_, by simp [closedContent, doubled, hc]; rfl⟩

theorem closedContent_cons (c : Char) (cs : List Char) :
    closedContent (c :: cs) =
      if c = '\'' then '\'' :: '\'' :: closedContent cs else c :: closedContent cs := by
  by_cases hc : c = '\'' <;> simp [closedContent, doubled, hc]

theorem readContent_quote (escape : Char → Option Char) (cs : List Char) :
    readContent escape (closedContent ('\'' :: cs)) =
      (readContent escape (closedContent cs)).map (pushContent '\'') := by
  rw [closedContent_cons, if_pos rfl, readContent, if_pos rfl, if_pos rfl]

theorem readContent_ordinary {c : Char} (hquote : c ≠ '\'') (hback : c ≠ '\\') (cs : List Char) :
    readContent escape (closedContent (c :: cs)) =
      (readContent escape (closedContent cs)).map (pushContent c) := by
  obtain ⟨rest, hrest⟩ := closedContent_eq_cons cs
  rw [closedContent_cons, if_neg hquote, hrest, readContent, if_neg hquote, if_neg hback]

theorem readContent_backslash (hrest : closedContent cs = cs.headD '\'' :: rest) :
    readContent escape (closedContent ('\\' :: cs)) =
      match escape (cs.headD '\'') with
      | some e => (readContent escape rest).map (pushContent e)
      | none => (readContent escape (closedContent cs)).map (pushContent '\\') := by
  rw [closedContent_cons, if_neg (by decide), hrest, readContent, if_neg (by decide), if_pos rfl]

/-! ### How much content a text has room for -/

/-- Twice the room that a text has for the content of a literal: a quote takes up half of it, since
it is written twice. -/
def room : List Char → Nat
  | [] => 0
  | c :: cs => (if c = '\'' then 1 else 2) + room cs

@[simp] theorem room_nil : room [] = 0 :=
  rfl

@[simp] theorem room_cons (c : Char) (cs : List Char) :
    room (c :: cs) = (if c = '\'' then 1 else 2) + room cs :=
  rfl

@[simp] theorem room_closedContent (cs : List Char) :
    room (closedContent cs) = 2 * cs.length + 1 := by
  induction cs with
  | nil => rfl
  | cons c cs ih =>
    rw [closedContent_cons]
    split <;> simp_all <;> omega

theorem length_pushContent_lt {c : Char} {n : Nat} {read? : Option (List Char × List Char)}
    {read : List Char × List Char} (h : read?.map (pushContent c) = some read)
    (hn : ∀ before, read? = some before → 2 * before.1.length < n) :
    2 * read.1.length < 2 + n := by
  obtain ⟨before, hbefore, rfl⟩ := Option.map_eq_some_iff.1 h
  have hlt := hn before hbefore
  simp only [pushContent, List.length_cons]
  omega

/-- The content that is read has room in the text, and so has the closing quote. -/
theorem length_lt_room {read : List Char × List Char} (h : readContent escape text = some read) :
    2 * read.1.length < room text := by
  induction text using readContent.induct escape generalizing read with
  | case1 => simp [readContent] at h
  | case2 =>
    obtain rfl : ([], []) = read := by simpa [readContent] using h
    simp
  | case3 c hc => simp [readContent, hc] at h
  | case4 cs ih =>
    rw [readContent, if_pos rfl, if_pos rfl] at h
    have hlt := length_pushContent_lt h fun _ => ih
    simp only [room_cons, if_true]
    omega
  | case5 d cs hd =>
    obtain rfl : ([], d :: cs) = read := by simpa [readContent, hd] using h
    simp only [room_cons, List.length_nil, if_true]
    omega
  | case6 d cs e he hback ih =>
    simp only [readContent, if_neg hback, if_true, he] at h
    have hlt := length_pushContent_lt h fun _ => ih
    simp only [room_cons, if_neg hback]
    omega
  | case7 d cs he hback ih =>
    simp only [readContent, if_neg hback, if_true, he] at h
    simpa using length_pushContent_lt h fun _ => ih
  | case8 c d cs hquote hback ih =>
    rw [readContent, if_neg hquote, if_neg hback] at h
    simpa [hquote] using length_pushContent_lt h fun _ => ih

/-! ### What is read back -/

/-- No backslash starts an escape, neither before the character after it nor, if it is the last
character, before the closing quote. -/
def EscapeFree (escape : Char → Option Char) (cs : List Char) : Prop :=
  ∀ front back, cs = front ++ '\\' :: back → escape (back.headD '\'') = none

theorem escapeFree_cons {c : Char} (hc : c ≠ '\\') :
    EscapeFree escape (c :: cs) ↔ EscapeFree escape cs := by
  constructor
  · intro h front back heq
    exact h (c :: front) back (by rw [heq]; rfl)
  · intro h front back heq
    cases front with
    | nil => exact absurd (List.cons.inj heq).1 hc
    | cons d front => exact h front back (List.cons.inj heq).2

theorem escapeFree_backslash :
    EscapeFree escape ('\\' :: cs) ↔ escape (cs.headD '\'') = none ∧ EscapeFree escape cs := by
  constructor
  · exact fun h => ⟨h [] cs rfl, fun front back heq => h ('\\' :: front) back (by rw [heq]; rfl)⟩
  · rintro ⟨hhead, h⟩ front back heq
    cases front with
    | nil => rwa [← (List.cons.inj heq).2]
    | cons d front => exact h front back (List.cons.inj heq).2

/-- One more character is read back exactly if the rest is. -/
theorem map_pushContent_eq_iff {c : Char} {read? : Option (List Char × List Char)} :
    read?.map (pushContent c) = some (c :: cs, rest) ↔ read? = some (cs, rest) := by
  cases read? <;> simp [pushContent, Prod.ext_iff]

/-- After an escape too little is left to read the whole content back. -/
theorem map_pushContent_escape_ne {e : Char} {after : List Char}
    (hafter : closedContent cs = cs.headD '\'' :: after) :
    (readContent escape after).map (pushContent e) ≠ some ('\\' :: cs, rest) := by
  intro h
  obtain ⟨read, hread, hpush⟩ := Option.map_eq_some_iff.1 h
  obtain rfl : read.1 = cs := (List.cons.inj (Prod.mk.inj hpush).1).2
  have hlt := length_lt_room hread
  have hroom := congrArg room hafter
  rw [room_closedContent, room_cons] at hroom
  split at hroom <;> omega

/-- The content of a literal is read back exactly if no escape starts in it. -/
theorem readContent_closedContent_iff (escape : Char → Option Char) (cs : List Char) :
    readContent escape (closedContent cs) = some (cs, []) ↔ EscapeFree escape cs := by
  induction cs with
  | nil =>
    have hread : readContent escape (closedContent []) = some ([], []) := rfl
    simp [hread, EscapeFree]
  | cons c cs ih =>
    by_cases hquote : c = '\''
    · rw [hquote, readContent_quote, map_pushContent_eq_iff, ih, escapeFree_cons (by decide)]
    · by_cases hback : c = '\\'
      · obtain ⟨after, hafter⟩ := closedContent_eq_cons cs
        rw [hback, readContent_backslash hafter, escapeFree_backslash]
        cases escape (cs.headD '\'') with
        | none => simp only [map_pushContent_eq_iff, ih, true_and]
        | some e => simp only [map_pushContent_escape_ne hafter, reduceCtorEq, false_and]
      · rw [readContent_ordinary hquote hback, map_pushContent_eq_iff, ih, escapeFree_cons hback]

/-- Nothing is an escape in a dialect whose backslashes are ordinary characters. -/
theorem escapeFree_escapes_iff (dialect : Dialect) (table : Char → Option Char) (cs : List Char) :
    EscapeFree (escapes dialect table) cs ↔ (dialect = .mySql → EscapeFree table cs) := by
  cases dialect <;> simp [escapes, EscapeFree]

/-- A string literal is read as one literal that covers the whole text and holds the string, in
MySQL exactly if no backslash of the string starts an escape there. -/
theorem readLiteral_literal_iff (table : Char → Option Char) (dialect : Dialect) (s : String) :
    readLiteral dialect table (literal dialect (.str s)) = some (s, "") ↔
      (dialect = .mySql → EscapeFree table s.toList) := by
  have hread : readLiteral dialect table (literal dialect (.str s)) =
      (readContent (escapes dialect table) (closedContent s.toList)).map fun read =>
        (String.ofList read.1, String.ofList read.2) := by
    simp [readLiteral, literal, quoteLiteral, closedContent]
  -- A content is determined by the string made of it, so the pairs may be compared as lists.
  have hiff : readLiteral dialect table (literal dialect (.str s)) = some (s, "") ↔
      readContent (escapes dialect table) (closedContent s.toList) = some (s.toList, []) := by
    rw [hread, Option.map_eq_some_iff]
    constructor
    · rintro ⟨⟨content, rest⟩, hcontent, heq⟩
      obtain ⟨hs, hrest⟩ := Prod.mk.inj heq
      obtain rfl : rest = [] := by simpa using congrArg String.toList hrest
      rw [hcontent, ← hs, String.toList_ofList]
    · exact fun h => ⟨_, h, by simp⟩
  rw [hiff, readContent_closedContent_iff, escapeFree_escapes_iff]

example : readLiteral .mySql some (literal .mySql (.str "C:\\")) = none := by decide

/-- Where MySQL reads a backslash and a quote as a quote, a string that begins with the two ends its
literal there: all that follows is read as part of the statement. -/
theorem readLiteral_escaped_quote {table : Char → Option Char} (hquote : table '\'' = some '\'')
    {c : Char} (hc : c ≠ '\'') (cs : List Char) :
    readLiteral .mySql table (literal .mySql (.str (String.ofList ('\\' :: '\'' :: c :: cs)))) =
      some ("'", String.ofList (closedContent (c :: cs))) := by
  have htext : (literal .mySql (.str (String.ofList ('\\' :: '\'' :: c :: cs)))).toList =
      '\'' :: '\\' :: '\'' :: '\'' :: c :: closedContent cs := by
    simp [literal, quoteLiteral, closedContent, doubled, hc]
  rw [readLiteral, htext, closedContent_cons, if_neg hc]
  simp [escapes, readContent, hquote, hc, pushContent]

end AskSql.Sql
