import AskSql.Sql.Identifier
import AskSql.Proofs.Text.Taken

/-! How a database takes the text of a condition apart: into words, quoted texts and single marks.
What is quoted ends at the first closing quote that is not written twice, and MySQL reads a
backslash in it as escaping the next character.  A text is not taken apart if its quotes are not
closed or if it has a comment, which would hide what comes behind it. -/

namespace AskSql.Sql

open Text

/-- What a condition is made of. -/
inductive Token
  | word (text : List Char)
  | quoted (text : List Char)
  | mark (c : Char)
deriving Repr, DecidableEq

/-- Whether `c` can stand in a word. -/
def isNamePart (c : Char) : Bool :=
  isWordChar c || isAlphanumeric c

/-- What closes the quotes that `c` opens. -/
def closing? (dialect : Dialect) (c : Char) : Option Char :=
  if c = '\'' ∨ c = '"' then some c
  else if c = '`' ∧ dialect ≠ .sqlServer then some c
  else if c = '[' ∧ dialect ≠ .mySql then some ']'
  else none

/-- Whether `c` begins a comment behind the mark `before`. -/
def beginsComment (dialect : Dialect) (before : Option Char) (c : Char) : Bool :=
  (before == some '-' && c == '-') || (before == some '/' && c == '*') ||
    (dialect == .mySql && c == '#')

/-- Where a reader stands: outside words and quotes, behind a mark or not; in a word or in quotes,
of which it has read `text`, backwards; behind the backslash of an escape; behind a quote that
closes unless it is written twice; or in a comment. -/
inductive Reader
  | code (before : Option Char)
  | word (text : List Char)
  | quoted (close : Char) (text : List Char)
  | escaped (close : Char) (text : List Char)
  | shut (close : Char) (text : List Char)
  | comment
deriving Repr, DecidableEq

namespace Reader

/-- What `c` is where no word and no quotes go on. -/
def enter (dialect : Dialect) (before : Option Char) (c : Char) : List Token × Reader :=
  if isNamePart c then ([], .word [c])
  else
    match closing? dialect c with
    | some close => ([], .quoted close [c])
    | none =>
      if beginsComment dialect before c then ([], .comment)
      else if isBlank c then ([], .code none)
      else ([.mark c], .code (some c))

/-- The tokens that end before `c`, and where the reader stands behind it. -/
def next (dialect : Dialect) : Reader → Char → List Token × Reader
  | .code before, c => enter dialect before c
  | .word text, c =>
    if isNamePart c then ([], .word (c :: text))
    else (.word text.reverse :: (enter dialect none c).1, (enter dialect none c).2)
  | .quoted close text, c =>
    if c = close then ([], .shut close (c :: text))
    else if c = '\\' ∧ dialect = .mySql ∧ close ≠ '`' then ([], .escaped close (c :: text))
    else ([], .quoted close (c :: text))
  | .escaped close text, c => ([], .quoted close (c :: text))
  | .shut close text, c =>
    if c = close then ([], .quoted close (c :: text))
    else (.quoted text.reverse :: (enter dialect none c).1, (enter dialect none c).2)
  | .comment, _ => ([], .comment)

/-- The tokens that end in a text, and where the reader stands behind it. -/
def read (dialect : Dialect) : Reader → List Char → List Token × Reader
  | reader, [] => ([], reader)
  | reader, c :: cs =>
    ((reader.next dialect c).1 ++ ((reader.next dialect c).2.read dialect cs).1,
      ((reader.next dialect c).2.read dialect cs).2)

/-- What has not ended yet, where a text may end. -/
def rest? : Reader → Option (List Token)
  | .code _ => some []
  | .word text => some [.word text.reverse]
  | .shut _ text => some [.quoted text.reverse]
  | .quoted _ _ | .escaped _ _ | .comment => none

/-- The tokens of a text that a reader goes on with. -/
def tokens? (dialect : Dialect) (reader : Reader) (text : List Char) : Option (List Token) :=
  (reader.read dialect text).2.rest?.map ((reader.read dialect text).1 ++ ·)

end Reader

/-- The tokens of a text. -/
def tokens? (dialect : Dialect) (text : List Char) : Option (List Token) :=
  (Reader.code none).tokens? dialect text

variable {dialect : Dialect} {reader : Reader} {front back text : List Char} {ts more : List Token}

/-! ### Reading on -/

namespace Reader

@[simp] theorem read_nil (reader : Reader) : reader.read dialect [] = ([], reader) :=
  rfl

theorem read_append (reader : Reader) (front back : List Char) :
    reader.read dialect (front ++ back) =
      ((reader.read dialect front).1 ++ ((reader.read dialect front).2.read dialect back).1,
        ((reader.read dialect front).2.read dialect back).2) := by
  induction front generalizing reader with
  | nil => rfl
  | cons c front ih =>
    simp only [List.cons_append, read, ih, List.append_assoc]

theorem tokens?_cons (reader : Reader) (c : Char) (text : List Char) :
    reader.tokens? dialect (c :: text) =
      ((reader.next dialect c).2.tokens? dialect text).map ((reader.next dialect c).1 ++ ·) := by
  simp only [tokens?, read, Option.map_map]
  rcases ((reader.next dialect c).2.read dialect text).2.rest? with _ | rest
  · rfl
  · simp

theorem tokens?_append (reader : Reader) (front back : List Char) :
    reader.tokens? dialect (front ++ back) =
      ((reader.read dialect front).2.tokens? dialect back).map
        ((reader.read dialect front).1 ++ ·) := by
  simp only [tokens?, read_append, Option.map_map]
  rcases ((reader.read dialect front).2.read dialect back).2.rest? with _ | rest
  · rfl
  · simp

end Reader

/-! ### What comes before a reader -/

/-- What a reader that has read `front` knows about it. -/
def Reader.Behind (front : List Char) : Reader → Prop
  | .code _ => ∀ b ∈ front.getLast?, isNamePart b = false
  | .word text => ∃ before, front = before ++ text.reverse ∧ text ≠ [] ∧
      (∀ c ∈ text, isNamePart c = true) ∧ ∀ b ∈ before.getLast?, isNamePart b = false
  | .quoted close _ | .escaped close _ => close ∈ ['\'', '"', '`', ']']
  | .shut close _ => close ∈ ['\'', '"', '`', ']'] ∧ front.getLast? = some close
  | .comment => True

theorem closing?_mem {c close : Char} (h : closing? dialect c = some close) :
    close ∈ ['\'', '"', '`', ']'] := by
  unfold closing? at h
  split at h
  · rename_i hc
    obtain rfl := Option.some.inj h
    rcases hc with rfl | rfl <;> decide
  · split at h
    · rename_i hc
      obtain rfl := Option.some.inj h
      rw [hc.1]
      decide
    · split at h
      · obtain rfl := Option.some.inj h
        decide
      · contradiction

theorem isNamePart_of_closing {close : Char} (h : close ∈ ['\'', '"', '`', ']']) :
    isNamePart close = false := by
  have hall : ∀ c ∈ ['\'', '"', '`', ']'], isNamePart c = false := by decide
  exact hall close h

namespace Reader

theorem behind_enter {before : Option Char} {c : Char}
    (hfront : isNamePart c = true → ∀ b ∈ front.getLast?, isNamePart b = false) :
    Behind (front ++ [c]) (enter dialect before c).2 := by
  unfold enter
  split
  · rename_i hc
    exact ⟨front, rfl, by simp, by simpa using hc, hfront hc⟩
  · rename_i hc
    split
    · rename_i close hclose
      exact closing?_mem hclose
    · split
      · trivial
      · split <;> simpa [Behind] using hc

theorem Behind.next (h : Behind front reader) (c : Char) :
    Behind (front ++ [c]) (reader.next dialect c).2 := by
  cases reader with
  | code before => exact behind_enter fun _ => h
  | word text =>
    obtain ⟨before, rfl, hne, htext, hbefore⟩ := h
    rw [Reader.next]
    split
    · rename_i hc
      refine ⟨before, by simp, by simp, ?_, hbefore⟩
      simpa using ⟨hc, htext⟩
    · rename_i hc
      exact behind_enter fun hname => absurd hname hc
  | quoted close text =>
    rw [Reader.next]
    split
    · rename_i hc
      exact ⟨h, by rw [List.getLast?_concat, hc]⟩
    · split <;> exact h
  | escaped close text => exact h
  | shut close text =>
    obtain ⟨hclose, hlast⟩ := h
    rw [Reader.next]
    split
    · exact hclose
    · refine behind_enter fun _ b hb => ?_
      obtain rfl : close = b := Option.some.inj (hlast.symm.trans hb)
      exact isNamePart_of_closing hclose
  | comment => trivial

theorem Behind.read (h : Behind front reader) (text : List Char) :
    Behind (front ++ text) (reader.read dialect text).2 := by
  induction text generalizing front reader with
  | nil => simpa using h
  | cons c text ih => simpa [Reader.read] using ih (h.next c)

theorem behind_start (text : List Char) :
    Behind text ((Reader.code none).read dialect text).2 :=
  @Behind.read dialect (.code none) [] (by simp [Behind]) text

end Reader

/-! ### Words -/

theorem Reader.not_word_of_enter {before : Option Char} {c : Char} {w : List Char} :
    Token.word w ∉ (enter dialect before c).1 := by
  unfold enter
  split
  · simp
  · split
    · simp
    · split
      · simp
      · split <;> simp

/-- A word ends before a character that cannot stand in it. -/
theorem Reader.word_of_next {c : Char} {w : List Char}
    (h : Token.word w ∈ (reader.next dialect c).1) :
    reader = .word w.reverse ∧ isNamePart c = false := by
  cases reader with
  | code before => exact absurd h not_word_of_enter
  | word text =>
    rw [Reader.next] at h
    split at h
    · simp at h
    · rename_i hc
      rcases List.mem_cons.1 h with hw | hw
      · obtain rfl := Token.word.inj hw
        simpa using hc
      · exact absurd hw not_word_of_enter
  | quoted close text =>
    rw [Reader.next] at h
    split at h
    · simp at h
    · split at h <;> simp at h
  | escaped close text => simp [Reader.next] at h
  | shut close text =>
    rw [Reader.next] at h
    split at h
    · simp at h
    · rcases List.mem_cons.1 h with hw | hw
      · cases hw
      · exact absurd hw not_word_of_enter
  | comment => simp [Reader.next] at h

/-- A word that is read stands by itself in the text. -/
theorem Reader.exists_of_word {w : List Char} (hbehind : Behind front reader)
    (h : reader.tokens? dialect text = some ts) (hw : Token.word w ∈ ts) :
    ∃ before after, front ++ text = before ++ (w ++ after) ∧
      (∀ b ∈ before.getLast?, isNamePart b = false) ∧ ∀ c ∈ after.head?, isNamePart c = false := by
  induction text generalizing front reader ts with
  | nil =>
    cases reader with
    | word text =>
      obtain ⟨before, rfl, -, -, hbefore⟩ := hbehind
      obtain rfl : [Token.word text.reverse] = ts := by simpa [Reader.tokens?, rest?] using h
      obtain rfl : w = text.reverse := by simpa using hw
      exact ⟨before, [], by simp, hbefore, by simp⟩
    | code =>
      obtain rfl : [] = ts := by simpa [Reader.tokens?, rest?] using h
      contradiction
    | shut close text =>
      obtain rfl : [Token.quoted text.reverse] = ts := by simpa [Reader.tokens?, rest?] using h
      simp at hw
    | quoted | escaped | comment => simp [Reader.tokens?, rest?] at h
  | cons c text ih =>
    rw [Reader.tokens?_cons] at h
    obtain ⟨more, hmore, rfl⟩ := Option.map_eq_some_iff.1 h
    rcases List.mem_append.1 hw with hended | hlater
    · obtain ⟨rfl, hc⟩ := word_of_next hended
      obtain ⟨before, rfl, -, -, hbefore⟩ := hbehind
      exact ⟨before, c :: text, by simp, hbefore, by simpa using hc⟩
    · simpa using ih (hbehind.next c) hmore hlater

/-- A text without a word has no such token. -/
theorem not_mem_of_hasWord {key : String} {w : List Char}
    (hletters : ∀ c ∈ key.toList, c.isAlpha = true)
    (hne : key.toList ≠ []) (h : tokens? dialect text = some ts) (hword : hasWord key text = false)
    (hw : Token.word w ∈ ts) : w.map fold ≠ key.toList := by
  intro hfold
  obtain ⟨before, after, htext, hbefore, hafter⟩ :=
    @Reader.exists_of_word dialect (.code none) [] text ts w (by simp [Reader.Behind]) h hw
  have hmark : ∀ {c}, isNamePart c = false → isWordChar c = false := fun hc => by
    rw [isNamePart, Bool.or_eq_false_iff] at hc
    exact hc.1
  rw [List.nil_append] at htext
  rw [htext, hasWord_of_keyword hletters hne hfold (fun b hb => hmark (hbefore b hb))
    fun c hc => hmark (hafter c hc)] at hword
  contradiction

/-! ### Texts side by side -/

/-- Whether `c` is a blank, a parenthesis, a comma or a dot.  None of them goes on with a token or
begins a comment. -/
def isSeparatorMark (c : Char) : Bool :=
  [' ', '(', ')', ',', '.'].contains c

/-- The tokens of such a character. -/
def markTokens (c : Char) : List Token :=
  if isBlank c then [] else [.mark c]

theorem enter_separatorMark {c : Char} (h : isSeparatorMark c = true) (dialect : Dialect)
    (before : Option Char) :
    Reader.enter dialect before c =
      (markTokens c, .code (if isBlank c then none else some c)) := by
  have hall : ∀ d ∈ [' ', '(', ')', ',', '.'], isNamePart d = false ∧
      (d ≠ '\'' ∧ d ≠ '"' ∧ d ≠ '`' ∧ d ≠ '[') ∧ d ≠ '-' ∧ d ≠ '*' ∧ d ≠ '#' := by decide
  obtain ⟨hname, hquotes, hdash, hstar, hsharp⟩ := hall c (List.contains_iff_mem.1 h)
  have hclosing : closing? dialect c = none := by simp [closing?, hquotes]
  have hcomment : beginsComment dialect before c = false := by
    simp [beginsComment, hdash, hstar, hsharp]
  rw [Reader.enter, hname, hclosing, hcomment, markTokens]
  cases isBlank c <;> rfl

/-- Behind such a character a text is read as it is by itself. -/
theorem tokens?_behind {c : Char} (h : isSeparatorMark c = true) (text : List Char) :
    (Reader.code (if isBlank c then none else some c)).tokens? dialect text =
      tokens? dialect text := by
  have hall : ∀ d ∈ [' ', '(', ')', ',', '.'], d ≠ '-' ∧ d ≠ '/' := by decide
  obtain ⟨hdash, hslash⟩ := hall c (List.contains_iff_mem.1 h)
  cases text with
  | nil => rfl
  | cons d text =>
    have hcomment : beginsComment dialect (if isBlank c then none else some c) d =
        beginsComment dialect none d := by
      cases isBlank c <;> simp [beginsComment, hdash, hslash]
    have henter : Reader.enter dialect (if isBlank c then none else some c) d =
        Reader.enter dialect none d := by
      simp only [Reader.enter, hcomment]
    simp only [tokens?, Reader.tokens?, Reader.read, Reader.next, henter]

/-- A blank, a parenthesis, a comma or a dot ends what comes before it. -/
theorem Reader.Behind.next_separatorMark (hbehind : Behind front reader) {c : Char}
    {rest : List Token} (h : isSeparatorMark c = true) (hrest : reader.rest? = some rest) :
    reader.next dialect c = (rest ++ markTokens c, .code (if isBlank c then none else some c)) := by
  have hall : ∀ d ∈ [' ', '(', ')', ',', '.'], isNamePart d = false ∧
      d ∉ ['\'', '"', '`', ']'] := by decide
  obtain ⟨hname, hquote⟩ := hall c (List.contains_iff_mem.1 h)
  cases reader with
  | code before =>
    obtain rfl : [] = rest := Option.some.inj hrest
    exact enter_separatorMark h dialect before
  | word text =>
    obtain rfl := Option.some.inj hrest
    simp [Reader.next, hname, enter_separatorMark h]
  | shut close text =>
    obtain rfl := Option.some.inj hrest
    have hne : c ≠ close := by
      rintro rfl
      exact hquote hbehind.1
    simp [Reader.next, hne, enter_separatorMark h]
  | quoted | escaped | comment => contradiction

/-- The tokens on both sides of such a character. -/
theorem tokens?_append_cons {c : Char} (h : tokens? dialect front = some ts)
    (hc : isSeparatorMark c = true) (back : List Char) :
    tokens? dialect (front ++ c :: back) =
      (tokens? dialect back).map fun more => ts ++ (markTokens c ++ more) := by
  obtain ⟨rest, hrest, rfl⟩ := Option.map_eq_some_iff.1 h
  have hnext :=
    @Reader.Behind.next_separatorMark dialect _ _ (Reader.behind_start front) _ _ hc hrest
  rw [tokens?, Reader.tokens?_append, Reader.tokens?_cons, hnext, tokens?_behind hc, Option.map_map]
  simp [Function.comp_def]

theorem tokens?_nil : tokens? dialect [] = some [] :=
  rfl

theorem tokens?_cons {c : Char} (hc : isSeparatorMark c = true) (back : List Char) :
    tokens? dialect (c :: back) = (tokens? dialect back).map (markTokens c ++ ·) :=
  tokens?_append_cons tokens?_nil hc back

/-! ### Single tokens -/

theorem Reader.read_word {w : List Char} (hw : ∀ c ∈ w, isNamePart c = true) (text : List Char) :
    (Reader.word text).read dialect w = ([], .word (w.reverse ++ text)) := by
  induction w generalizing text with
  | nil => rfl
  | cons c w ih =>
    have hc := hw c (by simp)
    have hmore := ih (fun d hd => hw d (List.mem_cons_of_mem c hd)) (c :: text)
    simp [Reader.read, Reader.next, hc, hmore]

theorem tokens?_word {w : List Char} (hne : w ≠ []) (hw : ∀ c ∈ w, isNamePart c = true) :
    tokens? dialect w = some [.word w] := by
  obtain ⟨c, w, rfl⟩ := List.exists_cons_of_ne_nil hne
  obtain ⟨hc, hmore⟩ := List.forall_mem_cons.1 hw
  simp [tokens?, Reader.tokens?, Reader.read, Reader.next, Reader.enter, hc, Reader.read_word hmore,
    Reader.rest?]

/-- Whether a backslash escapes what follows it, between quotes that `close` closes. -/
def Escapes (dialect : Dialect) (close : Char) : Prop :=
  dialect = .mySql ∧ close ≠ '`'

instance (dialect : Dialect) (close : Char) : Decidable (Escapes dialect close) :=
  inferInstanceAs (Decidable (_ ∧ _))

theorem Reader.read_doubled {close : Char} {content : List Char}
    (h : Escapes dialect close → '\\' ∉ content) (text : List Char) :
    (Reader.quoted close text).read dialect (doubled close content) =
      ([], .quoted close ((doubled close content).reverse ++ text)) := by
  induction content generalizing text with
  | nil => rfl
  | cons c content ih =>
    have hmore : Escapes dialect close → '\\' ∉ content := fun hescapes hmem =>
      h hescapes (List.mem_cons_of_mem c hmem)
    by_cases hc : c = close
    · have hdoubled : doubled close (c :: content) = close :: close :: doubled close content := by
        simp [doubled, hc]
      simp [hdoubled, Reader.read, Reader.next, ih hmore]
    · have hdoubled : doubled close (c :: content) = c :: doubled close content := by
        simp [doubled, hc]
      have hplain : ¬(c = '\\' ∧ dialect = .mySql ∧ close ≠ '`') := by
        rintro ⟨rfl, hescapes⟩
        exact h hescapes (by simp)
      simp [hdoubled, Reader.read, Reader.next, hc, hplain, ih hmore]

end AskSql.Sql
