import AskSql.Proofs.Idiom.Levels
import AskSql.Proofs.Idiom.Tokens
import AskSql.Proofs.Sql.Backwards

/-! Texts on which rewriting never comes to a result.  Outside SQLite the start of a week is written
with its operand in two places.  An operand with an odd number of single quotes puts what stands
between the two copies, and what the second copy has in literals, on the other side of the quotes:
an interval that was text in a literal is added now, and the operand before it, read backwards,
reaches into the first copy.  There are texts whose operand found in this way is again such a text,
only longer, so that each level asks for another one. -/

namespace AskSql.Idiom

open Text Sql

/-! ### Reading backwards -/

/-- Read backwards outside literals, with `closed` parentheses still to be opened before `text` and
`left` of them after it. -/
def Opens (closed left : Nat) (text : List Char) : Prop :=
  back (false, closed) text.reverse = some (false, left)

instance (closed left : Nat) (text : List Char) : Decidable (Opens closed left text) :=
  inferInstanceAs (Decidable (_ = _))

variable {closed left : Nat} {text front rear rest : List Char}

theorem Opens.append {between : Nat} (hf : Opens between left front)
    (hr : Opens closed between rear) :
    Opens closed left (front ++ rear) := by
  rw [Opens, List.reverse_append, back_append, hr]
  exact hf

theorem Opens.deeper (h : Opens closed left text) (k : Nat) : Opens (closed + k) (left + k) text :=
  back_deeper k h

theorem opens_of_closedBackwards (h : ClosedBackwards text) (depth : Nat) :
    Opens depth depth text := by
  have hdeeper := @Opens.deeper 0 0 text h depth
  rwa [Nat.zero_add] at hdeeper

theorem opens_replicate_close (k depth : Nat) :
    Opens depth (depth + k) (List.replicate k ')') := by
  induction k generalizing depth with
  | zero => rfl
  | succ k ih =>
    have hlast : Opens depth (depth + 1) [')'] := rfl
    rw [List.replicate_succ']
    have hrest := ih (depth + 1)
    rw [Nat.add_assoc, Nat.add_comm 1] at hrest
    exact hrest.append hlast

theorem opens_replicate_open (k depth : Nat) :
    Opens (depth + k) depth (List.replicate k '(') := by
  induction k generalizing depth with
  | zero => rfl
  | succ k ih =>
    have hlast : Opens (depth + k + 1) (depth + k) ['('] := by simp [Opens, backStep]
    rw [List.replicate_succ', ← Nat.add_assoc]
    exact (ih depth).append hlast

/-! ### Calls that are not closed -/

theorem closeCallFrom_eq_none {region : Region} {depth : Nat} (closing : Char)
    (hregion : region ≠ .code) (hstays : ∀ c, c ≠ closing → region.next c = region)
    (h : closing ∉ text) : closeCallFrom region depth text = none := by
  induction text with
  | nil => rfl
  | cons c text ih =>
    have hc : c ≠ closing := by
      rintro rfl
      simp at h
    have hrest := ih fun hmem => h (List.mem_cons_of_mem c hmem)
    simp [closeCallFrom, hregion, hstays c hc, hrest]

/-- A closed text closes no call that was opened before it. -/
theorem closeCall_eq_none_of_closed (h : Closed text) : closeCall text = none := by
  have hread := closeCallFrom_append h []
  simpa [closeCall, closeCallFrom] using hread

/-- A name before a parenthesis that is never closed stays. -/
theorem rewriteWordsFrom_unclosed {write : Idiom → Option (List Char)} {name : List Char}
    {before : Option Char} (hname : IsName name) (hrest : closeCall rest = none) :
    rewriteWordsFrom (rewriteCallAt? write) before false 0 (name ++ '(' :: rest) =
      name ++ '(' :: rewriteWordsFrom (rewriteCallAt? write) (some '(') false 0 rest := by
  have hword : ∀ c ∈ name, isWordChar c = true := fun c hc =>
    isWordChar_of_isNameChar (hname.chars c hc)
  have hopen : ∀ before, rewriteWordsFrom (rewriteCallAt? write) before false 0 ('(' :: rest) =
      '(' :: rewriteWordsFrom (rewriteCallAt? write) (some '(') false 0 rest := fun before =>
    rewriteWordsFrom_pass (Or.inl rfl)
  have hnone : rewriteCallAt? write (name ++ '(' :: rest) = none := by
    have hstart : trimStart ('(' :: rest) = '(' :: rest := trimStart_of_head ⟨'(', rfl, by decide⟩
    have hstop : ∀ c ∈ ('(' :: rest).head?, isWordChar c = false := by
      intro c hc
      obtain rfl : '(' = c := by simpa using hc
      decide
    simp only [rewriteCallAt?, callAt?, word_append hword hstop, hstart, char?_cons_self]
    cases DateFunction.ofName? name with
    | none => rfl
    | some function => simp [hrest]
  obtain ⟨c, cs, rfl⟩ := List.exists_cons_of_ne_nil hname.ne_nil
  have hquote := beq_quote_of_isWordChar (hword c (by simp))
  rw [List.cons_append] at hnone
  rw [List.cons_append, rewriteWordsFrom_pass (Or.inr (Or.inr hnone)), hquote,
    rewriteWordsFrom_dotted ⟨c, rfl, Or.inl (hword c (by simp))⟩
      (fun d hd => Or.inl (hword d (List.mem_cons_of_mem c hd))), hopen]
  rfl

/-- A text without underscores has no clock keyword. -/
theorem rewriteClocks_of_not_mem (write : Clock → List Char) (h : '_' ∉ text) :
    rewriteClocks write text = text := by
  have hself := @rewriteWordsFrom_self (rewriteClockAt? write) none text [] false
    fun front c back htext _ _ _ => by
      have hplain : '_' ∉ (word (c :: back ++ [])).1 := fun hmem => by
        have hsub := (List.takeWhile_prefix isWordChar).mem hmem
        rw [List.append_nil] at hsub
        exact h (htext ▸ List.mem_append_right front hsub)
      simpa [rewriteClockAt?, clockAt?] using clockKeyword?_of_not_mem hplain
  simpa [rewriteClocks, rewriteWords, rewriteWordsFrom] using hself

/-- A quiet text stays where no word runs into it or out of it. -/
theorem rewriteWordsFrom_quiet {write : Idiom → Option (List Char)} {before : Option Char}
    (h : isQuiet text = true) (hfree : ∀ c ∈ text.head?, isWordChar c = false)
    (hapart : Apart text rest) :
    rewriteWordsFrom (rewriteCallAt? write) before false 0 (text ++ rest) =
      text ++ rewriteWordsFrom (rewriteCallAt? write) (text.getLast?.or before) false 0 rest :=
  quiet_of_isQuiet h _ (selective_rewriteCallAt? write) before rest
    (fun b _ c hc hword => absurd hword (by simp [hfree c hc])) hapart

/-! ### Plain texts -/

/-- `text` has no quotes of any kind, closes no bracket and has no underscore. -/
def Plain (text : List Char) : Prop :=
  ∀ c ∈ text, c ∉ ['\'', '"', '`', ']', '_']

instance (text : List Char) : Decidable (Plain text) :=
  inferInstanceAs (Decidable (∀ c ∈ text, c ∉ ['\'', '"', '`', ']', '_']))

theorem Plain.append (hf : Plain front) (hr : Plain rear) : Plain (front ++ rear) :=
  fun c hc => (List.mem_append.1 hc).elim (hf c) (hr c)

theorem Plain.not_mem (h : Plain text) {c : Char} (hc : c ∈ ['\'', '"', '`', ']', '_']) :
    c ∉ text :=
  fun hmem => h c hmem hc

/-! ### The start of a week, written twice -/

/-- The text of an interval that is added behind two parentheses. -/
def added : List Char :=
  "))+INTERVAL 1 DAY".toList

/-- What reads as a literal and a backquote, and with the quotes turned around adds an interval. -/
def lure : List Char :=
  '\'' :: added ++ ['`', '\'', '`', ' ']

/-- The first argument of a call that takes the start of a week. -/
def unitArgument : List Char :=
  ['w', 'e', 'e', 'k', ',', ' ']

/-- The beginning of a call that takes the start of a week. -/
def opening : List Char :=
  "DATETRUNC".toList ++ '(' :: unitArgument

/-- The start of the week of `arg`, to be written anew. -/
def weekStart (arg : List Char) : List Char :=
  call "DATETRUNC" ["week".toList, arg]

theorem plain_added : Plain added := by decide

theorem plain_opening : Plain opening := by decide

theorem weekStart_eq (arg : List Char) : weekStart arg = opening ++ arg ++ [')'] := by
  have hunit : "week".toList ++ ", ".toList = unitArgument := by decide
  have hassoc : ∀ name : List Char, name ++ '(' :: (unitArgument ++ arg) ++ [')'] =
      name ++ '(' :: unitArgument ++ arg ++ [')'] := by simp
  rw [weekStart, call, List.intercalate_cons_of_ne_nil (by simp), List.intercalate_singleton, hunit]
  exact hassoc _

/-- How `dialect` writes the start of a week: its operand stands twice, first in parentheses and
then as the argument of `name`, with `cast` behind it. -/
structure Doubling (dialect : Dialect) where
  front : List Char
  between : List Char
  name : List Char
  cast : List Char
  ending : List Char
  closings : Nat
  notSqlite : dialect ≠ .sqlite
  render_eq : ∀ arg, renderTruncate dialect .week arg =
    front ++ arg ++ ')' :: between ++ name ++ '(' :: arg ++ cast ++ ')' :: ending
  differs : ∀ arg arg', renderTruncate dialect .week arg ≠ weekStart arg'
  named : IsName name
  plain : ∀ piece ∈ [between, name, cast, ending], Plain piece
  cast_unmarked : ∀ c ∈ cast, isMark c = false
  cast_head : ∀ c ∈ cast.head?, isWordChar c = false
  cast_last : ∀ c ∈ cast.getLast?, isBlank c = false
  between_last : ∀ c ∈ (')' :: between).getLast?, isWordChar c = false
  between_quiet : isQuiet (')' :: between) = true
  ending_quiet : isQuiet ending = true
  ending_head : ∀ c ∈ ending.head?, isWordChar c = false
  ending_last : ∀ c ∈ ending.getLast?, isWordChar c = false
  calm : ∀ piece ∈ [front, ')' :: between, cast, ending], Calm piece
  between_opens : Opens 1 closings (')' :: between ++ name ++ ['('])
  ending_opens : Opens 0 1 ending

def doublingMySql : Doubling .mySql where
  front := "DATE_SUB(DATE(".toList
  between := ", INTERVAL ".toList
  name := "WEEKDAY".toList
  cast := []
  ending := " DAY)".toList
  closings := 1
  notSqlite := by decide
  render_eq arg := by simp [renderTruncate, call, List.intercalate]
  differs arg arg' := by simp [renderTruncate, weekStart, call]
  named := by decide
  plain := by decide
  cast_unmarked := by decide
  cast_head := by decide
  cast_last := by decide
  between_last := by decide
  between_quiet := by decide
  ending_quiet := by decide
  ending_head := by decide
  ending_last := by decide
  calm := by decide
  between_opens := by decide
  ending_opens := by decide

def doublingSqlServer : Doubling .sqlServer where
  front := "DATEADD(day, -((DATEPART(weekday, ".toList
  between := " + @@DATEFIRST - 2) % 7), ".toList
  name := "CAST".toList
  cast := " AS DATE".toList
  ending := ")".toList
  closings := 3
  notSqlite := by decide
  render_eq arg := by simp [renderTruncate, castToDate, call, List.intercalate]
  differs arg arg' := by simp [renderTruncate, weekStart, call]
  named := by decide
  plain := by decide
  cast_unmarked := by decide
  cast_head := by decide
  cast_last := by decide
  between_last := by decide
  between_quiet := by decide
  ending_quiet := by decide
  ending_head := by decide
  ending_last := by decide
  calm := by decide
  between_opens := by decide
  ending_opens := by decide

namespace Doubling

variable {dialect : Dialect} (D : Doubling dialect)

/-! ### The texts -/

/-- What stands between the two copies of the operand. -/
def middle : List Char :=
  ')' :: D.between ++ D.name ++ ['(']

/-- A bracket that hides parentheses from a scan forwards, and a quote. -/
def key : List Char :=
  '[' :: List.replicate D.closings '(' ++ ['"']

def casts : Nat → List Char
  | 0 => []
  | n + 1 => casts n ++ D.cast

def endings : Nat → List Char
  | 0 => []
  | n + 1 => D.ending ++ endings n

/-- What `n` levels have put before the operand that is written twice. -/
def grown : Nat → List Char
  | 0 => []
  | n + 1 => D.key ++ D.casts n ++ D.middle ++ grown n

/-- Within double quotes, a parenthesis and two calls that are not closed there, with a lure between
them. -/
def hook : List Char :=
  '"' :: ')' :: opening ++ lure ++ opening ++ D.key

/-- The operand that is written twice within the first copy, after `n` levels. -/
def core (n : Nat) : List Char :=
  D.grown n ++ ']' :: (D.hook ++ D.casts n)

/-- The text in which one more quote is to come. -/
def stem (inner : List Char) (n : Nat) : List Char :=
  lure ++ inner ++ D.endings n ++ List.replicate D.closings ')'

/-- The operand whose start of the week is asked for after `n` levels. -/
def bait (n : Nat) : List Char :=
  D.stem (weekStart (D.core n)) n ++ ['\'']

/-- What becomes of it. -/
def caught (n : Nat) : List Char :=
  D.stem (renderTruncate dialect .week (D.core n)) n ++ ['\'']

/-- The text that is asked for after `n` levels. -/
def trap (n : Nat) (rest : List Char) : List Char :=
  weekStart (D.bait n) ++ rest

theorem core_eq (n : Nat) :
    D.core n = D.grown n ++ ([']', '"', ')'] ++ (opening ++ (lure ++ (opening ++ (D.key ++
      D.casts n))))) := by
  simp only [core, hook, List.append_assoc, List.cons_append, List.nil_append]

theorem core_succ (n : Nat) :
    D.core (n + 1) = D.key ++ D.casts n ++ D.middle ++ D.core n ++ D.cast := by
  simp [core, grown, casts]

theorem renderTruncate_eq (arg : List Char) :
    renderTruncate dialect .week arg =
      D.front ++ arg ++ D.middle ++ arg ++ D.cast ++ ')' :: D.ending := by
  rw [D.render_eq, middle]
  simp

/-! ### What the texts are made of -/

theorem mem_casts {c : Char} {n : Nat} (h : c ∈ D.casts n) : c ∈ D.cast := by
  induction n with
  | zero => simp [casts] at h
  | succ n ih =>
    rw [casts, List.mem_append] at h
    exact h.elim ih id

theorem plain_casts (n : Nat) : Plain (D.casts n) :=
  fun c hc => D.plain D.cast (by simp) c (D.mem_casts hc)

theorem plain_endings (n : Nat) : Plain (D.endings n) := by
  induction n with
  | zero => exact fun c hc => absurd hc (by simp [endings])
  | succ n ih => exact (D.plain D.ending (by simp)).append ih

theorem plain_middle : Plain D.middle := by
  have hclose : Plain [')'] := by decide
  have hopen : Plain ['('] := by decide
  exact ((hclose.append (D.plain D.between (by simp))).append (D.plain D.name (by simp))).append
    hopen

theorem not_mem_key {c : Char} (hc : c ∈ ['\'', '`', ']', '_']) : c ∉ D.key := by
  intro hmem
  have hkey : c = '[' ∨ c = '(' ∨ c = '"' := by
    simp only [key, List.mem_append, List.mem_cons, List.mem_replicate, List.not_mem_nil,
      or_false] at hmem
    tauto
  rcases hkey with rfl | rfl | rfl <;> exact absurd hc (by decide)

theorem not_mem_grown {c : Char} (hc : c ∈ ['\'', '`', ']', '_']) (n : Nat) : c ∉ D.grown n := by
  have hall : ∀ c ∈ ['\'', '`', ']', '_'], c ∈ ['\'', '"', '`', ']', '_'] := by decide
  induction n with
  | zero => simp [grown]
  | succ n ih =>
    simp only [grown, List.mem_append, not_or]
    exact ⟨⟨⟨D.not_mem_key hc, (D.plain_casts n).not_mem (hall c hc)⟩,
      D.plain_middle.not_mem (hall c hc)⟩, ih⟩

theorem underscore_not_mem_core (n : Nat) : '_' ∉ D.core n := by
  have hopening := plain_opening.not_mem (c := '_') (by decide)
  have hlure : '_' ∉ lure := by decide
  have hkey := D.not_mem_key (c := '_') (by decide)
  have hgrown := D.not_mem_grown (c := '_') (by decide) n
  have hcasts := (D.plain_casts n).not_mem (c := '_') (by decide)
  have hmarks : '_' ≠ ']' ∧ '_' ≠ '"' ∧ '_' ≠ ')' := by decide
  simp only [core, hook, List.mem_append, List.mem_cons]
  tauto

theorem underscore_not_mem_bait (n : Nat) : '_' ∉ D.bait n := by
  have hopening := plain_opening.not_mem (c := '_') (by decide)
  have hlure : '_' ∉ lure := by decide
  have hcore := D.underscore_not_mem_core n
  have hendings := (D.plain_endings n).not_mem (c := '_') (by decide)
  have hmarks : '_' ≠ '\'' ∧ '_' ≠ ')' := by decide
  simp only [bait, stem, weekStart_eq, List.mem_append, List.mem_cons, List.not_mem_nil,
    List.mem_replicate]
  tauto

theorem underscore_not_mem_trap (n : Nat) (h : '_' ∉ rest) : '_' ∉ D.trap n rest := by
  have hopening := plain_opening.not_mem (c := '_') (by decide)
  have hbait := D.underscore_not_mem_bait n
  have hmarks : '_' ≠ ')' := by decide
  simp only [trap, weekStart_eq, List.mem_append, List.mem_cons, List.not_mem_nil]
  tauto

/-! ### The texts as arguments -/

theorem nested_casts (n : Nat) : Nested false (D.casts n) :=
  closed_iff_nested.1 (closed_of_not_isMark fun c hc => D.cast_unmarked c (D.mem_casts hc))

theorem nested_hook (n : Nat) : Nested false (D.hook ++ D.casts n) := by
  have hcontent :
      '"' ∉ ')' :: opening ++ lure ++ opening ++ '[' :: List.replicate D.closings '(' := by
    have hopening := plain_opening.not_mem (c := '"') (by decide)
    have hlure : '"' ∉ lure := by decide
    have hmarks : '"' ≠ ')' ∧ '"' ≠ '[' ∧ '"' ≠ '(' := by decide
    simp only [List.mem_append, List.mem_cons, List.mem_replicate]
    tauto
  have hnested := @Nested.quoted false '"' _ (by decide) (')' :: opening ++ lure ++ opening ++
    '[' :: List.replicate D.closings '(') (D.nested_casts n)
  rw [doubled_of_not_mem hcontent] at hnested
  simpa only [hook, key, List.append_assoc, List.cons_append, List.nil_append] using hnested

/-- What has grown is enclosed in one pair of brackets, whatever brackets open inside it. -/
theorem nested_grown (n m : Nat) : Nested false (D.grown n ++ ']' :: (D.hook ++ D.casts m)) := by
  cases n with
  | zero => exact .plain (by decide) (D.nested_hook m)
  | succ n =>
    have hcontent : ']' ∉ List.replicate D.closings '(' ++ '"' :: D.casts n ++ D.middle ++
        D.grown n := by
      have hcasts := (D.plain_casts n).not_mem (c := ']') (by decide)
      have hmiddle := D.plain_middle.not_mem (c := ']') (by decide)
      have hgrown := D.not_mem_grown (c := ']') (by decide) n
      have hmarks : ']' ≠ '"' ∧ ']' ≠ '(' := by decide
      simp only [List.mem_append, List.mem_cons, List.mem_replicate]
      tauto
    simpa only [grown, key, List.append_assoc, List.cons_append, List.nil_append] using
      Nested.bracketed hcontent (D.nested_hook m)

theorem nested_core (n : Nat) : Nested false (D.core n) :=
  D.nested_grown n n

theorem trimmed_core (n : Nat) : Trimmed (D.core n) where
  head := by
    cases n with
    | zero => exact ⟨']', rfl, by decide⟩
    | succ n => exact ⟨'[', rfl, by decide⟩
  last := by
    have hlast : ∀ n, ∃ c ∈ ('"' :: D.casts n).getLast?, isBlank c = false := by
      intro n
      induction n with
      | zero => exact ⟨'"', rfl, by decide⟩
      | succ n ih =>
        rw [casts, ← List.cons_append, List.getLast?_append]
        cases hcast : D.cast.getLast? with
        | none => simpa using ih
        | some c => exact ⟨c, rfl, D.cast_last c hcast⟩
    obtain ⟨c, hc, hblank⟩ := hlast n
    have hsplit : D.core n = (D.grown n ++ ']' :: '"' :: ')' :: opening ++ lure ++ opening ++
        '[' :: List.replicate D.closings '(') ++ '"' :: D.casts n := by
      simp only [core, hook, key, List.append_assoc, List.cons_append, List.nil_append]
    refine ⟨c, ?_, hblank⟩
    rw [hsplit, List.getLast?_append, Option.mem_def.1 hc]
    rfl

theorem nested_bait (n : Nat) : Nested false (D.bait n) := by
  have hfirst : '\'' ∉ added ++ ['`'] := by decide
  have hsecond : '`' ∉ ' ' :: opening ++ D.grown n ++ ']' :: '"' :: ')' :: opening ++
      '\'' :: added := by
    have hopening := plain_opening.not_mem (c := '`') (by decide)
    have hgrown := D.not_mem_grown (c := '`') (by decide) n
    have hadded := plain_added.not_mem (c := '`') (by decide)
    have hmarks : '`' ≠ ' ' ∧ '`' ≠ ']' ∧ '`' ≠ '"' ∧ '`' ≠ ')' ∧ '`' ≠ '\'' := by decide
    simp only [List.mem_append, List.mem_cons]
    tauto
  have hthird : '\'' ∉ '`' :: ' ' :: opening ++ D.key ++ D.casts n ++ ')' :: D.endings n ++
      List.replicate D.closings ')' := by
    have hopening := plain_opening.not_mem (c := '\'') (by decide)
    have hkey := D.not_mem_key (c := '\'') (by decide)
    have hcasts := (D.plain_casts n).not_mem (c := '\'') (by decide)
    have hendings := (D.plain_endings n).not_mem (c := '\'') (by decide)
    have hmarks : '\'' ≠ '`' ∧ '\'' ≠ ' ' ∧ '\'' ≠ ')' := by decide
    simp only [List.mem_append, List.mem_cons, List.mem_replicate]
    tauto
  have hnested := @Nested.quoted false '\'' _ (by decide) (added ++ ['`'])
    (@Nested.quoted _ '`' _ (by decide)
    (' ' :: opening ++ D.grown n ++ ']' :: '"' :: ')' :: opening ++
      '\'' :: added)
      (@Nested.quoted _ '\'' _ (by decide) ('`' :: ' ' :: opening ++ D.key ++ D.casts n ++
        ')' :: D.endings n ++ List.replicate D.closings ')') (.nil false)))
  rw [doubled_of_not_mem hfirst, doubled_of_not_mem hsecond, doubled_of_not_mem hthird] at hnested
  simpa only [bait, stem, weekStart_eq, core, hook, lure, List.append_assoc, List.cons_append,
    List.nil_append] using hnested

theorem trimmed_bait (n : Nat) : Trimmed (D.bait n) where
  head := ⟨'\'', rfl, by decide⟩
  last := ⟨'\'', by rw [bait, List.getLast?_concat]; rfl, by decide⟩

/-! ### Calls in the texts -/

variable {write : Idiom → Option (List Char)} {before : Option Char}

end Doubling

theorem nested_unitArgument : Nested true unitArgument :=
  .plain (by decide) (.plain (by decide) (.plain (by decide) (.plain (by decide)
    (.comma (.plain (by decide) (.nil true))))))

theorem closeCall_unitArgument (h : closeCall rest = none) :
    closeCall (unitArgument ++ rest) = none := by
  rw [closeCall] at h ⊢
  rw [nested_unitArgument.closeCallFrom_eq, h]
  rfl

theorem closeCall_lure (h : '`' ∉ rest) : closeCall (lure ++ rest) = none := by
  have hclosed : Closed ('\'' :: added ++ ['`', '\'']) := by decide
  have hsplit : lure ++ rest = ('\'' :: added ++ ['`', '\'']) ++ '`' :: ' ' :: rest := by
    simp [lure]
  have hquote : nestStep (.code, 0) '`' = some (.quoted '`', 0) := rfl
  have hinside : closeCallFrom (.quoted '`') 0 (' ' :: rest) = none :=
    closeCallFrom_eq_none '`' (by simp) (fun c hc => by simp [Region.next, hc])
      (by simpa using h)
  rw [closeCall, hsplit, closeCallFrom_append hclosed, closeCallFrom_cons hquote, hinside]
  rfl

section

variable {write : Idiom → Option (List Char)}

theorem rewriteWordsFrom_opening {before : Option Char} (h : closeCall rest = none) :
    rewriteWordsFrom (rewriteCallAt? write) before false 0 (opening ++ rest) =
      opening ++ rewriteWordsFrom (rewriteCallAt? write) (some ' ') false 0 rest := by
  have hname : IsName "DATETRUNC".toList := by decide
  have hunit := @quiet_of_isQuiet unitArgument (by decide) _
    (selective_rewriteCallAt? write) (some '(') rest
    (fun b hb c _ _ => by
      obtain rfl : '(' = b := by simpa using hb
      decide)
    (apart_of_last (by decide))
  have hlast : unitArgument.getLast?.or (some '(') = some ' ' := rfl
  have hassoc : ∀ name rest : List Char, name ++ '(' :: (unitArgument ++ rest) =
      name ++ '(' :: unitArgument ++ rest := by simp
  have hword := @rewriteWordsFrom_unclosed _ write _ before hname
    (closeCall_unitArgument h)
  rw [hunit, hlast, hassoc, hassoc] at hword
  exact hword

theorem rewriteWordsFrom_lure (before : Option Char) (rest : List Char) :
    rewriteWordsFrom (rewriteCallAt? write) before false 0 (lure ++ rest) =
      lure ++ rewriteWordsFrom (rewriteCallAt? write) (some ' ') false 0 rest :=
  rewriteWordsFrom_quiet (by decide) (by decide) (apart_of_last (by decide))

end

theorem operandText_of_ne_sqlite {dialect : Dialect} (hdialect : dialect ≠ .sqlite)
    {f : List Char → List Char} {arg : List Char} (htrimmed : Trimmed arg)
    (hnow : isNowLiteral arg = false) : operandText dialect f arg = f arg := by
  unfold operandText
  simp only [htrimmed.trim_eq, hnow, Bool.false_eq_true, if_false, hdialect, false_and]

theorem askedCall?_weekStart {arg : List Char} (hnested : Nested false arg)
    (htrimmed : Trimmed arg) (rest : List Char) :
    askedCall? (weekStart arg ++ rest) = some (.truncate .week arg, rest) := by
  have hunit : Trimmed "week".toList ∧ Nested false "week".toList :=
    ⟨⟨⟨'w', rfl, by decide⟩, ⟨'k', rfl, by decide⟩⟩, closed_iff_nested.1 (by decide)⟩
  obtain ⟨hcloses, hsplit⟩ := @reads_of_nested ["week".toList, arg]
    (by simpa using ⟨hunit.1, htrimmed⟩) (by simpa using ⟨hunit.2, hnested⟩)
  have hcall : IsCall "DATETRUNC".toList (", ".toList.intercalate ["week".toList, arg])
      (weekStart arg) := ⟨by decide, ⟨[], rfl, by simp [weekStart, call]⟩, hcloses⟩
  have hname : DateFunction.ofName? "DATETRUNC".toList = some .truncate := by decide
  have hweek : DatePart.ofText? "week".toList = some .week := by decide
  rw [askedCall?, hcall.callAt?_eq hname]
  simp only [Option.bind_eq_bind, Option.bind_some, hsplit, recognise, recogniseWith, hweek,
    Option.map_some, Option.pure_def]

/-- The scan over the calls of a text tries the word at its front. -/
theorem mem_wordsTriedFrom_weekStart (rewriteAt? : List Char → Option (List Char × Nat))
    (arg rest : List Char) :
    weekStart arg ++ rest ∈ wordsTriedFrom rewriteAt? none false 0 (weekStart arg ++ rest) := by
  obtain ⟨cs, hcs⟩ : ∃ cs, weekStart arg ++ rest = 'D' :: cs := ⟨_, rfl⟩
  rw [hcs, wordsTriedFrom, if_neg (by decide)]
  cases rewriteAt? ('D' :: cs) <;> exact List.mem_cons_self

/-- What the word at the front of a text becomes begins the new text. -/
theorem exists_rewriteWords_weekStart {rewriteAt? : List Char → Option (List Char × Nat)}
    {arg rest new : List Char} {length : Nat}
    (h : rewriteAt? (weekStart arg ++ rest) = some (new, length)) :
    ∃ more, rewriteWords rewriteAt? (weekStart arg ++ rest) = new ++ more := by
  obtain ⟨cs, hcs⟩ : ∃ cs, weekStart arg ++ rest = 'D' :: cs := ⟨_, rfl⟩
  rw [hcs] at h
  rw [rewriteWords, hcs, rewriteWordsFrom, if_neg (by decide), h]
  exact ⟨_, rfl⟩

/-- Behind a calm text the scan over intervals tries the sign that follows. -/
theorem mem_signsTriedFrom {write : Idiom → Option (List Char)} {before cs : List Char}
    (h : isCalmFrom (insideLiteral before) text = true) :
    (text.reverse ++ before, '+', cs) ∈ signsTriedFrom write before 0 (text ++ '+' :: cs) := by
  induction text generalizing before with
  | nil =>
    rw [List.nil_append, signsTriedFrom, if_pos (Or.inl rfl)]
    cases shiftAt? write before '+' cs <;> exact List.mem_cons_self
  | cons c text ih =>
    have hrest := h
    rw [isCalmFrom, Bool.and_eq_true, ← insideLiteral_cons] at hrest
    have hmore := ih hrest.2
    have hassoc : (c :: text).reverse ++ before = text.reverse ++ c :: before := by simp
    rw [hassoc, List.cons_append, signsTriedFrom]
    split
    · rename_i hsign
      have hnone : shiftAt? write before c (text ++ '+' :: cs) = none :=
        shiftAt?_append_eq_none (@calm_at_sign _ [] _ _ h hsign) _
      rw [hnone]
      exact List.mem_cons_of_mem _ hmore
    · exact hmore

namespace Doubling

variable {dialect : Dialect} (D : Doubling dialect) {write : Idiom → Option (List Char)}

theorem casts_last (n : Nat) : ∀ c ∈ (D.casts n).getLast?, isBlank c = false := by
  induction n with
  | zero => simp [casts]
  | succ n ih =>
    intro c hc
    rw [casts, List.getLast?_append] at hc
    cases hcast : D.cast.getLast? with
    | none => exact ih c (by simpa [hcast] using hc)
    | some d =>
      obtain rfl : d = c := by simpa [hcast] using hc
      exact D.cast_last d hcast

theorem casts_head (n : Nat) : ∀ c ∈ (D.casts n).head?, isWordChar c = false := by
  induction n with
  | zero => simp [casts]
  | succ n ih =>
    intro c hc
    rw [casts, List.head?_append] at hc
    cases hcasts : (D.casts n).head? with
    | none => exact D.cast_head c (by simpa [hcasts] using hc)
    | some d => exact ih c (by simpa [hcasts] using hc)

theorem quiet_casts (n : Nat) : Quiet (D.casts n) := by
  have htame : Tame (D.casts n) := tame_of_forall fun c hc =>
    ⟨D.cast_unmarked c (D.mem_casts hc), fun heq => D.plain_casts n c hc (by simp [heq])⟩
  have hopen : '(' ∉ D.casts n := fun hmem =>
    absurd (D.cast_unmarked _ (D.mem_casts hmem)) (by decide)
  cases hlast : (D.casts n).getLast? with
  | none =>
    rw [List.getLast?_eq_none_iff] at hlast
    rw [hlast]
    exact fun _ _ => .nil
  | some c => exact htame.quiet hopen ⟨c, hlast, D.casts_last n c hlast⟩

theorem rewriteWordsFrom_key (before : Option Char) (rest : List Char) :
    rewriteWordsFrom (rewriteCallAt? write) before false 0 (D.key ++ rest) =
      D.key ++ rewriteWordsFrom (rewriteCallAt? write) (some '"') false 0 rest := by
  have hchars : ∀ c ∈ D.key, isWordChar c = false ∧ c ≠ '\'' := by
    intro c hc
    have hkey : c = '[' ∨ c = '(' ∨ c = '"' := by
      simp only [key, List.mem_append, List.mem_cons, List.mem_replicate, List.not_mem_nil,
        or_false] at hc
      tauto
    rcases hkey with rfl | rfl | rfl <;> decide
  have hlast : D.key.getLast?.or before = some '"' := by
    rw [key, List.getLast?_concat]
    rfl
  rw [rewriteWordsFrom_between hchars, hlast]

theorem rewriteWordsFrom_casts {before : Option Char} (n : Nat) (hapart : Apart (D.casts n) rest) :
    rewriteWordsFrom (rewriteCallAt? write) before false 0 (D.casts n ++ rest) =
      D.casts n ++ rewriteWordsFrom (rewriteCallAt? write) ((D.casts n).getLast?.or before) false 0
        rest :=
  D.quiet_casts n _ (selective_rewriteCallAt? write) before rest
    (fun _ _ c hc hword => absurd hword (by simp [D.casts_head n c hc])) hapart

theorem closeCall_key (h : ']' ∉ rest) : closeCall (D.key ++ rest) = none := by
  have hbracket : nestStep (.code, 0) '[' = some (.bracketed, 0) := rfl
  have hrest : ']' ∉ List.replicate D.closings '(' ++ ['"'] ++ rest := by
    have hmarks : ']' ≠ '(' ∧ ']' ≠ '"' := by decide
    simp only [List.mem_append, List.mem_replicate, List.mem_cons, List.not_mem_nil]
    tauto
  have hinside :
      closeCallFrom .bracketed 0 (List.replicate D.closings '(' ++ ['"'] ++ rest) = none :=
    closeCallFrom_eq_none ']' (by simp) (fun c hc => by simp [Region.next, hc]) hrest
  rw [closeCall, key, List.cons_append, List.cons_append, closeCallFrom_cons hbracket, hinside]
  rfl

theorem rewriteWordsFrom_hook (before : Option Char) (n : Nat) :
    rewriteWordsFrom (rewriteCallAt? write) before false 0 (']' :: (D.hook ++ D.casts n)) =
      ']' :: (D.hook ++ D.casts n) := by
  have hmarks : ∀ c ∈ [']', '"', ')'], isWordChar c = false ∧ c ≠ '\'' := by decide
  have hsplit : ']' :: (D.hook ++ D.casts n) =
      [']', '"', ')'] ++ (opening ++ (lure ++ (opening ++ (D.key ++ (D.casts n ++ []))))) := by
    simp only [hook, List.append_assoc, List.cons_append, List.nil_append, List.append_nil]
  have hkey : closeCall (D.key ++ (D.casts n ++ [])) = none := by
    rw [List.append_nil]
    exact D.closeCall_key ((D.plain_casts n).not_mem (by decide))
  have hlure : closeCall (lure ++ (opening ++ (D.key ++ (D.casts n ++ [])))) = none := by
    refine closeCall_lure ?_
    have hopening := plain_opening.not_mem (c := '`') (by decide)
    have hkey := D.not_mem_key (c := '`') (by decide)
    have hcasts := (D.plain_casts n).not_mem (c := '`') (by decide)
    simp only [List.mem_append, List.not_mem_nil]
    tauto
  rw [hsplit, rewriteWordsFrom_between hmarks, rewriteWordsFrom_opening hlure,
    rewriteWordsFrom_lure, rewriteWordsFrom_opening hkey, D.rewriteWordsFrom_key,
    D.rewriteWordsFrom_casts n apart_nil]
  rfl

/-- No call is rewritten in what is written twice. -/
theorem rewriteWordsFrom_grown (before : Option Char) (n m : Nat) :
    rewriteWordsFrom (rewriteCallAt? write) before false 0
        (D.grown n ++ ']' :: (D.hook ++ D.casts m)) =
      D.grown n ++ ']' :: (D.hook ++ D.casts m) := by
  induction n generalizing before with
  | zero => exact D.rewriteWordsFrom_hook before m
  | succ n ih =>
    have hunclosed : closeCall (D.grown n ++ ']' :: (D.hook ++ D.casts m)) = none :=
      closeCall_eq_none_of_closed (closed_iff_nested.2 (D.nested_grown n m))
    generalize hrest : D.grown n ++ ']' :: (D.hook ++ D.casts m) = rest at ih hunclosed
    have hsplit : D.grown (n + 1) ++ ']' :: (D.hook ++ D.casts m) =
        D.key ++ (D.casts n ++ (')' :: D.between ++ (D.name ++ '(' :: rest))) := by
      simp only [← hrest, grown, middle, List.append_assoc, List.cons_append, List.nil_append]
    have hapart : Apart (D.casts n) (')' :: D.between ++ (D.name ++ '(' :: rest)) := by
      intro c _ _
      refine ⟨fun d hd => ?_, ?_⟩
      · obtain rfl : ')' = d := by simpa using hd
        decide
      · rw [trimStart_of_head ⟨')', by simp, by decide⟩]
        simp
    have hclose : ∀ c ∈ (')' :: D.between).head?, isWordChar c = false := by
      intro c hc
      obtain rfl : ')' = c := by simpa using hc
      decide
    rw [hsplit, D.rewriteWordsFrom_key, D.rewriteWordsFrom_casts n hapart,
      rewriteWordsFrom_quiet D.between_quiet hclose (apart_of_last D.between_last),
      rewriteWordsFrom_unclosed D.named hunclosed, ih]

/-! ### Signs in the texts -/

theorem calm_casts (n : Nat) : Calm (D.casts n) := by
  induction n with
  | zero => exact ⟨rfl, rfl⟩
  | succ n ih => exact ih.append (D.calm D.cast (by simp))

theorem calm_endings (n : Nat) : Calm (D.endings n) := by
  induction n with
  | zero => exact ⟨rfl, rfl⟩
  | succ n ih => exact (D.calm D.ending (by simp)).append ih

theorem calm_middle : Calm D.middle := by
  have hname : Calm D.name := calm_of_forall fun c hc => by
    have hchar := D.named.chars c hc
    refine ⟨?_, ?_, ?_⟩ <;> rintro rfl <;> exact absurd hchar (by decide)
  have hopen : Calm ['('] := by decide
  exact ((D.calm (')' :: D.between) (by simp)).append hname).append hopen

theorem calm_key : Calm D.key := by
  refine calm_of_forall fun c hc => ?_
  have hkey : c = '[' ∨ c = '(' ∨ c = '"' := by
    simp only [key, List.mem_append, List.mem_cons, List.mem_replicate, List.not_mem_nil,
      or_false] at hc
    tauto
  rcases hkey with rfl | rfl | rfl <;> decide

theorem calm_core (n : Nat) : Calm (D.core n) := by
  have hgrown : Calm (D.grown n) := by
    induction n with
    | zero => exact ⟨rfl, rfl⟩
    | succ n ih => exact ((D.calm_key.append (D.calm_casts n)).append D.calm_middle).append ih
  have hmarks : Calm [']', '"', ')'] := by decide
  have hopening : Calm opening := by decide
  have hlure : Calm lure := by decide
  have hends := D.calm_key.append (D.calm_casts n)
  rw [core_eq]
  exact hgrown.append (hmarks.append (hopening.append (hlure.append (hopening.append hends))))

theorem calm_renderTruncate (n : Nat) : Calm (renderTruncate dialect .week (D.core n)) := by
  have hclose : Calm [')'] := by decide
  have hfront := D.calm D.front (by simp)
  have hcast := D.calm D.cast (by simp)
  have hending := D.calm D.ending (by simp)
  rw [D.renderTruncate_eq]
  exact ((((hfront.append (D.calm_core n)).append D.calm_middle).append (D.calm_core n)).append
    hcast).append (hclose.append hending)

theorem calm_stem (n : Nat) : Calm (D.stem (renderTruncate dialect .week (D.core n)) n) := by
  have hlure : Calm lure := by decide
  have hclosings : Calm (List.replicate D.closings ')') := calm_of_forall fun c hc => by
    obtain rfl := List.eq_of_mem_replicate hc
    decide
  exact ((hlure.append (D.calm_renderTruncate n)).append (D.calm_endings n)).append hclosings

/-! ### One level -/

theorem isNowLiteral_core (n : Nat) : isNowLiteral (D.core n) = false := by
  have htrim := (D.trimmed_core n).trim_eq
  cases n with
  | zero =>
    rw [isNowLiteral, htrim]
    rfl
  | succ n =>
    rw [isNowLiteral, htrim]
    rfl

theorem isNowLiteral_bait (n : Nat) : isNowLiteral (D.bait n) = false := by
  rw [isNowLiteral, (D.trimmed_bait n).trim_eq]
  rfl

include D in
theorem rewriteCallAt?_weekStart {f : List Char → List Char} {arg : List Char}
    (hnested : Nested false arg) (htrimmed : Trimmed arg) (hnow : isNowLiteral arg = false)
    (rest : List Char) :
    rewriteCallAt? (render dialect (operandText dialect f)) (weekStart arg ++ rest) =
      some (renderTruncate dialect .week (f arg), (weekStart arg).length) := by
  have hlength : (weekStart arg ++ rest).length - rest.length = (weekStart arg).length := by simp
  rw [rewriteCallAt?_eq, askedCall?_weekStart hnested htrimmed]
  simp only [Option.bind_some, render, hlength, List.take_left,
    operandText_of_ne_sqlite D.notSqlite htrimmed hnow, if_neg (D.differs _ _)]

/-- What is written twice is not rewritten. -/
theorem rewriteWithin_core (n depth : Nat) : rewriteWithin dialect depth (D.core n) = D.core n := by
  cases depth with
  | zero => rfl
  | succ depth =>
    have hcalls := fun write => @rewriteWordsFrom_grown _ D write none n n
    rw [rewriteWithin_succ, rewriteLevel, rewriteClocks_of_not_mem _ (D.underscore_not_mem_core n)]
    simp only [rewriteCalls, rewriteWords, core, hcalls]
    exact (D.calm_core n).rewriteIntervals_eq _

theorem rewriteWordsFrom_endings {before : Option Char} (n : Nat) (rest : List Char) :
    ∃ last, rewriteWordsFrom (rewriteCallAt? write) before false 0 (D.endings n ++ rest) =
      D.endings n ++ rewriteWordsFrom (rewriteCallAt? write) last false 0 rest := by
  induction n generalizing before with
  | zero => exact ⟨before, rfl⟩
  | succ n ih =>
    obtain ⟨last, hlast⟩ := @ih (D.ending.getLast?.or before)
    refine ⟨last, ?_⟩
    rw [endings, List.append_assoc, rewriteWordsFrom_quiet D.ending_quiet D.ending_head
      (apart_of_last D.ending_last), hlast, List.append_assoc]

/-- The start of the week inside the bait is written anew. -/
theorem rewriteCalls_bait (n depth : Nat) :
    rewriteCalls (render dialect (operandText dialect (rewriteWithin dialect depth))) (D.bait n) =
      D.caught n := by
  generalize hwrite : render dialect (operandText dialect (rewriteWithin dialect depth)) = write
  have hweek : Rewrites (rewriteCallAt? write) (weekStart (D.core n))
      (renderTruncate dialect .week (D.core n)) := by
    refine rewrites_whole ⟨'D', rfl, by decide⟩ ?_ fun rest _ => ?_
    · rw [weekStart_eq, insideLiteral_append, insideLiteral_append, (D.calm_core n).quotes]
      rfl
    · rw [← hwrite, D.rewriteCallAt?_weekStart (D.nested_core n) (D.trimmed_core n)
        (D.isNowLiteral_core n), D.rewriteWithin_core]
  have hsplit : D.bait n = lure ++ (weekStart (D.core n) ++ (D.endings n ++
      (List.replicate D.closings ')' ++ ['\'']))) := by
    simp only [bait, stem, List.append_assoc]
  have hclose : ∀ c ∈ List.replicate D.closings ')', isWordChar c = false ∧ c ≠ '\'' := by
    intro c hc
    obtain rfl := List.eq_of_mem_replicate hc
    decide
  have hfree : Free (some ' ') (weekStart (D.core n)) := by
    intro b hb c _ _
    obtain rfl : ' ' = b := by simpa using hb
    decide
  have hlast : ∀ c ∈ (weekStart (D.core n)).getLast?, isWordChar c = false := by
    intro c hc
    obtain rfl : ')' = c := by simpa [weekStart_eq] using hc
    decide
  have hquote : ∀ before, rewriteWordsFrom (rewriteCallAt? write) before false 0 ['\''] = ['\''] :=
    fun before => rewriteWordsFrom_pass (Or.inl rfl)
  obtain ⟨last, hendings⟩ := @rewriteWordsFrom_endings _ D write
    ((weekStart (D.core n)).getLast?.or (some ' ')) n
    (List.replicate D.closings ')' ++ ['\''])
  rw [rewriteCalls, rewriteWords, hsplit, rewriteWordsFrom_lure,
    hweek _ _ hfree (apart_of_last hlast), hendings, rewriteWordsFrom_between hclose, hquote]
  simp only [caught, stem, List.append_assoc]

theorem rewriteWithin_bait (n depth : Nat) :
    rewriteWithin dialect (depth + 1) (D.bait n) = D.caught n := by
  have hcalm : isCalmFrom false (D.caught n) = true :=
    isCalmFrom_append (D.calm_stem n).signs (by rw [(D.calm_stem n).quotes]; rfl)
  have hpass := @rewriteIntervalsFrom_append _
    (render dialect (operandText dialect (rewriteWithin dialect depth))) [] hcalm []
  rw [rewriteWithin_succ, rewriteLevel, rewriteClocks_of_not_mem _ (D.underscore_not_mem_bait n)]
  simp only [D.rewriteCalls_bait]
  simpa [rewriteIntervals, rewriteIntervalsFrom] using hpass

/-! ### The operand that is found -/

theorem opens_endings (n depth : Nat) : Opens depth (depth + n) (D.endings n) := by
  induction n generalizing depth with
  | zero => rfl
  | succ n ih =>
    have hending := D.ending_opens.deeper (depth + n)
    rw [Nat.zero_add, Nat.add_comm 1, Nat.add_assoc] at hending
    exact hending.append (ih depth)

theorem closedBackwards_casts (n : Nat) : ClosedBackwards (D.casts n) := by
  refine closedBackwards_iff_passedOver.2 (passedOver_of_forall fun c hc => ?_)
  have hmark := D.cast_unmarked c (D.mem_casts hc)
  refine ⟨?_, ?_, ?_⟩ <;> rintro rfl <;> exact absurd hmark (by decide)

theorem opens_key (depth : Nat) : Opens (depth + D.closings) depth D.key := by
  have hbracket : Opens depth depth ['['] := by simp [Opens, backStep]
  have hquote : Opens (depth + D.closings) (depth + D.closings) ['"'] := by simp [Opens, backStep]
  exact (hbracket.append (opens_replicate_open D.closings depth)).append hquote

theorem opens_middle (depth : Nat) : Opens (depth + 1) (depth + D.closings) D.middle := by
  have h := D.between_opens.deeper depth
  rwa [Nat.add_comm 1, Nat.add_comm D.closings] at h

/-- Each level opens one parenthesis more before the operand that is written twice. -/
theorem opens_grown (n depth : Nat) : Opens (depth + n) depth (D.grown n) := by
  induction n generalizing depth with
  | zero => rfl
  | succ n ih =>
    have hgrown := ih (depth + 1)
    rw [Nat.add_assoc, Nat.add_comm 1] at hgrown
    have hcasts := opens_of_closedBackwards (D.closedBackwards_casts n)
    exact (((D.opens_key depth).append (hcasts _)).append (D.opens_middle depth)).append hgrown

/-- The scan comes back over the core with a parenthesis to open for each level, two for the calls
in the core and those of its key, less the one that the core closes. -/
theorem opens_core (n depth : Nat) :
    Opens (depth + 1 + n + 1 + D.closings) (depth + 1) (D.core n) := by
  have hmarks : Opens (depth + n) (depth + 1 + n) [']', '"', ')'] := by
    have h : Opens 0 1 [']', '"', ')'] := by decide
    simpa [Nat.add_comm, Nat.add_assoc, Nat.add_left_comm] using h.deeper (depth + n)
  have hopening : ∀ depth, Opens (depth + 1) depth opening := fun depth => by
    have h : Opens 1 0 opening := by decide
    simpa [Nat.add_comm] using h.deeper depth
  have hlure : ∀ depth, Opens depth depth lure := opens_of_closedBackwards (by decide)
  have hcasts := opens_of_closedBackwards (D.closedBackwards_casts n)
  have hfirst := hopening (depth + n)
  have hsecond := hopening (depth + 1 + n)
  rw [Nat.add_right_comm] at hfirst
  rw [core_eq]
  exact (D.opens_grown n (depth + 1)).append (hmarks.append (hfirst.append ((hlure _).append
    (hsecond.append ((D.opens_key _).append (hcasts _))))))

/-- What comes after the operand's name and parenthesis, up to the sign. -/
def behind (n : Nat) : List Char :=
  unitArgument ++ (lure ++ (opening ++ (D.core (n + 1) ++ (')' :: D.endings (n + 1) ++
    (List.replicate D.closings ')' ++ (quoted D.middle ++ [')']))))))

theorem closedBackwards_behind (n : Nat) : ClosedBackwards (D.behind n) := by
  have hunit : ∀ depth, Opens depth depth unitArgument := opens_of_closedBackwards (by decide)
  have hlure : ∀ depth, Opens depth depth lure := opens_of_closedBackwards (by decide)
  have hopening : Opens 1 0 opening := by decide
  have hclose : ∀ depth, Opens depth (depth + 1) [')'] := fun depth => rfl
  have hquoted := opens_of_closedBackwards (closedBackwards_iff_passedOver.2
    (passedOver_quoted (D.plain_middle.not_mem (c := '\'') (by decide)))) 1
  have hclosings := opens_replicate_close D.closings 1
  have hendings := D.opens_endings (n + 1) (1 + D.closings)
  have hparen := hclose (1 + D.closings + (n + 1))
  have hcore := D.opens_core (n + 1) 0
  have hdepth : 0 + 1 + (n + 1) + 1 + D.closings = 1 + D.closings + (n + 1) + 1 := by omega
  rw [hdepth] at hcore
  exact (hunit 0).append ((hlure 0).append (hopening.append (hcore.append ((hparen.append
    hendings).append (hclosings.append (hquoted.append (hclose 0)))))))

/-- What follows the call that is found as the operand, up to the sign. -/
def tail : List Char :=
  D.between ++ D.name ++ ['(', '\'', ')', ')']

/-- What precedes it. -/
def lead (n : Nat) : List Char :=
  D.front ++ lure ++ D.front ++ D.grown n ++ [']', '"', ')']

theorem trap_succ_eq (n : Nat) :
    D.trap (n + 1) D.tail = "DATETRUNC".toList ++ '(' :: (D.behind n ++ [')']) := by
  have hassoc : ∀ name : List Char, name ++ '(' :: unitArgument ++ D.bait (n + 1) ++
      [')'] ++ D.tail =
      name ++ '(' :: (D.behind n ++ [')']) := by
    intro name
    have hopening : weekStart (D.core (n + 1)) = opening ++ D.core (n + 1) ++ [')'] :=
      weekStart_eq _
    simp only [bait, stem, hopening, behind, tail, quoted, middle, List.append_assoc,
      List.cons_append, List.nil_append]
  rw [trap, weekStart_eq]
  exact hassoc _

/-- The caught text, written twice, up to the sign in its second copy. -/
def ahead (n : Nat) : List Char :=
  D.front ++ D.stem (renderTruncate dialect .week (D.core n)) n ++ quoted D.middle ++ [')', ')']

theorem ahead_eq (n : Nat) : D.ahead n = D.lead n ++ D.trap (n + 1) D.tail := by
  have htwice : renderTruncate dialect .week (D.core n) =
      D.front ++ (D.grown n ++ ([']', '"', ')'] ++ (opening ++ (lure ++ (opening ++ (D.key ++
        D.casts n)))))) ++ D.middle ++ D.core n ++ D.cast ++ ')' :: D.ending := by
    rw [← D.core_eq, D.renderTruncate_eq]
  simp only [ahead, lead, htwice, trap, bait, stem, weekStart_eq, D.core_succ, endings,
    tail, middle, quoted, List.append_assoc, List.cons_append, List.nil_append]

/-- The second copy begins with an interval that is added to what comes before it. -/
theorem renderTruncate_caught (n : Nat) : ∃ more,
    renderTruncate dialect .week (D.caught n) =
      D.ahead n ++ '+' :: ("INTERVAL 1 DAY".toList ++ '`' :: more) := by
  have hadded : added = [')', ')', '+'] ++ "INTERVAL 1 DAY".toList := by decide
  generalize "INTERVAL 1 DAY".toList = interval at hadded ⊢
  generalize htwice : renderTruncate dialect .week (D.core n) = twice
  have hcaught : D.caught n = '\'' :: ')' :: ')' :: '+' :: (interval ++ '`' :: '\'' :: '`' :: ' ' ::
      (twice ++ D.endings n ++ List.replicate D.closings ')' ++ ['\''])) := by
    simp only [caught, stem, lure, hadded, htwice, List.append_assoc, List.cons_append,
      List.nil_append]
  refine ⟨'\'' :: '`' :: ' ' :: (twice ++ D.endings n ++ List.replicate D.closings ')' ++ ['\'']) ++
    D.cast ++ ')' :: D.ending, ?_⟩
  rw [D.renderTruncate_eq]
  nth_rewrite 2 [hcaught]
  simp only [caught, ahead, htwice, quoted, List.append_assoc, List.cons_append, List.nil_append]

theorem calm_ahead (n : Nat) : Calm (D.ahead n) := by
  have hclose : Calm [')', ')'] := by decide
  have hquoted := calm_quoted (D.plain_middle.not_mem (c := '\'') (by decide))
  exact (((D.calm D.front (by simp)).append (D.calm_stem n)).append hquoted).append hclose

theorem operandBefore_lead (n : Nat) :
    operandBefore (D.lead n ++ D.trap (n + 1) D.tail).reverse =
      some (D.trap (n + 1) D.tail, (D.lead n).reverse) := by
  have hchars : ∀ c ∈ "DATETRUNC".toList.reverse, isOperandChar c = true := by decide
  have hstop : ∀ c ∈ (D.lead n).reverse.head?, isOperandChar c = false := by
    intro c hc
    obtain rfl : ')' = c := by simpa [lead] using hc
    decide
  have hread := (@operandBefore_call_iff _ [] (by simp)
    ("DATETRUNC".toList.reverse ++ (D.lead n).reverse)).2 (D.closedBackwards_behind n)
  rw [wholeCall, takeWhile_append hchars hstop, dropWhile_append hchars hstop] at hread
  rw [trap_succ_eq]
  generalize "DATETRUNC".toList = name at hread ⊢
  simpa using hread

theorem trimmed_trap (n : Nat) : Trimmed (D.trap n D.tail) where
  head := ⟨'D', rfl, by decide⟩
  last := ⟨')', by simp [trap, tail], by decide⟩

theorem isNowLiteral_trap (n : Nat) : isNowLiteral (D.trap n D.tail) = false := by
  rw [isNowLiteral, (D.trimmed_trap n).trim_eq]
  rfl

/-! ### The next level -/

theorem askedShift?_ahead (n : Nat) (more : List Char) : ∃ clock rest,
    askedShift? (D.ahead n).reverse '+' ("INTERVAL 1 DAY".toList ++ '`' :: more) =
      some (.shift .day 1 (D.trap (n + 1) D.tail) clock, rest) := by
  have hcode : insideLiteral (D.ahead n).reverse = false := by
    rw [insideLiteral_reverse, (D.calm_ahead n).quotes]
  have hscan : scanInterval? (trimStart ("INTERVAL 1 DAY".toList ++ '`' :: more)) =
      some ⟨['1'], "DAY".toList, '`' :: more⟩ := rfl
  have hvalue : ScannedInterval.value? ⟨['1'], "DAY".toList, '`' :: more⟩ = some (1, .day) := rfl
  have hoperand := D.operandBefore_lead n
  have hend := trimEnd_of_last (D.trimmed_trap (n + 1)).last
  rw [← D.ahead_eq] at hoperand
  refine ⟨clockOf (D.trap (n + 1) D.tail) .day, ((D.lead n).reverse, '`' :: more), ?_⟩
  rw [askedShift?, hcode]
  simp only [Bool.false_eq_true, if_false, hscan, hvalue, hoperand, hend, Option.bind_eq_bind,
    Option.bind_some, Option.pure_def]
  rfl

/-- The bait is asked for, as the operand of the call around it. -/
theorem bait_mem_asked (f : List Char → List Char) (n : Nat) (h : '_' ∉ rest) :
    D.bait n ∈ asked dialect f (D.trap n rest) := by
  have htrimmed := D.trimmed_bait n
  refine mem_asked (.truncate .week (D.bait n)) ?_ rfl htrimmed.trim_eq
    (D.isNowLiteral_bait n)
  rw [idiomsAsked, rewriteClocks_of_not_mem _ (D.underscore_not_mem_trap n h)]
  refine List.mem_append_left _ (List.mem_filterMap.2 ⟨D.trap n rest, ?_, ?_⟩)
  · exact mem_wordsTriedFrom_weekStart _ _ _
  · rw [trap, askedCall?_weekStart (D.nested_bait n) htrimmed]
    rfl

/-- The calls of the text are rewritten from its front on. -/
theorem exists_rewriteCalls_trap (depth n : Nat) (rest : List Char) : ∃ more,
    rewriteCalls (render dialect (operandText dialect (rewriteWithin dialect (depth + 1))))
      (D.trap n rest) = renderTruncate dialect .week (D.caught n) ++ more := by
  have hat := @rewriteCallAt?_weekStart _ D (rewriteWithin dialect (depth + 1)) _ (D.nested_bait n)
    (D.trimmed_bait n) (D.isNowLiteral_bait n) rest
  rw [rewriteWithin_bait] at hat
  exact exists_rewriteWords_weekStart hat

/-- With the bait caught, the text of the next level is asked for. -/
theorem trap_mem_asked (depth n : Nat) (h : '_' ∉ rest) :
    D.trap (n + 1) D.tail ∈ asked dialect (rewriteWithin dialect (depth + 1)) (D.trap n rest) := by
  obtain ⟨more, hcalls⟩ := D.exists_rewriteCalls_trap depth n rest
  obtain ⟨behind, hcaught⟩ := D.renderTruncate_caught n
  obtain ⟨clock, left, hshift⟩ := D.askedShift?_ahead n (behind ++ more)
  have hsplit : renderTruncate dialect .week (D.caught n) ++ more =
      D.ahead n ++ '+' :: ("INTERVAL 1 DAY".toList ++ '`' :: (behind ++ more)) := by
    rw [hcaught]
    simp only [List.append_assoc, List.cons_append]
  refine mem_asked (.shift .day 1 (D.trap (n + 1) D.tail) clock) ?_ rfl
    (D.trimmed_trap (n + 1)).trim_eq (D.isNowLiteral_trap (n + 1))
  rw [idiomsAsked, rewriteClocks_of_not_mem _ (D.underscore_not_mem_trap n h)]
  refine List.mem_append_right _ (List.mem_filterMap.2 ⟨((D.ahead n).reverse, '+',
    "INTERVAL 1 DAY".toList ++ '`' :: (behind ++ more)), ?_, ?_⟩)
  · rw [hcalls, hsplit]
    simpa using @mem_signsTriedFrom _ _ [] _ (D.calm_ahead n).signs
  · simp only [hshift, Option.map_some]

theorem underscore_not_mem_tail : '_' ∉ D.tail := by
  have hbetween := (D.plain D.between (by simp)).not_mem (c := '_') (by decide)
  have hname := (D.plain D.name (by simp)).not_mem (c := '_') (by decide)
  have hmarks : '_' ∉ ['(', '\'', ')', ')'] := by decide
  simp only [tail, List.mem_append]
  tauto

/-- However many levels there are, rewriting the text asks for one more. -/
theorem endsWithin_trap (depth n : Nat) (h : '_' ∉ rest) :
    endsWithin dialect depth (D.trap n rest) = false := by
  induction depth generalizing n rest with
  | zero => rfl
  | succ depth ih =>
    rw [Bool.eq_false_iff]
    intro hends
    rw [endsWithin, List.all_eq_true] at hends
    have hbait := hends _ (D.bait_mem_asked _ n h)
    cases depth with
    | zero => exact absurd hbait (by simp [endsWithin])
    | succ depth =>
      have hnext := hends _ (D.trap_mem_asked depth n h)
      rw [ih (n + 1) D.underscore_not_mem_tail] at hnext
      exact Bool.false_ne_true hnext

end Doubling

end AskSql.Idiom
