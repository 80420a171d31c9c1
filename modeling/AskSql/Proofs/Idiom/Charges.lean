import Mathlib.Order.BooleanAlgebra.Basic
import Mathlib.Order.Nat
import AskSql.Dialect
import AskSql.Idiom.Recognise
import AskSql.Proofs.Text.Case

/-! What the characters of a text are charged to the level of parentheses that they stand in.  A
call of a date function pays for the calls that its form may have around its argument, in the
dialect that the text is rewritten into, and so does an added interval.  In MySQL commas pay too,
since there a function has forms of different depth for different numbers of arguments. -/

namespace AskSql.Idiom

open Text

variable {dialect : Dialect} {word word' : List Char}

/-! ### Names -/

/-- What the parentheses behind the name of `function` are charged. -/
def callCharge (dialect : Dialect) : DateFunction → Nat
  | .today | .moment | .cast => 0
  | .truncate => 2
  | .date | .datetime | .dateFormat | .subInterval => if dialect = .mySql then 1 else 2
  | _ => 1

/-- The names that make parentheses behind them dearer, read backwards. -/
def chargedNames (dialect : Dialect) : List (List Char × Nat) :=
  ("DATEDIFF".toList.reverse, 1) ::
    DateFunction.names.map fun (name, function) =>
      (name.toList.reverse, callCharge dialect function)

/-- The greatest charge of the names in `names` that `p` holds of. -/
def dearest (p : List Char → Bool) : List (List Char × Nat) → Nat
  | [] => 0
  | (name, charge) :: names => if p name then max charge (dearest p names) else dearest p names

theorem dearest_mono {p q : List Char → Bool} {names : List (List Char × Nat)}
    (h : ∀ entry ∈ names, p entry.1 = true → q entry.1 = true) :
    dearest p names ≤ dearest q names := by
  induction names with
  | nil => exact le_rfl
  | cons entry names ih =>
    obtain ⟨hentry, hrest⟩ := List.forall_mem_cons.1 h
    have hle := ih hrest
    rw [dearest, dearest]
    split
    · rename_i hp
      rw [if_pos (hentry hp)]
      omega
    · split <;> omega

theorem le_dearest {p : List Char → Bool} {names : List (List Char × Nat)}
    {entry : List Char × Nat} (h : entry ∈ names) (hp : p entry.1 = true) :
    entry.2 ≤ dearest p names := by
  induction names with
  | nil => contradiction
  | cons first names ih =>
    rw [dearest]
    rcases List.mem_cons.1 h with rfl | h
    · rw [if_pos hp]
      omega
    · have hle := ih h
      split <;> omega

/-- What parentheses behind `word` are charged, which is read backwards and in capitals: as much as
behind the dearest of the names that it may end with. -/
def nameCharge (dialect : Dialect) (word : List Char) : Nat :=
  dearest (fun name => name.isPrefixOf word) (chargedNames dialect)

theorem nameCharge_mono (h : word <+: word') : nameCharge dialect word ≤ nameCharge dialect word' :=
  dearest_mono fun _ _ hname =>
    List.isPrefixOf_iff_prefix.2 ((List.isPrefixOf_iff_prefix.1 hname).trans h)

@[simp] theorem nameCharge_nil : nameCharge dialect [] = 0 := by
  cases dialect <;> decide

theorem nameCharge_le_two : nameCharge dialect word ≤ 2 := by
  have hall : dearest (fun _ => true) (chargedNames dialect) ≤ 2 := by cases dialect <;> decide
  exact (@dearest_mono _ (fun _ => true) _ fun _ _ _ => rfl).trans hall

/-- `name` ends a word that may go on before it, and makes no parentheses dearer than `n`. -/
def ChargesAtMost (dialect : Dialect) (n : Nat) (name : List Char) : Prop :=
  dearest (fun other => other.isPrefixOf name || name.isPrefixOf other) (chargedNames dialect) ≤ n

instance (n : Nat) (name : List Char) : Decidable (ChargesAtMost dialect n name) :=
  inferInstanceAs (Decidable (_ ≤ _))

theorem ChargesAtMost.nameCharge_le {n : Nat} {name : List Char}
    (h : ChargesAtMost dialect n name) (hword : name <+: word) : nameCharge dialect word ≤ n := by
  refine (dearest_mono fun entry _ hentry => ?_).trans h
  rw [List.isPrefixOf_iff_prefix] at hentry
  rw [Bool.or_eq_true, List.isPrefixOf_iff_prefix, List.isPrefixOf_iff_prefix]
  exact List.prefix_or_prefix_of_prefix hentry hword

/-- The name of a function makes the parentheses behind it as dear as the function is. -/
theorem callCharge_le_nameCharge {name : List Char} {function : DateFunction}
    (h : DateFunction.ofName? name = some function) (hword : (upperAscii name).reverse <+: word) :
    callCharge dialect function ≤ nameCharge dialect word := by
  obtain ⟨front, back, hsplit, -⟩ := List.lookup_eq_some_iff.1 h
  have hmem : (String.ofList (upperAscii name), function) ∈ DateFunction.names := by
    rw [hsplit]
    simp
  have hcharged : ((upperAscii name).reverse, callCharge dialect function) ∈ chargedNames dialect :=
    List.mem_cons_of_mem _ (List.mem_map.2 ⟨_, hmem, by simp⟩)
  exact le_dearest hcharged (List.isPrefixOf_iff_prefix.2 hword)

theorem one_le_nameCharge_of_sameAscii {name : List Char} {key : String}
    (hkey : (key.toList.reverse, 1) ∈ chargedNames dialect ∧ upperAscii key.toList = key.toList)
    (h : sameAscii name key.toList = true) (hword : (upperAscii name).reverse <+: word) :
    1 ≤ nameCharge dialect word := by
  rw [upperAscii_eq_of_sameAscii h, hkey.2] at hword
  exact le_dearest hkey.1 (List.isPrefixOf_iff_prefix.2 hword)

/-! ### Characters -/

/-- What a comma is charged. -/
def commaCharge (dialect : Dialect) : Nat :=
  if dialect = .mySql then 1 else 0

/-- What an added interval is charged: as much as the call and the comma that it becomes. -/
def intervalCharge (dialect : Dialect) : Nat :=
  1 + commaCharge dialect

/-- What a scan has just passed, white space aside: whether it is a sign; the word, read backwards
and in capitals; and what is charged for an opening parenthesis, unless that of an empty pair. -/
@[ext] structure Ahead where
  sign : Bool
  word : List Char
  opened : Nat

namespace Ahead

/-- What `c` is charged.  An interval is added where its keyword, or what begins like it, follows a
sign. -/
def charge (dialect : Dialect) (ahead : Ahead) (c : Char) : Nat :=
  (if c = ')' then 0 else ahead.opened) +
    (if ahead.sign && fold c == 'i' then intervalCharge dialect else 0) +
    if c = ',' then commaCharge dialect else 0

/-- What has been passed behind `c`. -/
def next (dialect : Dialect) (ahead : Ahead) (c : Char) : Ahead where
  sign := c == '+' || c == '-'
  word := if isWordChar c then c.toUpper :: ahead.word else []
  opened := if c = '(' then nameCharge dialect ahead.word else 0

/-- Nothing that makes what comes dearer. -/
def nothing : Ahead := ⟨false, [], 0⟩

instance : Preorder Ahead where
  le ahead ahead' :=
    ahead.sign ≤ ahead'.sign ∧ ahead.word <+: ahead'.word ∧ ahead.opened ≤ ahead'.opened
  le_refl ahead := ⟨le_rfl, List.prefix_rfl, le_rfl⟩
  le_trans _ _ _ h h' := ⟨h.1.trans h'.1, h.2.1.trans h'.2.1, h.2.2.trans h'.2.2⟩

variable {ahead ahead' : Ahead}

theorem le_iff : ahead ≤ ahead' ↔
    ahead.sign ≤ ahead'.sign ∧ ahead.word <+: ahead'.word ∧ ahead.opened ≤ ahead'.opened := Iff.rfl

theorem nothing_le (ahead : Ahead) : nothing ≤ ahead :=
  ⟨Bool.false_le _, List.nil_prefix, Nat.zero_le _⟩

theorem charge_mono (h : ahead ≤ ahead') (c : Char) :
    ahead.charge dialect c ≤ ahead'.charge dialect c := by
  obtain ⟨hsign, -, hopened⟩ := h
  simp only [charge]
  refine Nat.add_le_add (Nat.add_le_add ?_ ?_) le_rfl
  · split
    · exact le_rfl
    · exact hopened
  · split
    · rename_i hi
      obtain ⟨hs, hc⟩ := Bool.and_eq_true_iff.1 hi
      rw [if_pos (Bool.and_eq_true_iff.2 ⟨hsign hs, hc⟩)]
    · exact Nat.zero_le _

theorem next_mono (h : ahead ≤ ahead') (c : Char) :
    ahead.next dialect c ≤ ahead'.next dialect c := by
  obtain ⟨-, hword, -⟩ := h
  refine ⟨le_rfl, ?_, ?_⟩
  · simp only [next]
    split
    · exact List.cons_prefix_cons.2 ⟨rfl, hword⟩
    · exact List.prefix_rfl
  · simp only [next]
    split
    · exact nameCharge_mono hword
    · exact le_rfl

/-- No character is charged more than five. -/
theorem charge_le (h : ahead.opened ≤ 2) (c : Char) : ahead.charge dialect c ≤ 5 := by
  have hcomma : commaCharge dialect ≤ 1 := by cases dialect <;> decide
  simp only [charge, intervalCharge]
  split <;> split <;> split <;> omega

theorem opened_next_le (c : Char) : (ahead.next dialect c).opened ≤ 2 := by
  simp only [next]
  split
  · exact nameCharge_le_two
  · exact Nat.zero_le 2

@[simp] theorem charge_open : ahead.charge dialect '(' = ahead.opened := by
  have hi : (fold '(' == 'i') = false := by decide
  simp [charge, hi]

@[simp] theorem charge_close : ahead.charge dialect ')' = 0 := by
  have hi : (fold ')' == 'i') = false := by decide
  simp [charge, hi]

@[simp] theorem next_open :
    ahead.next dialect '(' = ⟨false, [], nameCharge dialect ahead.word⟩ := rfl

@[simp] theorem next_close : ahead.next dialect ')' = nothing := rfl

end Ahead

end AskSql.Idiom
