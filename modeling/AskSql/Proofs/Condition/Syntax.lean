import AskSql.Proofs.Condition.Tokens

/-! The grammar of conditions.  OR binds least and AND binds less than NOT; parentheses around a
whole condition group it, and what none of this takes apart is an atom.  Keywords count outside
parentheses only, and the AND of a BETWEEN belongs to its atom.  A condition is put together from
others by AND without a change to any of them if each is in parentheses or has no OR outside
them. -/

namespace AskSql.Sql

open Text

/-- A condition over its atoms. -/
inductive Condition
  | atom (tokens : List Token)
  | not (inner : Condition)
  | and (front back : Condition)
  | or (front back : Condition)
deriving Repr, DecidableEq

namespace Condition

/-- Whether two conditions hold together, where either may be unknown. -/
def both : Option Bool → Option Bool → Option Bool
  | some false, _ | _, some false => some false
  | some true, some true => some true
  | _, _ => none

/-- Whether one of two conditions holds, where either may be unknown. -/
def either : Option Bool → Option Bool → Option Bool
  | some true, _ | _, some true => some true
  | some false, some false => some false
  | _, _ => none

/-- Whether a condition holds of a row, where `value` says which atoms do. -/
def eval (value : List Token → Option Bool) : Condition → Option Bool
  | atom tokens => value tokens
  | not inner => (inner.eval value).map (!·)
  | and front back => both (front.eval value) (back.eval value)
  | or front back => either (front.eval value) (back.eval value)

/-- What a condition is the conjunction of. -/
def conjuncts : Condition → List Condition
  | and front back => front.conjuncts ++ back.conjuncts
  | condition => [condition]

theorem both_eq_true {a b : Option Bool} : both a b = some true ↔
    a = some true ∧ b = some true := by
  rcases a with _ | _ | _ <;> rcases b with _ | _ | _ <;> simp [both]

/-- A condition holds exactly if each of its conjuncts does. -/
theorem eval_eq_true {value : List Token → Option Bool} {c : Condition} :
    c.eval value = some true ↔ ∀ d ∈ c.conjuncts, d.eval value = some true := by
  induction c with
  | and front back ihf ihb =>
    rw [eval, both_eq_true, ihf, ihb, conjuncts, List.forall_mem_append]
  | atom | not | or => simp [conjuncts]

end Condition

/-! ### Connectives outside parentheses -/

/-- Whether a token is a keyword, in any case. -/
def Token.reads (key : String) : Token → Bool
  | .word text => text.map fold == key.toList
  | .quoted _ | .mark _ => false

/-- Where a token stands: in how many parentheses, and whether behind a BETWEEN that still waits for
its AND. -/
structure Level where
  depth : Nat := 0
  between : Bool := false
deriving Repr, DecidableEq

/-- In how many parentheses the token behind `t` stands, unless `t` closes what is not open. -/
def depthAfter (depth : Nat) (t : Token) : Option Nat :=
  if t = .mark '(' then some (depth + 1)
  else if t = .mark ')' then if depth = 0 then none else some (depth - 1)
  else some depth

/-- Whether a BETWEEN outside parentheses waits for its AND behind `t`. -/
def waitsAfter (between : Bool) (t : Token) : Bool :=
  t.reads "between" || (between && !t.reads "and")

/-- Where the token behind `t` stands, unless `t` closes what is not open. -/
def Level.next (level : Level) (t : Token) : Option Level :=
  (depthAfter level.depth t).map fun depth =>
    ⟨depth, if level.depth = 0 then waitsAfter level.between t else level.between⟩

/-- Where what follows some tokens stands. -/
def after? (level : Level) (ts : List Token) : Option Level :=
  ts.foldlM Level.next level

/-- Whether each parenthesis and each BETWEEN has what belongs to it. -/
def Balanced (ts : List Token) : Prop :=
  after? {} ts = some {}

instance (ts : List Token) : Decidable (Balanced ts) :=
  inferInstanceAs (Decidable (_ = _))

/-- What stands on the two sides of the first connective outside parentheses that reads `key`. -/
def cut? (key : String) (level : Level) : List Token → Option (List Token × List Token)
  | [] => none
  | t :: ts =>
    if level = {} ∧ t.reads key then some ([], ts)
    else
      match level.next t with
      | none => none
      | some level => (cut? key level ts).map fun (front, back) => (t :: front, back)

/-- What stands behind a NOT. -/
def negated? : List Token → Option (List Token)
  | [] => none
  | t :: ts => if t.reads "not" then some ts else none

/-- What stands in parentheses that enclose everything. -/
def group? : List Token → Option (List Token)
  | [] => none
  | t :: ts =>
    if t = .mark '(' ∧ ts.getLast? = some (.mark ')') ∧ Balanced ts.dropLast then some ts.dropLast
    else none

/-- How the tokens of a condition come apart. -/
inductive Split
  | or (front back : List Token)
  | and (front back : List Token)
  | not (inner : List Token)
  | group (inner : List Token)
  | atom
deriving Repr, DecidableEq

/-- How the tokens of a condition come apart: at an OR, else at an AND, else behind a NOT, else
between parentheses. -/
def split (ts : List Token) : Split :=
  match cut? "or" {} ts, cut? "and" {} ts, negated? ts, group? ts with
  | some (front, back), _, _, _ => .or front back
  | none, some (front, back), _, _ => .and front back
  | none, none, some inner, _ => .not inner
  | none, none, none, some inner => .group inner
  | none, none, none, none => .atom

/-- The condition of some tokens, of which there are no more than the first argument says. -/
def conditionWithin : Nat → List Token → Option Condition
  | 0, _ => none
  | bound + 1, ts =>
    match split ts with
    | .or front back => do
      return .or (← conditionWithin bound front) (← conditionWithin bound back)
    | .and front back => do
      return .and (← conditionWithin bound front) (← conditionWithin bound back)
    | .not inner => (conditionWithin bound inner).map .not
    | .group inner => conditionWithin bound inner
    | .atom => if ts ≠ [] ∧ Balanced ts then some (.atom ts) else none

/-- The condition that a database reads in a text. -/
def condition? (dialect : Dialect) (text : List Char) : Option Condition :=
  (tokens? dialect text).bind fun ts => conditionWithin ts.length ts

/-- The condition of some tokens. -/
inductive Parses : List Token → Condition → Prop
  | or {ts front back : List Token} {c d : Condition} (h : split ts = .or front back)
      (hfront : Parses front c) (hback : Parses back d) : Parses ts (.or c d)
  | and {ts front back : List Token} {c d : Condition} (h : split ts = .and front back)
      (hfront : Parses front c) (hback : Parses back d) : Parses ts (.and c d)
  | not {ts inner : List Token} {c : Condition} (h : split ts = .not inner)
      (hinner : Parses inner c) : Parses ts (.not c)
  | group {ts inner : List Token} {c : Condition} (h : split ts = .group inner)
      (hinner : Parses inner c) : Parses ts c
  | atom {ts : List Token} (h : split ts = .atom) (hne : ts ≠ []) (hbalanced : Balanced ts) :
      Parses ts (.atom ts)

variable {dialect : Dialect} {key : String} {level level' : Level} {t : Token}
  {ts front back inner : List Token} {c d : Condition}

/-! ### Levels -/

@[simp] theorem after?_nil : after? level [] = some level :=
  rfl

theorem after?_cons : after? level (t :: ts) = (level.next t).bind (after? · ts) :=
  rfl

theorem after?_append : after? level (front ++ back) = (after? level front).bind (after? · back) :=
  List.foldlM_append

theorem Token.reads_iff : t.reads key = true ↔
    ∃ text, t = .word text ∧ text.map fold = key.toList := by
  cases t <;> simp [Token.reads]

/-- A connective leaves what is behind it outside parentheses. -/
theorem next_of_reads (h : t.reads key = true) (hkey : key ∈ ["or", "and", "not"]) :
    ({} : Level).next t = some {} := by
  have hall : ∀ k ∈ ["or", "and", "not"], (k.toList == "between".toList) = false := by decide
  obtain ⟨text, rfl, htext⟩ := Token.reads_iff.1 h
  have hbetween : (Token.word text).reads "between" = false := by
    rw [Token.reads, htext, hall key hkey]
  simp [Level.next, depthAfter, waitsAfter, hbetween]

theorem depthAfter_add_one {depth depth' : Nat} (h : depthAfter depth t = some depth') :
    depthAfter (depth + 1) t = some (depth' + 1) := by
  unfold depthAfter at h ⊢
  split at h
  · rename_i hopen
    rw [if_pos hopen, ← Option.some.inj h]
  · rename_i hopen
    rw [if_neg hopen]
    split at h
    · rename_i hclose
      split at h
      · contradiction
      · obtain rfl := Option.some.inj h
        rw [if_pos hclose, if_neg (by omega)]
        congr 1
        omega
    · rename_i hclose
      rw [if_neg hclose, ← Option.some.inj h]

/-- In parentheses, a token is told by the depth alone. -/
theorem next_inside {outer : Bool} (h : level.next t = some level') :
    Level.next ⟨level.depth + 1, outer⟩ t = some ⟨level'.depth + 1, outer⟩ := by
  obtain ⟨depth, hdepth, rfl⟩ := Option.map_eq_some_iff.1 h
  rw [Level.next, depthAfter_add_one hdepth]
  rfl

/-- Between parentheses no connective counts, and what is balanced stays so. -/
theorem inside (h : after? level ts = some level') (outer : Bool) :
    after? ⟨level.depth + 1, outer⟩ ts = some ⟨level'.depth + 1, outer⟩ ∧
      ∀ key, cut? key ⟨level.depth + 1, outer⟩ ts = none := by
  induction ts generalizing level with
  | nil =>
    obtain rfl := Option.some.inj h
    exact ⟨rfl, fun _ => rfl⟩
  | cons t ts ih =>
    rw [after?_cons, Option.bind_eq_some_iff] at h
    obtain ⟨middle, hnext, h⟩ := h
    obtain ⟨hafter, hcut⟩ := ih h
    refine ⟨by rw [after?_cons, next_inside hnext]; exact hafter, fun key => ?_⟩
    rw [cut?, if_neg (by simp), next_inside hnext]
    simp [hcut]

/-! ### Cuts -/

theorem cut?_append (hnone : cut? key level front = none)
    (hafter : after? level front = some level') :
    cut? key level (front ++ back) =
      (cut? key level' back).map fun sides => (front ++ sides.1, sides.2) := by
  induction front generalizing level with
  | nil =>
    obtain rfl := Option.some.inj hafter
    simp
  | cons t front ih =>
    rw [after?_cons, Option.bind_eq_some_iff] at hafter
    obtain ⟨middle, hnext, hafter⟩ := hafter
    rw [cut?] at hnone
    split at hnone
    · contradiction
    · rename_i hkey
      rw [hnext] at hnone
      rw [List.cons_append, cut?, if_neg hkey, hnext]
      simp [ih (by simpa using hnone) hafter, Function.comp_def]

theorem cut?_append_of_some (h : cut? key level front = some (ts, inner)) (back : List Token) :
    cut? key level (front ++ back) = some (ts, inner ++ back) := by
  induction front generalizing level ts with
  | nil => contradiction
  | cons t front ih =>
    rw [cut?] at h
    rw [List.cons_append, cut?]
    split at h
    · rename_i hkey
      obtain ⟨rfl, rfl⟩ := Prod.mk.inj (Option.some.inj h)
      rw [if_pos hkey]
    · rename_i hkey
      rw [if_neg hkey]
      cases hnext : level.next t with
      | none =>
        rw [hnext] at h
        contradiction
      | some middle =>
        rw [hnext] at h
        obtain ⟨⟨ts', inner'⟩, hsides, heq⟩ := Option.map_eq_some_iff.1 h
        obtain ⟨rfl, rfl⟩ := Prod.mk.inj heq
        simp [ih hsides]

/-- A cut is made at a keyword outside parentheses, and at the first of them. -/
theorem cut?_eq_some (h : cut? key level ts = some (front, back)) :
    ∃ t, ts = front ++ t :: back ∧ t.reads key = true ∧ after? level front = some {} ∧
      cut? key level front = none := by
  induction ts generalizing level front with
  | nil => contradiction
  | cons t ts ih =>
    rw [cut?] at h
    split at h
    · rename_i hkey
      obtain ⟨rfl, rfl⟩ := Prod.mk.inj (Option.some.inj h)
      exact ⟨t, rfl, hkey.2, by rw [hkey.1]; rfl, rfl⟩
    · rename_i hkey
      cases hnext : level.next t with
      | none =>
        rw [hnext] at h
        contradiction
      | some middle =>
        rw [hnext] at h
        obtain ⟨⟨front', back'⟩, hsides, heq⟩ := Option.map_eq_some_iff.1 h
        obtain ⟨rfl, rfl⟩ := Prod.mk.inj heq
        obtain ⟨u, rfl, hu, hafter, hnone⟩ := ih hsides
        refine ⟨u, rfl, hu, by rw [after?_cons, hnext]; exact hafter, ?_⟩
        rw [cut?, if_neg hkey, hnext]
        simp [hnone]

/-- Behind a connective, too, there is no cut where there is none at all. -/
theorem cut?_behind {word : String} (hnone : cut? key {} (front ++ t :: back) = none)
    (hafter : after? {} front = some {}) (ht : t.reads word = true)
    (hword : word ∈ ["or", "and", "not"]) :
    cut? key {} front = none ∧ cut? key {} back = none := by
  have hfront : cut? key {} front = none := by
    cases hcut : cut? key {} front with
    | none => rfl
    | some sides =>
      rw [cut?_append_of_some hcut] at hnone
      contradiction
  rw [cut?_append hfront hafter, Option.map_eq_none_iff, cut?] at hnone
  split at hnone
  · contradiction
  · rw [next_of_reads ht hword] at hnone
    exact ⟨hfront, by simpa using hnone⟩

theorem cut?_at (hfront : cut? key {} front = none) (hafter : after? {} front = some {})
    (ht : t.reads key = true) (back : List Token) :
    cut? key {} (front ++ t :: back) = some (front, back) := by
  rw [cut?_append hfront hafter, cut?, if_pos ⟨rfl, ht⟩]
  simp

/-- An AND between two texts without an OR outside parentheses adds none. -/
theorem cut?_or_join (hfront : cut? "or" {} front = none) (hafter : Balanced front)
    (ht : t.reads "and" = true) (hback : cut? "or" {} back = none) :
    cut? "or" {} (front ++ t :: back) = none := by
  have hother : t.reads "or" = false := by
    obtain ⟨text, rfl, htext⟩ := Token.reads_iff.1 ht
    rw [Token.reads, htext]
    decide
  rw [cut?_append hfront hafter, cut?, if_neg (by simp [hother]), next_of_reads ht (by decide)]
  simp [hback]

theorem group?_eq_some : group? ts = some inner ↔
    ts = .mark '(' :: (inner ++ [.mark ')']) ∧ Balanced inner := by
  cases ts with
  | nil => simp [group?]
  | cons t ts =>
    rw [group?]
    constructor
    · intro h
      split at h
      · rename_i hgroup
        obtain ⟨rfl, hlast, hbalanced⟩ := hgroup
        obtain rfl := Option.some.inj h
        obtain ⟨rest, rfl⟩ := List.getLast?_eq_some_iff.1 hlast
        simpa using hbalanced
      · contradiction
    · rintro ⟨heq, hbalanced⟩
      obtain ⟨rfl, rfl⟩ := List.cons.inj heq
      simp [hbalanced]

/-- Parentheses around what is balanced enclose everything. -/
theorem enclosed (h : Balanced inner) :
    Balanced (.mark '(' :: (inner ++ [.mark ')'])) ∧
      ∀ key, cut? key {} (.mark '(' :: (inner ++ [.mark ')'])) = none := by
  have hopen : ({} : Level).next (.mark '(') = some ⟨1, false⟩ := rfl
  have hclose : Level.next ⟨1, false⟩ (.mark ')') = some {} := rfl
  obtain ⟨hafter, hcut⟩ := inside h false
  refine ⟨?_, fun key => ?_⟩
  · rw [Balanced, after?_cons, hopen]
    simp only [Option.bind_some]
    rw [after?_append, hafter]
    rfl
  · rw [cut?, if_neg (by simp [Token.reads]), hopen]
    simp only
    rw [cut?_append (hcut key) hafter]
    rfl

/-! ### Splits -/

theorem split_or_iff : split ts = .or front back ↔ cut? "or" {} ts = some (front, back) := by
  unfold split
  split <;> simp_all

theorem split_and_iff : split ts = .and front back ↔
    cut? "or" {} ts = none ∧ cut? "and" {} ts = some (front, back) := by
  unfold split
  split <;> simp_all

theorem split_not_iff : split ts = .not inner ↔
    cut? "or" {} ts = none ∧ cut? "and" {} ts = none ∧ negated? ts = some inner := by
  unfold split
  split <;> simp_all

theorem split_group_iff : split ts = .group inner ↔
    cut? "or" {} ts = none ∧ cut? "and" {} ts = none ∧ negated? ts = none ∧
      group? ts = some inner := by
  unfold split
  split <;> simp_all

theorem split_atom_iff : split ts = .atom ↔
    cut? "or" {} ts = none ∧ cut? "and" {} ts = none ∧ negated? ts = none ∧ group? ts = none := by
  unfold split
  split <;> simp_all

theorem negated?_eq_some : negated? ts = some inner ↔
    ∃ t, ts = t :: inner ∧ t.reads "not" = true := by
  cases ts with
  | nil => simp [negated?]
  | cons t ts =>
    rw [negated?]
    split <;> simp_all

/-! ### Conditions -/

namespace Parses

/-- What comes apart does so into parts with fewer tokens. -/
theorem conditionWithin_eq (h : Parses ts c) {bound : Nat} (hbound : ts.length ≤ bound) :
    conditionWithin bound ts = some c := by
  induction h generalizing bound with
  | @or ts front back c d h _ _ ihf ihb =>
    obtain ⟨t, rfl, -⟩ := cut?_eq_some (split_or_iff.1 h)
    simp only [List.length_append, List.length_cons] at hbound
    obtain ⟨bound, rfl⟩ : ∃ n, bound = n + 1 := ⟨bound - 1, by omega⟩
    simp [conditionWithin, h, ihf (show front.length ≤ bound by omega),
      ihb (show back.length ≤ bound by omega)]
  | @and ts front back c d h _ _ ihf ihb =>
    obtain ⟨t, rfl, -⟩ := cut?_eq_some (split_and_iff.1 h).2
    simp only [List.length_append, List.length_cons] at hbound
    obtain ⟨bound, rfl⟩ : ∃ n, bound = n + 1 := ⟨bound - 1, by omega⟩
    simp [conditionWithin, h, ihf (show front.length ≤ bound by omega),
      ihb (show back.length ≤ bound by omega)]
  | @not ts inner c h _ ih =>
    obtain ⟨t, rfl, -⟩ := negated?_eq_some.1 (split_not_iff.1 h).2.2
    simp only [List.length_cons] at hbound
    obtain ⟨bound, rfl⟩ : ∃ n, bound = n + 1 := ⟨bound - 1, by omega⟩
    simp [conditionWithin, h, ih (show inner.length ≤ bound by omega)]
  | @group ts inner c h _ ih =>
    obtain ⟨rfl, -⟩ := group?_eq_some.1 (split_group_iff.1 h).2.2.2
    simp only [List.length_cons, List.length_append, List.length_nil] at hbound
    obtain ⟨bound, rfl⟩ : ∃ n, bound = n + 1 := ⟨bound - 1, by omega⟩
    simp [conditionWithin, h, ih (show inner.length ≤ bound by omega)]
  | @atom ts h hne hbalanced =>
    have hpos := List.length_pos_of_ne_nil hne
    obtain ⟨bound, rfl⟩ : ∃ n, bound = n + 1 := ⟨bound - 1, by omega⟩
    simp [conditionWithin, h, hne, hbalanced]

theorem of_conditionWithin {bound : Nat} (h : conditionWithin bound ts = some c) : Parses ts c := by
  induction bound generalizing ts c with
  | zero => contradiction
  | succ bound ih =>
    rw [conditionWithin] at h
    cases hsplit : split ts with
    | or front back =>
      simp only [hsplit, Option.bind_eq_bind, Option.bind_eq_some_iff] at h
      obtain ⟨c, hfront, d, hback, heq⟩ := h
      obtain rfl := Option.some.inj heq
      exact .or hsplit (ih hfront) (ih hback)
    | and front back =>
      simp only [hsplit, Option.bind_eq_bind, Option.bind_eq_some_iff] at h
      obtain ⟨c, hfront, d, hback, heq⟩ := h
      obtain rfl := Option.some.inj heq
      exact .and hsplit (ih hfront) (ih hback)
    | not inner =>
      simp only [hsplit, Option.map_eq_some_iff] at h
      obtain ⟨c, hinner, rfl⟩ := h
      exact .not hsplit (ih hinner)
    | group inner =>
      simp only [hsplit] at h
      exact .group hsplit (ih h)
    | atom =>
      simp only [hsplit] at h
      split at h
      · rename_i hatom
        obtain rfl := Option.some.inj h
        exact .atom hsplit hatom.1 hatom.2
      · contradiction

theorem balanced (h : Parses ts c) : Balanced ts := by
  have hjoined : ∀ {t : Token} {key : String} {front back : List Token}, t.reads key = true →
      key ∈ ["or", "and", "not"] → Balanced front → Balanced back →
      Balanced (front ++ t :: back) := by
    intro t key front back ht hkey hfront hback
    rw [Balanced] at hfront ⊢
    rw [after?_append, hfront, Option.bind_some, after?_cons, next_of_reads ht hkey]
    exact hback
  induction h with
  | or h _ _ ihf ihb =>
    obtain ⟨t, rfl, ht, -⟩ := cut?_eq_some (split_or_iff.1 h)
    exact hjoined ht (by decide) ihf ihb
  | and h _ _ ihf ihb =>
    obtain ⟨t, rfl, ht, -⟩ := cut?_eq_some (split_and_iff.1 h).2
    exact hjoined ht (by decide) ihf ihb
  | not h _ ih =>
    obtain ⟨t, rfl, ht⟩ := negated?_eq_some.1 (split_not_iff.1 h).2.2
    exact @hjoined t "not" [] _ ht (by decide) rfl ih
  | group h _ ih =>
    obtain ⟨rfl, -⟩ := group?_eq_some.1 (split_group_iff.1 h).2.2.2
    exact (enclosed ih).1
  | atom _ _ hbalanced => exact hbalanced

/-- Parentheses around a condition leave the condition. -/
theorem parenthesized (h : Parses inner c) :
    Parses (.mark '(' :: (inner ++ [.mark ')'])) c := by
  have hcut := (enclosed h.balanced).2
  refine .group (split_group_iff.2 ⟨hcut "or", hcut "and", ?_, ?_⟩) h
  · simp [negated?, Token.reads]
  · exact group?_eq_some.2 ⟨rfl, h.balanced⟩

/-- A front without an AND outside parentheses is the front of the whole. -/
theorem and_of_cut (h : Parses front c) (hor : cut? "or" {} front = none)
    (hand : cut? "and" {} front = none) (ht : t.reads "and" = true) (hback : Parses back d)
    (hback' : cut? "or" {} back = none) : Parses (front ++ t :: back) (.and c d) :=
  .and (split_and_iff.2 ⟨cut?_or_join hor h.balanced ht hback', cut?_at hand h.balanced ht back⟩)
    h hback

/-- Conditions without an OR outside parentheses are joined by AND into their conjunction. -/
theorem join (h : Parses front c) (hor : cut? "or" {} front = none) (ht : t.reads "and" = true)
    (hback : Parses back d) (hback' : cut? "or" {} back = none) :
    ∃ e, Parses (front ++ t :: back) e ∧ e.conjuncts = c.conjuncts ++ d.conjuncts := by
  have hall := h
  induction h with
  | or h =>
    rw [split_or_iff.1 h] at hor
    contradiction
  | @and ts a b x y h ha hb _ ihb =>
    -- The first AND of the front stays the first, so the back goes to what stands behind it.
    have hcut := (split_and_iff.1 h).2
    obtain ⟨u, rfl, hu, hafter, -⟩ := cut?_eq_some hcut
    obtain ⟨e, he, hconjuncts⟩ := ihb (cut?_behind hor hafter hu (by decide)).2 hb
    have hwhole := cut?_or_join hor hall.balanced ht hback'
    refine ⟨.and x e, .and (split_and_iff.2 ⟨hwhole, cut?_append_of_some hcut _⟩) ha he, ?_⟩
    rw [Condition.conjuncts, hconjuncts, Condition.conjuncts, List.append_assoc]
  | not h => exact ⟨_, hall.and_of_cut hor (split_not_iff.1 h).2.1 ht hback hback', rfl⟩
  | group h => exact ⟨_, hall.and_of_cut hor (split_group_iff.1 h).2.1 ht hback hback', rfl⟩
  | atom h => exact ⟨_, hall.and_of_cut hor (split_atom_iff.1 h).2.1 ht hback hback', rfl⟩

end Parses

end AskSql.Sql
