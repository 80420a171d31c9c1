import AskSql.Proofs.Condition.Operands
import AskSql.Proofs.LogicalName.Pass

/-! Conditions with the names of attributes replaced by columns.  A name that stands outside quotes
and by itself is an operand before and after, so the condition keeps its structure and only tokens
of its atoms change. -/

namespace AskSql.Sql

open Text

variable {dialect : Dialect} {r : List Token → List Token → Prop} {t : Token}
  {ts us old new front back : List Token} {level : Level} {key : String} {c : Condition}

/-! ### Operands replaced -/

/-- The same tokens but for operands that others stand for. -/
inductive Alike (r : List Token → List Token → Prop) : List Token → List Token → Prop
  | nil : Alike r [] []
  | same (t : Token) {ts us : List Token} (h : Alike r ts us) : Alike r (t :: ts) (t :: us)
  | swap {old new ts us : List Token} (hswap : r old new) (h : Alike r ts us) :
      Alike r (old ++ ts) (new ++ us)

/-- The same structure, with atoms that are the same but for operands that others stand for. -/
inductive Condition.Alike (r : List Token → List Token → Prop) : Condition → Condition → Prop
  | atom {ts us : List Token} (h : Sql.Alike r ts us) : Alike r (.atom ts) (.atom us)
  | not {c d : Condition} (h : Alike r c d) : Alike r (.not c) (.not d)
  | and {c c' d d' : Condition} (h : Alike r c d) (h' : Alike r c' d') :
      Alike r (.and c c') (.and d d')
  | or {c c' d d' : Condition} (h : Alike r c d) (h' : Alike r c' d') :
      Alike r (.or c c') (.or d d')

theorem rel_map {α β γ δ : Type} {p : α → β → Prop} {q : γ → δ → Prop} {f : α → γ} {g : β → δ}
    {x : Option α} {y : Option β} (h : Option.Rel p x y) (himp : ∀ a b, p a b → q (f a) (g b)) :
    Option.Rel q (x.map f) (y.map g) := by
  cases h with
  | some hab => exact .some (himp _ _ hab)
  | none => exact .none

/-- The sides of two cuts. -/
def AlikeSides (r : List Token → List Token → Prop) (x y : List Token × List Token) : Prop :=
  Alike r x.1 y.1 ∧ Alike r x.2 y.2

namespace Alike

theorem append_left (h : Alike r ts us) : ∀ front : List Token, Alike r (front ++ ts) (front ++ us)
  | [] => h
  | t :: front => .same t (append_left h front)

theorem flip (h : Alike r ts us) : Alike (fun new old => r old new) us ts := by
  induction h with
  | nil => exact .nil
  | same t _ ih => exact .same t ih
  | swap hswap _ ih => exact .swap hswap ih

variable (hr : ∀ old new, r old new → Operand old ∧ Operand new)
include hr

theorem after?_eq (h : Alike r ts us) (level : Level) : after? level ts = after? level us := by
  induction h generalizing level with
  | nil => rfl
  | same t _ ih =>
    rw [after?_cons, after?_cons]
    exact congrArg (Option.bind (level.next t)) (funext ih)
  | swap hswap _ ih =>
    rw [after?_append, after?_append, (hr _ _ hswap).1.contained.after,
      (hr _ _ hswap).2.contained.after]
    exact ih level

theorem balanced (h : Alike r ts us) (hts : Balanced ts) : Balanced us :=
  (h.after?_eq hr {}).symm.trans hts

theorem cut (h : Alike r ts us) (hkey : key ∈ ["or", "and"]) (level : Level) :
    Option.Rel (AlikeSides r) (cut? key level ts) (cut? key level us) := by
  induction h generalizing level with
  | nil => exact .none
  | @same t ts us h ih =>
    rw [cut?, cut?]
    split
    · exact .some ⟨.nil, h⟩
    · cases level.next t with
      | none => exact .none
      | some middle => exact rel_map (ih middle) fun _ _ hsides => ⟨.same t hsides.1, hsides.2⟩
  | @swap old new ts us hswap _ ih =>
    obtain ⟨hold, hnew⟩ := hr _ _ hswap
    rw [cut?_append (hold.contained.cut level key hkey) (hold.contained.after level),
      cut?_append (hnew.contained.cut level key hkey) (hnew.contained.after level)]
    exact rel_map (ih level) fun _ _ hsides => ⟨.swap hswap hsides.1, hsides.2⟩

theorem cut_none (h : Alike r ts us) (hkey : key ∈ ["or", "and"]) (hts : cut? key {} ts = none) :
    cut? key {} us = none := by
  have hcut := h.cut hr hkey {}
  rw [hts] at hcut
  generalize cut? key {} us = sides at hcut
  cases hcut
  rfl

theorem cut_some (h : Alike r ts us) (hkey : key ∈ ["or", "and"])
    (hts : cut? key {} ts = some (front, back)) :
    ∃ front' back', cut? key {} us = some (front', back') ∧ Alike r front front' ∧
      Alike r back back' := by
  have hcut := h.cut hr hkey {}
  rw [hts] at hcut
  generalize cut? key {} us = sides at hcut
  cases hcut with
  | some hsides => exact ⟨_, _, rfl, hsides.1, hsides.2⟩

/-- A token that stands in no operand stays where it is. -/
theorem split_at (ht : t.isPlain = false) (h : Alike r (front ++ t :: back) us) :
    ∃ front' back', us = front' ++ t :: back' ∧ Alike r front front' ∧ Alike r back back' := by
  generalize hwhole : front ++ t :: back = whole at h
  induction h generalizing front with
  | nil => simp at hwhole
  | @same u ts us h ih =>
    cases front with
    | nil =>
      obtain ⟨rfl, rfl⟩ := List.cons.inj hwhole
      exact ⟨[], us, rfl, .nil, h⟩
    | cons v front =>
      obtain ⟨rfl, htail⟩ := List.cons.inj hwhole
      obtain ⟨front', back', rfl, hfront, hback⟩ := ih htail
      exact ⟨v :: front', back', rfl, .same v hfront, hback⟩
  | @swap old new ts us hswap h ih =>
    have hplain := (hr _ _ hswap).1.plain
    rcases List.append_eq_append_iff.1 hwhole with ⟨rest, rfl, hrest⟩ | ⟨rest, rfl, hrest⟩
    · cases rest with
      | nil =>
        obtain ⟨front', back', rfl, hfront, hback⟩ := @ih [] hrest
        refine ⟨new ++ front', back', by simp, ?_, hback⟩
        simpa using Alike.swap hswap hfront
      | cons u rest =>
        obtain ⟨rfl, -⟩ := List.cons.inj hrest
        rw [hplain t (by simp)] at ht
        contradiction
    · obtain ⟨front', back', rfl, hfront, hback⟩ := ih hrest.symm
      exact ⟨new ++ front', back', by simp, .swap hswap hfront, hback⟩

theorem eq_nil (h : Alike r [] us) : us = [] := by
  generalize hnil : [] = ts at h
  cases h with
  | nil => rfl
  | same => contradiction
  | @swap old new ts us hswap _ =>
    exact absurd (List.append_eq_nil_iff.1 hnil.symm).1 (hr _ _ hswap).1.ne_nil

theorem split_head (ht : t.isPlain = false) (h : Alike r (t :: ts) us) :
    ∃ rest, us = t :: rest ∧ Alike r ts rest := by
  have hsplit : Alike r ([] ++ t :: ts) us := h
  obtain ⟨front, rest, rfl, hfront, hrest⟩ := hsplit.split_at hr ht
  obtain rfl := hfront.eq_nil hr
  exact ⟨rest, rfl, hrest⟩

theorem negated (h : Alike r ts us) (hts : negated? ts = some old) :
    ∃ new, negated? us = some new ∧ Alike r old new := by
  obtain ⟨t, rfl, ht⟩ := negated?_eq_some.1 hts
  obtain ⟨rest, rfl, hrest⟩ := h.split_head hr (by simp [Token.isPlain, Token.isApart, ht])
  exact ⟨rest, negated?_eq_some.2 ⟨t, rfl, ht⟩, hrest⟩

theorem group (h : Alike r ts us) (hts : group? ts = some old) :
    ∃ new, group? us = some new ∧ Alike r old new := by
  obtain ⟨rfl, hbalanced⟩ := group?_eq_some.1 hts
  obtain ⟨rest, rfl, hrest⟩ := h.split_head hr (by decide)
  obtain ⟨inner, last, rfl, hinner, hlast⟩ := hrest.split_at hr (by decide)
  obtain rfl := hlast.eq_nil hr
  exact ⟨inner, group?_eq_some.2 ⟨rfl, hinner.balanced hr hbalanced⟩, hinner⟩

theorem negated_none (h : Alike r ts us) (hts : negated? ts = none) : negated? us = none := by
  cases hus : negated? us with
  | none => rfl
  | some inner =>
    obtain ⟨outer, houter, -⟩ := h.flip.negated (fun new old hswap => (hr old new hswap).symm) hus
    rw [hts] at houter
    contradiction

theorem group_none (h : Alike r ts us) (hts : group? ts = none) : group? us = none := by
  cases hus : group? us with
  | none => rfl
  | some inner =>
    obtain ⟨outer, houter, -⟩ := h.flip.group (fun new old hswap => (hr old new hswap).symm) hus
    rw [hts] at houter
    contradiction

end Alike

/-- A condition keeps its structure when operands are replaced. -/
theorem Parses.alike (hr : ∀ old new, r old new → Operand old ∧ Operand new) (h : Parses ts c)
    (halike : Alike r ts us) : ∃ d, Parses us d ∧ c.Alike r d := by
  induction h generalizing us with
  | or h _ _ ihf ihb =>
    obtain ⟨front, back, hcut, hfront, hback⟩ :=
      halike.cut_some hr (by simp) (split_or_iff.1 h)
    obtain ⟨c, hc, hcalike⟩ := ihf hfront
    obtain ⟨d, hd, hdalike⟩ := ihb hback
    exact ⟨.or c d, .or (split_or_iff.2 hcut) hc hd, .or hcalike hdalike⟩
  | and h _ _ ihf ihb =>
    obtain ⟨hor, hand⟩ := split_and_iff.1 h
    obtain ⟨front, back, hcut, hfront, hback⟩ := halike.cut_some hr (by simp) hand
    obtain ⟨c, hc, hcalike⟩ := ihf hfront
    obtain ⟨d, hd, hdalike⟩ := ihb hback
    have hor' := halike.cut_none hr (by simp) hor
    exact ⟨.and c d, .and (split_and_iff.2 ⟨hor', hcut⟩) hc hd, .and hcalike hdalike⟩
  | not h _ ih =>
    obtain ⟨hor, hand, hnegated⟩ := split_not_iff.1 h
    obtain ⟨inner, hinner, hinnerAlike⟩ := halike.negated hr hnegated
    obtain ⟨c, hc, hcalike⟩ := ih hinnerAlike
    have hor' := halike.cut_none hr (by simp) hor
    have hand' := halike.cut_none hr (by simp) hand
    exact ⟨.not c, .not (split_not_iff.2 ⟨hor', hand', hinner⟩) hc, .not hcalike⟩
  | group h _ ih =>
    obtain ⟨hor, hand, hnegated, hgroup⟩ := split_group_iff.1 h
    obtain ⟨inner, hinner, hinnerAlike⟩ := halike.group hr hgroup
    obtain ⟨c, hc, hcalike⟩ := ih hinnerAlike
    have hor' := halike.cut_none hr (by simp) hor
    have hand' := halike.cut_none hr (by simp) hand
    have hnegated' := halike.negated_none hr hnegated
    exact ⟨c, .group (split_group_iff.2 ⟨hor', hand', hnegated', hinner⟩) hc, hcalike⟩
  | atom h hne hbalanced =>
    obtain ⟨hor, hand, hnegated, hgroup⟩ := split_atom_iff.1 h
    have hsplit := split_atom_iff.2 ⟨halike.cut_none hr (by simp) hor,
      halike.cut_none hr (by simp) hand, halike.negated_none hr hnegated,
      halike.group_none hr hgroup⟩
    refine ⟨.atom us, .atom hsplit ?_ (halike.balanced hr hbalanced), .atom halike⟩
    rintro rfl
    exact hne (halike.flip.eq_nil fun new old hswap => (hr old new hswap).symm)

/-! ### Names replaced -/

variable {columns : List (String × String)} {reader : Reader} {text out before : List Char}

/-- Tokens that stand for those of a name: those of its column. -/
def Replaces (dialect : Dialect) (columns : List (String × String)) (old new : List Token) : Prop :=
  ∃ entry ∈ columns, (tokens? dialect entry.1.toList = some old ∧ Operand old) ∧
    tokens? dialect (escapeChars dialect entry.2.toList) = some new ∧ Operand new

/-- Whether a reader stands outside words, quotes and comments. -/
def Reader.isOutside : Reader → Bool
  | .code _ => true
  | _ => false

/-- A name can be replaced by a column behind what a reader has read: it begins outside words and
quotes, it is an operand and so is the column, and `rest` goes on with neither. -/
structure Replaceable (dialect : Dialect) (reader : Reader) (name column : String)
    (rest : List Char) : Prop where
  outside : reader.isOutside = true
  name : isOperandName dialect name.toList = true
  column : WellQuoted dialect column
  ending : ∀ c ∈ rest.head?, isEnding c = true

instance (dialect : Dialect) (reader : Reader) (name column : String) (rest : List Char) :
    Decidable (Replaceable dialect reader name column rest) :=
  decidable_of_iff
    (reader.isOutside = true ∧ isOperandName dialect name.toList = true ∧
    WellQuoted dialect column ∧
      ∀ c ∈ rest.head?, isEnding c = true)
    ⟨fun h => ⟨h.1, h.2.1, h.2.2.1, h.2.2.2⟩, fun h => ⟨h.outside, h.name, h.column, h.ending⟩⟩

/-- Each name that is replaced at the front of `cs` can be replaced there. -/
def FreeHere (dialect : Dialect) (columns : List (String × String)) (reader : Reader)
    (before cs : List Char) : Prop :=
  isReplaced before cs = true → ∀ afterName, ∀ entry ∈ nameAt? columns before.head? afterName cs,
    Replaceable dialect reader entry.1 entry.2 (cs.drop entry.1.toList.length)

instance (dialect : Dialect) (columns : List (String × String)) (reader : Reader)
    (before cs : List Char) : Decidable (FreeHere dialect columns reader before cs) :=
  inferInstanceAs (Decidable (_ → ∀ _, ∀ _ ∈ _, _))

/-- Each name that is replaced in a text can be replaced there. -/
def Free (dialect : Dialect) (columns : List (String × String)) (reader : Reader)
    (before : List Char) : List Char → Prop
  | [] => FreeHere dialect columns reader before []
  | c :: cs =>
    FreeHere dialect columns reader before (c :: cs) ∧
      Free dialect columns (reader.next dialect c).2 (c :: before) cs

instance decidableFree (dialect : Dialect) (columns : List (String × String)) :
    ∀ (text : List Char) (reader : Reader) (before : List Char),
      Decidable (Free dialect columns reader before text)
  | [], reader, before => inferInstanceAs (Decidable (FreeHere dialect columns reader before []))
  | c :: cs, reader, before =>
    have := decidableFree dialect columns cs (reader.next dialect c).2 (c :: before)
    inferInstanceAs (Decidable (_ ∧ _))

/-- A text with names replaced as a reader goes through it. -/
inductive Rewritten (dialect : Dialect) (columns : List (String × String)) :
    Reader → List Char → List Char → Prop
  | nil (reader : Reader) : Rewritten dialect columns reader [] []
  | keep {reader : Reader} {c : Char} {text out : List Char}
      (h : Rewritten dialect columns (reader.next dialect c).2 text out) :
      Rewritten dialect columns reader (c :: text) (c :: out)
  | last {entry : String × String} {done done' : List Token} {last last' : Token}
      (before : Option Char) (hmem : entry ∈ columns)
      (hold : Stands dialect entry.1.toList done last)
      (hnew : Stands dialect (escapeChars dialect entry.2.toList) done' last') :
      Rewritten dialect columns (.code before) entry.1.toList (escapeChars dialect entry.2.toList)
  | name {entry : String × String} {done done' : List Token} {last last' : Token} {c : Char}
      {text out : List Char} (before : Option Char) (hmem : entry ∈ columns)
      (hold : Stands dialect entry.1.toList done last)
      (hnew : Stands dialect (escapeChars dialect entry.2.toList) done' last')
      (hc : isEnding c = true)
      (h : Rewritten dialect columns (Reader.enter dialect none c).2 text out) :
      Rewritten dialect columns (.code before) (entry.1.toList ++ c :: text)
        (escapeChars dialect entry.2.toList ++ c :: out)

theorem operands_of_replaces (old new : List Token) (h : Replaces dialect columns old new) :
    Operand old ∧ Operand new := by
  obtain ⟨-, -, ⟨-, hold⟩, -, hnew⟩ := h
  exact ⟨hold, hnew⟩

theorem replaces_of_stands {entry : String × String} {done done' : List Token} {last last' : Token}
    (hmem : entry ∈ columns) (hold : Stands dialect entry.1.toList done last)
    (hnew : Stands dialect (escapeChars dialect entry.2.toList) done' last') :
    Replaces dialect columns (done ++ [last]) (done' ++ [last']) :=
  ⟨entry, hmem, ⟨hold.tokens?_eq, hold.operand⟩, hnew.tokens?_eq, hnew.operand⟩

/-- A rewritten text has the same tokens but for those of the names. -/
theorem Rewritten.tokens? (h : Rewritten dialect columns reader text out)
    (hts : reader.tokens? dialect text = some ts) :
    ∃ us, reader.tokens? dialect out = some us ∧ Alike (Replaces dialect columns) ts us := by
  induction h generalizing ts with
  | nil reader =>
    refine ⟨ts, hts, ?_⟩
    simpa using Alike.nil.append_left ts
  | @keep reader c text out _ ih =>
    rw [Reader.tokens?_cons] at hts ⊢
    obtain ⟨more, hmore, rfl⟩ := Option.map_eq_some_iff.1 hts
    obtain ⟨us, hus, halike⟩ := ih hmore
    exact ⟨_, by rw [hus]; rfl, halike.append_left _⟩
  | last before hmem hold hnew =>
    obtain rfl := Option.some.inj ((hold.tokens?_code before).symm.trans hts)
    refine ⟨_, hnew.tokens?_code before, ?_⟩
    simpa using Alike.swap (replaces_of_stands hmem hold hnew) .nil
  | @name entry done done' last last' c text out before hmem hold hnew hc _ ih =>
    rw [hold.tokens?_append before hc] at hts
    rw [hnew.tokens?_append before hc]
    obtain ⟨more, hmore, rfl⟩ := Option.map_eq_some_iff.1 hts
    obtain ⟨us, hus, halike⟩ := ih hmore
    refine ⟨_, by rw [hus]; rfl, ?_⟩
    simpa using Alike.swap (replaces_of_stands hmem hold hnew)
      (halike.append_left (Reader.enter dialect none c).1)

/-! ### The pass over a text -/

theorem Free.drop {word rest : List Char} (h : Free dialect columns reader before (word ++ rest)) :
    Free dialect columns (reader.read dialect word).2 (word.reverse ++ before) rest := by
  induction word generalizing reader before with
  | nil => exact h
  | cons c word ih =>
    have hlater := ih h.2
    simpa [Reader.read] using hlater

theorem Free.here {cs : List Char} (h : Free dialect columns reader before cs) :
    FreeHere dialect columns reader before cs := by
  cases cs with
  | nil => exact h
  | cons c cs => exact h.1

theorem Rewritten.keep_all {word : List Char}
    (h : Rewritten dialect columns (reader.read dialect word).2 text out) :
    Rewritten dialect columns reader (word ++ text) (word ++ out) := by
  induction word generalizing reader with
  | nil => exact h
  | cons c word ih => exact .keep (ih h)

/-- Behind what has ended, the next character is kept. -/
theorem Rewritten.cons_of_ends {last : Token} {c : Char} (hends : reader.Ends last)
    (h : Rewritten dialect columns reader (c :: text) out) :
    ∃ rest, out = c :: rest ∧ Rewritten dialect columns (reader.next dialect c).2 text rest := by
  generalize hwhole : c :: text = whole at h
  cases h with
  | nil => contradiction
  | keep h =>
    obtain ⟨rfl, rfl⟩ := List.cons.inj hwhole
    exact ⟨_, rfl, h⟩
  | last => cases hends
  | name => cases hends

theorem Replaceable.ne_nil {name column : String} {rest : List Char}
    (h : Replaceable dialect reader name column rest) : name.toList ≠ [] := by
  intro hnil
  have hname := h.name
  rw [hnil] at hname
  contradiction

/-- Nothing stands for a name at the end of a text. -/
theorem replaceNamesFrom_nil {afterName : Bool} (h : FreeHere dialect columns reader before []) :
    replaceNamesFrom dialect columns before afterName 0 [] = [] := by
  cases hfound : nameAt? columns before.head? afterName [] with
  | none => simp [replaceNamesFrom, hfound]
  | some entry =>
    obtain ⟨-, rest, hrest⟩ := nameAt?_eq_some hfound
    have hnil : entry.1.toList = [] := (List.append_eq_nil_iff.1 hrest.symm).1
    have hkept : isReplaced before [] = false := by
      cases hreplaced : isReplaced before [] with
      | false => rfl
      | true => exact absurd hnil (h hreplaced afterName entry hfound).ne_nil
    simp [replaceNamesFrom, hfound, replacement_eq, hkept, hnil]

/-- A name that can be replaced is rewritten as its column. -/
theorem Rewritten.replace {entry : String × String} {rest : List Char} (hmem : entry ∈ columns)
    (h : Replaceable dialect reader entry.1 entry.2 rest)
    (hrest : Rewritten dialect columns (reader.read dialect entry.1.toList).2 rest out) :
    Rewritten dialect columns reader (entry.1.toList ++ rest)
      (escapeChars dialect entry.2.toList ++ out) := by
  obtain ⟨first, rfl⟩ : ∃ first, reader = .code first := by
    have houtside := h.outside
    cases reader with
    | code first => exact ⟨first, rfl⟩
    | _ => contradiction
  obtain ⟨done, last, hold⟩ := stands_of_isOperandName h.name
  obtain ⟨done', last', hnew⟩ := stands_escapeChars h.column
  obtain ⟨behind, hends, hread⟩ := hold.reads
  have hbehind : behind.Behind entry.1.toList := by
    have hstart := @Reader.behind_start dialect entry.1.toList
    rwa [hread none] at hstart
  rw [hread first] at hrest
  cases rest with
  | nil =>
    obtain rfl : out = [] := by
      generalize hnil : [] = text at hrest
      cases hrest with
      | nil => rfl
      | keep => contradiction
      | last => cases hends
      | name => cases hends
    simpa using Rewritten.last first hmem hold hnew
  | cons c rest =>
    have hc := h.ending c rfl
    obtain ⟨out, rfl, hlater⟩ := hrest.cons_of_ends hends
    rw [hends.next hbehind hc] at hlater
    exact .name first hmem hold hnew hc hlater

/-- The pass rewrites a text whose names can be replaced. -/
theorem Free.rewritten {names : List (String × String)} (hsub : columns ⊆ names)
    (h : Free dialect columns reader before text) (afterName : Bool) :
    Rewritten dialect names reader text
      (replaceNamesFrom dialect columns before afterName 0 text) := by
  induction hlength : text.length using Nat.strong_induction_on
    generalizing text reader before afterName with
  | _ length ih =>
    subst hlength
    cases text with
    | nil =>
      rw [replaceNamesFrom_nil h]
      exact .nil reader
    | cons c cs =>
      have hkeep := ih cs.length (by simp) h.2 false rfl
      cases hfound : nameAt? columns before.head? afterName (c :: cs) with
      | none =>
        rw [replaceNamesFrom_keep hfound]
        exact .keep hkeep
      | some entry =>
        obtain ⟨hmem, rest, hrest⟩ := nameAt?_eq_some hfound
        have hreplaceable := fun hreplaced => h.here hreplaced afterName entry hfound
        by_cases hname : entry.1.toList = []
        · -- The empty name is never replaced, so nothing stands before the character.
          have hkept : ¬isReplaced before (c :: cs) = true := fun hreplaced =>
            (hreplaceable hreplaced).ne_nil hname
          rw [replaceNamesFrom_empty hname hfound, replacement_eq, if_neg hkept, hname,
            List.nil_append]
          exact .keep hkeep
        · have hshorter : rest.length < (c :: cs).length := by
            rw [hrest, List.length_append]
            have := List.length_pos_iff.2 hname
            omega
          rw [hrest] at h hfound hreplaceable ⊢
          have hlater := ih rest.length hshorter h.drop true rfl
          rw [replaceNamesFrom_name hname hfound, replacement_eq]
          split
          · rename_i hreplaced
            have hhere := hreplaceable hreplaced
            rw [List.drop_left] at hhere
            exact .replace (hsub hmem) hhere hlater
          · exact hlater.keep_all

/-- A condition keeps its structure when the names of attributes are replaced by columns. -/
theorem condition?_replaceNames {names : Keyed String} (h : condition? dialect text = some c)
    (hfree : Free dialect (byLength names.entries) (.code none) [] text) :
    ∃ d, condition? dialect (replaceNames dialect names text) = some d ∧
      c.Alike (Replaces dialect names.entries) d := by
  obtain ⟨ts, hts, hparses⟩ := condition?_eq_some.1 h
  have hsub : byLength names.entries ⊆ names.entries := fun _ hmem => List.mem_mergeSort.1 hmem
  obtain ⟨us, hus, halike⟩ := (hfree.rewritten hsub false).tokens? hts
  obtain ⟨d, hd, hcalike⟩ := hparses.alike operands_of_replaces halike
  exact ⟨d, condition?_eq_some.2 ⟨us, hus, hd⟩, hcalike⟩

end AskSql.Sql
