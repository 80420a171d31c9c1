import Mathlib.Data.List.Induction
import AskSql.Proofs.Idiom.Operands
import AskSql.Proofs.Text.Taken

/-! Quoted names in SQL text.  A text is read as characters outside quotes, string literals and
quoted names.  There is one way to read it, so that a part of it that is cut off between two of
these is read as it was in the whole. -/

namespace AskSql.Sql

open Text Idiom

/-! ### Names -/

/-- A quoted identifier: its content between what opens and what closes it. -/
structure QuotedName where
  opening : Char
  content : List Char
  closing : Char
deriving Repr, DecidableEq

/-- A quoted identifier as it is written. -/
def QuotedName.text (name : QuotedName) : List Char :=
  name.opening :: name.content ++ [name.closing]

/-- Whether the parentheses of a text match.  The text is read backwards, and `depth` parentheses
have been closed before. -/
def isNestedFrom (depth : Nat) : List Char → Bool
  | [] => depth == 0
  | c :: cs =>
    if c = ')' then isNestedFrom (depth + 1) cs
    else if c = '(' then
      match depth with
      | 0 => false
      | depth + 1 => isNestedFrom depth cs
    else isNestedFrom depth cs

/-- Whether a sign in a text stands before the keyword `INTERVAL`. -/
def addsInterval : List Char → Bool
  | [] => false
  | c :: cs =>
    (c == '+' || c == '-') && (keyword? "interval" (trimStart cs)).isSome || addsInterval cs

/-- A name that no rule of translation takes for anything else: it has no quote in it that could
open or close something, its parentheses match, and it has no clock keyword, no call of a date
function and no interval behind a sign. -/
structure Harmless (name : QuotedName) : Prop where
  kind : (name.opening, name.closing) ∈ [('[', ']'), ('"', '"'), ('`', '`')]
  opening : name.opening ∉ name.content
  closing : name.closing ∉ name.content
  quotes : '\'' ∉ name.content
  nested : isNestedFrom 0 name.content.reverse = true
  quiet : isQuiet name.text = true
  calm : addsInterval name.text = false

instance (name : QuotedName) : Decidable (Harmless name) :=
  decidable_of_iff ((name.opening, name.closing) ∈ [('[', ']'), ('"', '"'), ('`', '`')] ∧
      name.opening ∉ name.content ∧ name.closing ∉ name.content ∧ '\'' ∉ name.content ∧
      isNestedFrom 0 name.content.reverse = true ∧ isQuiet name.text = true ∧
      addsInterval name.text = false)
    ⟨fun ⟨h1, h2, h3, h4, h5, h6, h7⟩ => ⟨h1, h2, h3, h4, h5, h6, h7⟩,
      fun ⟨h1, h2, h3, h4, h5, h6, h7⟩ => ⟨h1, h2, h3, h4, h5, h6, h7⟩⟩

/-- Whether `c` opens a quoted name. -/
def opensName (c : Char) : Bool :=
  c == '[' || c == '"' || c == '`'

/-- Whether `c` neither opens nor closes a name or a literal. -/
def isBare (c : Char) : Bool :=
  !opensName c && c != '\'' && c != ']'

/-- `text` consists of characters outside quotes, string literals and the quoted names `names`, each
of them harmless.  A quote doubled in a literal ends one literal and begins the next. -/
inductive NamesIn : List Char → List QuotedName → Prop
  | nil : NamesIn [] []
  | bare {c : Char} {text : List Char} {names : List QuotedName} (hc : isBare c = true)
      (h : NamesIn text names) : NamesIn (c :: text) names
  | literal {content text : List Char} {names : List QuotedName} (hcontent : '\'' ∉ content)
      (h : NamesIn text names) : NamesIn (quoted content ++ text) names
  | name {name : QuotedName} {text : List Char} {names : List QuotedName} (hname : Harmless name)
      (h : NamesIn text names) : NamesIn (name.text ++ text) (name :: names)

/-- `text` can be read, and the quoted names in it are `names` at least. -/
def Carries (names : List QuotedName) (text : List Char) : Prop :=
  ∃ found, NamesIn text found ∧ names ⊆ found

variable {text front back : List Char} {name : QuotedName} {names more : List QuotedName}

namespace Harmless

theorem opensName_opening (h : Harmless name) : opensName name.opening = true := by
  have hall : ∀ kind ∈ [('[', ']'), ('"', '"'), ('`', '`')], opensName kind.1 = true := by decide
  exact hall _ h.kind

theorem isBare_closing (h : Harmless name) : isBare name.closing = false := by
  have hall : ∀ kind ∈ [('[', ']'), ('"', '"'), ('`', '`')], isBare kind.2 = false := by decide
  exact hall _ h.kind

/-- What opens a name tells what closes it. -/
theorem closing_eq {name' : QuotedName} (h : Harmless name) (h' : Harmless name')
    (hopening : name.opening = name'.opening) : name.closing = name'.closing := by
  have hall : ∀ kind ∈ [('[', ']'), ('"', '"'), ('`', '`')],
      ∀ kind' ∈ [('[', ']'), ('"', '"'), ('`', '`')], kind.1 = kind'.1 → kind.2 = kind'.2 := by
    decide
  exact hall _ h.kind _ h'.kind hopening

end Harmless

theorem isBare_of_opensName {c : Char} (h : opensName c = true) : isBare c = false := by
  simp [isBare, h]

theorem isBare_of_not_mem {p : Char → Bool} (hp : ∀ x ∈ ['[', '"', '`', '\'', ']'], p x = false)
    {c : Char} (hc : p c = true) : isBare c = true := by
  have hne : ∀ x ∈ ['[', '"', '`', '\'', ']'], c ≠ x := fun x hx =>
    ne_of_class hc (hp x hx)
  simp only [List.mem_cons, List.not_mem_nil, or_false, forall_eq_or_imp, forall_eq] at hne
  simp [isBare, opensName, hne]

theorem isBare_of_isBlank {c : Char} (h : isBlank c = true) : isBare c = true :=
  isBare_of_not_mem (by decide) h

theorem isBare_of_isWordChar {c : Char} (h : isWordChar c = true) : isBare c = true :=
  isBare_of_not_mem (by decide) h

theorem bare_of_blank (h : blank text = true) : ∀ c ∈ text, isBare c = true :=
  fun c hc => isBare_of_isBlank (List.all_eq_true.1 h c hc)

theorem quoted_append (content text : List Char) :
    quoted content ++ text = '\'' :: (content ++ '\'' :: text) := by
  simp [quoted]

theorem QuotedName.text_append (name : QuotedName) (text : List Char) :
    name.text ++ text = name.opening :: (name.content ++ name.closing :: text) := by
  simp [QuotedName.text]

/-- The first `x` in a text splits it in one way. -/
theorem split_inj {x : Char} {rest rest' : List Char} (hfront : x ∉ front) (hback : x ∉ back)
    (h : front ++ x :: rest = back ++ x :: rest') : front = back ∧ rest = rest' := by
  induction front generalizing back with
  | nil =>
    cases back with
    | nil => exact ⟨rfl, (List.cons.inj h).2⟩
    | cons d back => exact absurd (by rw [(List.cons.inj h).1]; simp) hback
  | cons c front ih =>
    cases back with
    | nil => exact absurd (by rw [(List.cons.inj h).1]; simp) hfront
    | cons d back =>
      obtain ⟨rfl, hrest⟩ := List.cons.inj h
      obtain ⟨rfl, rfl⟩ := ih (fun hmem => hfront (List.mem_cons_of_mem _ hmem))
        (fun hmem => hback (List.mem_cons_of_mem _ hmem)) hrest
      exact ⟨rfl, rfl⟩

namespace NamesIn

/-! ### One way to read a text -/

theorem append (hf : NamesIn front names) (hb : NamesIn back more) :
    NamesIn (front ++ back) (names ++ more) := by
  induction hf with
  | nil => exact hb
  | bare hc _ ih => exact ih.bare hc
  | literal hcontent _ ih => simpa using ih.literal hcontent
  | name hname _ ih => simpa using ih.name hname

theorem of_bare (h : ∀ c ∈ text, isBare c = true) : NamesIn text [] := by
  induction text with
  | nil => exact nil
  | cons c text ih => exact (ih fun d hd => h d (List.mem_cons_of_mem c hd)).bare (h c (by simp))

theorem tail {c : Char} (h : NamesIn (c :: text) names) (hc : isBare c = true) :
    NamesIn text names := by
  generalize hwhole : c :: text = whole at h
  cases h with
  | nil => contradiction
  | bare _ h =>
    obtain ⟨-, rfl⟩ := List.cons.inj hwhole
    exact h
  | literal _ _ =>
    rw [quoted_append] at hwhole
    exact absurd (List.cons.inj hwhole).1 (ne_of_class hc (by decide))
  | name hname _ =>
    rw [QuotedName.text_append] at hwhole
    exact absurd (List.cons.inj hwhole).1
      (ne_of_class hc (isBare_of_opensName hname.opensName_opening))

theorem after_literal {content : List Char} (h : NamesIn (quoted content ++ text) names)
    (hcontent : '\'' ∉ content) : NamesIn text names := by
  generalize hwhole : quoted content ++ text = whole at h
  rw [quoted_append] at hwhole
  cases h with
  | nil => contradiction
  | bare hc _ => exact absurd (List.cons.inj hwhole).1.symm (ne_of_class hc (by decide))
  | literal hcontent' h =>
    rw [quoted_append] at hwhole
    obtain ⟨-, rfl⟩ := split_inj hcontent hcontent' (List.cons.inj hwhole).2
    exact h
  | name hname _ =>
    rw [QuotedName.text_append] at hwhole
    have hopens := hname.opensName_opening
    rw [← (List.cons.inj hwhole).1] at hopens
    contradiction

theorem after_name (h : NamesIn (name.text ++ text) names) (hname : Harmless name) :
    ∃ rest, names = name :: rest ∧ NamesIn text rest := by
  generalize hwhole : name.text ++ text = whole at h
  rw [QuotedName.text_append] at hwhole
  cases h with
  | nil => contradiction
  | bare hc _ =>
    exact absurd (List.cons.inj hwhole).1.symm
      (ne_of_class hc (isBare_of_opensName hname.opensName_opening))
  | literal _ _ =>
    rw [quoted_append] at hwhole
    have hopens := hname.opensName_opening
    rw [(List.cons.inj hwhole).1] at hopens
    contradiction
  | @name name' rest names' hname' h =>
    rw [QuotedName.text_append] at hwhole
    obtain ⟨hopening, hrest⟩ := List.cons.inj hwhole
    have hclosing := hname.closing_eq hname' hopening
    rw [hclosing] at hrest
    obtain ⟨hcontent, rfl⟩ := split_inj (hclosing ▸ hname.closing) hname'.closing hrest
    obtain rfl : name = name' := by
      cases name
      cases name'
      simp_all
    exact ⟨names', rfl, h⟩

/-- The front of a text is read in the same way by itself. -/
theorem of_append (hf : NamesIn front names) (h : NamesIn (front ++ back) more) :
    ∃ rest, more = names ++ rest ∧ NamesIn back rest := by
  induction hf generalizing more with
  | nil => exact ⟨more, rfl, h⟩
  | bare hc _ ih => exact ih (h.tail hc)
  | literal hcontent _ ih =>
    rw [List.append_assoc] at h
    exact ih (h.after_literal hcontent)
  | name hname _ ih =>
    rw [List.append_assoc] at h
    obtain ⟨rest, rfl, hrest⟩ := h.after_name hname
    obtain ⟨later, rfl, hlater⟩ := ih hrest
    exact ⟨later, rfl, hlater⟩

/-- What stands outside quotes at the front of a text comes off. -/
theorem drop (h : NamesIn (front ++ back) names) (hbare : ∀ c ∈ front, isBare c = true) :
    NamesIn back names := by
  obtain ⟨rest, rfl, hrest⟩ := (of_bare hbare).of_append h
  exact hrest

/-- A text without what opens a name has none. -/
theorem eq_nil (h : NamesIn text names) (hopens : ∀ c ∈ text, opensName c = false) :
    names = [] := by
  induction h with
  | nil => rfl
  | bare _ _ ih => exact ih fun c hc => hopens c (List.mem_cons_of_mem _ hc)
  | literal _ _ ih => exact ih fun c hc => hopens c (List.mem_append_right _ hc)
  | name hname _ _ =>
    have hno := hopens _ (List.mem_append_left _ (List.mem_append_left _ (List.mem_cons_self)))
    rw [hname.opensName_opening] at hno
    contradiction

theorem unique (h : NamesIn text names) (h' : NamesIn text more) : names = more := by
  rw [← List.append_nil text] at h'
  obtain ⟨rest, rfl, hrest⟩ := h.of_append h'
  rw [hrest.eq_nil (by simp), List.append_nil]

/-- A text is empty or ends with a character outside quotes, a literal or a name. -/
theorem last_cases (h : NamesIn text names) :
    text = [] ∨ (∃ front c, text = front ++ [c] ∧ isBare c = true ∧ NamesIn front names) ∨
      (∃ front content, text = front ++ quoted content ∧ '\'' ∉ content ∧ NamesIn front names) ∨
      ∃ front name before, text = front ++ name.text ∧ names = before ++ [name] ∧ Harmless name ∧
        NamesIn front before := by
  induction h with
  | nil => exact Or.inl rfl
  | @bare d text names hd h ih =>
    right
    rcases ih with rfl | ⟨front, c, rfl, hc, hf⟩ | ⟨front, content, rfl, hcontent, hf⟩ |
      ⟨front, name, before, rfl, rfl, hname, hf⟩
    · exact Or.inl ⟨[], d, rfl, hd, h⟩
    · exact Or.inl ⟨d :: front, c, rfl, hc, hf.bare hd⟩
    · exact Or.inr (Or.inl ⟨d :: front, content, rfl, hcontent, hf.bare hd⟩)
    · exact Or.inr (Or.inr ⟨d :: front, name, before, rfl, rfl, hname, hf.bare hd⟩)
  | @literal first text names hfirst h ih =>
    right
    rcases ih with rfl | ⟨front, c, rfl, hc, hf⟩ | ⟨front, content, rfl, hcontent, hf⟩ |
      ⟨front, name, before, rfl, rfl, hname, hf⟩
    · exact Or.inr (Or.inl ⟨[], first, by simp, hfirst, h⟩)
    · exact Or.inl ⟨quoted first ++ front, c, by simp, hc, hf.literal hfirst⟩
    · exact Or.inr (Or.inl ⟨quoted first ++ front, content, by simp, hcontent, hf.literal hfirst⟩)
    · exact Or.inr (Or.inr ⟨quoted first ++ front, name, before, by simp, rfl, hname,
        hf.literal hfirst⟩)
  | @name first text names hfirst h ih =>
    right
    rcases ih with rfl | ⟨front, c, rfl, hc, hf⟩ | ⟨front, content, rfl, hcontent, hf⟩ |
      ⟨front, name, before, rfl, rfl, hname, hf⟩
    · obtain rfl := h.unique nil
      exact Or.inr (Or.inr ⟨[], first, [], by simp, rfl, hfirst, nil⟩)
    · exact Or.inl ⟨first.text ++ front, c, by simp, hc, hf.name hfirst⟩
    · exact Or.inr (Or.inl ⟨first.text ++ front, content, by simp, hcontent, hf.name hfirst⟩)
    · exact Or.inr (Or.inr ⟨first.text ++ front, name, first :: before, by simp, rfl, hname,
        hf.name hfirst⟩)

theorem quoted_eq_concat (content : List Char) : quoted content = ('\'' :: content) ++ ['\''] := rfl

/-- A character outside quotes at the end of a text comes off. -/
theorem init {c : Char} (h : NamesIn (text ++ [c]) names) (hc : isBare c = true) :
    NamesIn text names := by
  rcases h.last_cases with hnil | ⟨front, d, heq, -, hf⟩ | ⟨front, content, heq, -, -⟩ |
    ⟨front, name, before, heq, -, hname, -⟩
  · simp at hnil
  · obtain ⟨rfl, -⟩ := List.append_inj' heq rfl
    exact hf
  · rw [quoted_eq_concat, ← List.append_assoc] at heq
    exact absurd (List.cons.inj (List.append_inj' heq rfl).2).1 (ne_of_class hc (by decide))
  · rw [QuotedName.text, ← List.append_assoc] at heq
    exact absurd (List.cons.inj (List.append_inj' heq rfl).2).1
      (ne_of_class hc hname.isBare_closing)

/-- What stands outside quotes at the end of a text comes off. -/
theorem take (h : NamesIn (front ++ back) names) (hbare : ∀ c ∈ back, isBare c = true) :
    NamesIn front names := by
  induction back using List.reverseRecOn with
  | nil => simpa using h
  | append_singleton back c ih =>
    rw [← List.append_assoc] at h
    exact ih (h.init (hbare c (by simp))) fun d hd => hbare d (by simp [hd])

theorem trim (h : NamesIn text names) : NamesIn (trim text) names := by
  obtain ⟨gap, hgap, hblank⟩ := exists_trimStart text
  obtain ⟨gap', hgap', hblank'⟩ := exists_trimEnd (trimStart text)
  rw [hgap] at h
  have hstart := h.drop (bare_of_blank hblank)
  rw [hgap'] at hstart
  exact hstart.take (bare_of_blank hblank')

end NamesIn

end AskSql.Sql
