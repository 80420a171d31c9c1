import AskSql.Clause.Parse
import AskSql.Proofs.Text.Taken
import AskSql.Proofs.Vocabulary.Normal

/-! The operator of a filter as it is written.  Symbols are written as they are; words in any case,
with white space between them, up to the end of a word.  What is taken for an operator spells one in
this way.  The other way round an operator that is written so is taken as it stands, because no
operator in words begins another and a symbol only grows by an equals sign.  It is read as the one
that it spells unless it has a Kelvin sign, which the search takes for a `k` and the reading does
not. -/

namespace AskSql.Text

variable {c : Char} {cs front back rest : List Char}

/-! ### What is left without white space -/

/-- The characters of a text that are not white space. -/
def ink (cs : List Char) : List Char :=
  cs.filter fun c => !isBlank c

@[simp] theorem ink_append (front back : List Char) : ink (front ++ back) = ink front ++ ink back :=
  List.filter_append front back

theorem ink_eq_nil_iff : ink cs = [] ↔ blank cs = true := by
  simp [ink, blank]

theorem ink_of_blank (h : blank cs = true) : ink cs = [] :=
  ink_eq_nil_iff.2 h

theorem mem_ink : c ∈ ink cs ↔ c ∈ cs ∧ isBlank c = false := by
  simp [ink]

theorem ink_intercalate_cons (word : List Char) (words : List (List Char)) :
    ink ([' '].intercalate (word :: words)) = ink word ++ ink ([' '].intercalate words) := by
  cases words with
  | nil => simp [ink]
  | cons next words =>
    have hspace : ink [' '] = [] := rfl
    rw [List.intercalate_cons_cons, ink_append, ink_append, hspace, List.append_nil]

theorem ink_intercalate_wordsFrom (word cs : List Char) :
    ink ([' '].intercalate (wordsFrom word cs)) = ink word.reverse ++ ink cs := by
  induction cs generalizing word with
  | nil =>
    rw [wordsFrom]
    split
    · rename_i hempty
      rw [List.isEmpty_iff.1 hempty]
      rfl
    · simp [ink]
  | cons c cs ih =>
    rw [wordsFrom]
    split
    · rename_i hblank
      have hdrop : ink (c :: cs) = ink cs := by simp [ink, hblank]
      rw [hdrop]
      split
      · rename_i hempty
        rw [ih, List.isEmpty_iff.1 hempty]
      · rw [ink_intercalate_cons, ih]
        rfl
    · rw [ih, List.reverse_cons, ink_append, List.append_assoc, ← ink_append, List.singleton_append]

/-- Collapsing the white space of a text leaves the rest of it. -/
theorem ink_collapse (cs : List Char) : ink (collapse cs) = ink cs :=
  ink_intercalate_wordsFrom [] cs

/-! ### Words at the front of a text -/

/-- What is left of a text without its rest. -/
theorem take_append_sub (front rest : List Char) :
    (front ++ rest).take ((front ++ rest).length - rest.length) = front := by
  rw [List.length_append, Nat.add_sub_cancel, List.take_left]

theorem wordsFrom_append_ink (h : ∀ c ∈ front, isBlank c = false) (word cs : List Char) :
    wordsFrom word (front ++ cs) = wordsFrom (front.reverse ++ word) cs := by
  induction front generalizing word with
  | nil => rfl
  | cons c front ih =>
    rw [List.cons_append, wordsFrom, h c (by simp), if_neg (by simp),
      ih fun d hd => h d (List.mem_cons_of_mem c hd), List.reverse_cons, List.append_assoc,
      List.singleton_append]

theorem wordsFrom_append_gap {gap word : List Char} (hne : gap ≠ []) (hgap : blank gap = true)
    (hword : word ≠ []) (cs : List Char) :
    wordsFrom word (gap ++ cs) = word.reverse :: words cs := by
  obtain ⟨c, gap, rfl⟩ := List.exists_cons_of_ne_nil hne
  obtain ⟨hc, hrest⟩ : isBlank c = true ∧ blank gap = true := by simpa [blank] using hgap
  rw [List.cons_append, wordsFrom, hc, if_pos rfl, if_neg (by simpa using hword)]
  exact congrArg _ (words_blank_append hrest)

theorem isBlank_of_isAlpha_fold (h : (fold c).isAlpha = true) : isBlank c = false :=
  isBlank_of_isWordChar (Idiom.isWordChar_of_foldsToLetter h)

end AskSql.Text

namespace AskSql.Clause

open Text

variable {keys keys' : List String} {text rest token word : List Char} {op : FilterOperator}
  {before : Option Char}

/-! ### Keywords -/

/-- `key` is a word in letters. -/
def IsKey (key : String) : Prop :=
  key.toList ≠ [] ∧ ∀ c ∈ key.toList, c.isAlpha = true

instance (key : String) : Decidable (IsKey key) :=
  inferInstanceAs (Decidable (_ ∧ _))

/-- `text` writes the words `keys` in any case, with white space before each. -/
inductive WordsBehind : List String → List Char → Prop
  | nil : WordsBehind [] []
  | cons {key : String} {keys : List String} {gap token text : List Char} (hne : gap ≠ [])
    (hgap : blank gap = true) (htoken : token.map fold = key.toList)
    (h : WordsBehind keys text) : WordsBehind (key :: keys) (gap ++ (token ++ text))

/-- `text` writes the words `keys` in any case, with white space between them. -/
inductive WordsOf : List String → List Char → Prop
  | mk {key : String} {keys : List String} {token text : List Char}
    (htoken : token.map fold = key.toList) (h : WordsBehind keys text) :
    WordsOf (key :: keys) (token ++ text)

theorem token_ink {key : String} (hkey : IsKey key) (htoken : token.map fold = key.toList) :
    token ≠ [] ∧ ∀ c ∈ token, isBlank c = false := by
  refine ⟨?_, fun c hc => ?_⟩
  · rintro rfl
    exact hkey.1 htoken.symm
  · exact isBlank_of_isAlpha_fold (hkey.2 _ (htoken ▸ List.mem_map_of_mem hc))

theorem trimStart_token {key : String} (hkey : IsKey key) (htoken : token.map fold = key.toList)
    (rest : List Char) : trimStart (token ++ rest) = token ++ rest := by
  obtain ⟨hne, hink⟩ := token_ink hkey htoken
  obtain ⟨c, cs, rfl⟩ := List.exists_cons_of_ne_nil hne
  exact trimStart_of_head ⟨c, rfl, hink c (by simp)⟩

/-- The rest of a text after white space and a keyword. -/
def nextKeyword? (cs : List Char) (key : String) : Option (List Char) :=
  (blanks? cs).bind (keyword? key)

/-- Behind white space a keyword is looked for where the next word begins. -/
theorem nextKeyword?_gap {gap : List Char} (hne : gap ≠ []) (hgap : blank gap = true)
    {key' : String}
    (hkey : IsKey key') (htoken : token.map fold = key'.toList) (key : String) (rest : List Char) :
    nextKeyword? (gap ++ (token ++ rest)) key = keyword? key (token ++ rest) := by
  rw [nextKeyword?, blanks?_append hne hgap, trimStart_token hkey htoken, Option.bind_some]

theorem keywords?_cons (key : String) (keys : List String) (cs : List Char) :
    keywords? (key :: keys) cs = (keyword? key cs).bind fun behind =>
      (keys.foldlM nextKeyword? behind).bind fun rest =>
        if rest.head?.any isWordChar then none
        else some (cs.take (cs.length - rest.length), rest) :=
  rfl

theorem foldlM_nextKeyword?_eq_some {cs : List Char}
    (h : keys.foldlM nextKeyword? cs = some rest) :
    ∃ text, cs = text ++ rest ∧ WordsBehind keys text := by
  induction keys generalizing cs with
  | nil => exact ⟨[], Option.some.inj h, .nil⟩
  | cons key keys ih =>
    rw [List.foldlM_cons] at h
    obtain ⟨behind, hkey, hrest⟩ := Option.bind_eq_some_iff.1 h
    obtain ⟨front, hblanks, hkeyword⟩ := Option.bind_eq_some_iff.1 hkey
    obtain ⟨gap, rfl, hne, hgap⟩ := blanks?_eq_some hblanks
    obtain ⟨token, rfl, htoken⟩ := keywordChars?_eq_some hkeyword
    obtain ⟨text, rfl, htext⟩ := ih hrest
    exact ⟨gap ++ (token ++ text), by simp, .cons hne hgap htoken htext⟩

theorem foldlM_nextKeyword?_append (h : WordsBehind keys text) (hkeys : ∀ key ∈ keys, IsKey key)
    (rest : List Char) : keys.foldlM nextKeyword? (text ++ rest) = some rest := by
  induction h with
  | nil => rfl
  | @cons key keys gap token text hne hgap htoken _ ih =>
    rw [List.append_assoc, List.append_assoc, List.foldlM_cons,
      nextKeyword?_gap hne hgap (hkeys key (by simp)) htoken, keyword?_append htoken]
    exact ih fun other hother => hkeys other (List.mem_cons_of_mem key hother)

/-- What is taken for the keywords writes them, and no word goes on behind it. -/
theorem keywords?_eq_some {cs : List Char} (h : keywords? keys cs = some (text, rest)) :
    cs = text ++ rest ∧ WordsOf keys text ∧ ∀ c ∈ rest.head?, isWordChar c = false := by
  cases keys with
  | nil => contradiction
  | cons key keys =>
    rw [keywords?_cons] at h
    obtain ⟨front, hkey, h⟩ := Option.bind_eq_some_iff.1 h
    obtain ⟨behind, hwords, h⟩ := Option.bind_eq_some_iff.1 h
    obtain ⟨token, rfl, htoken⟩ := keywordChars?_eq_some hkey
    obtain ⟨text, rfl, htext⟩ := foldlM_nextKeyword?_eq_some hwords
    rw [← List.append_assoc] at h
    split at h
    · contradiction
    · rename_i hstop
      obtain ⟨rfl, rfl⟩ := Prod.mk.inj (Option.some.inj h)
      rw [take_append_sub]
      refine ⟨(List.append_assoc ..).symm, .mk htoken htext, ?_⟩
      simpa [Option.any_eq_false] using hstop

theorem keywords?_append (h : WordsOf keys text) (hkeys : ∀ key ∈ keys, IsKey key)
    (hrest : ∀ c ∈ rest.head?, isWordChar c = false) :
    keywords? keys (text ++ rest) = some (text, rest) := by
  obtain ⟨htoken, htext⟩ := h
  rename_i key keys token text
  have hbehind := foldlM_nextKeyword?_append htext
    (fun other hother => hkeys other (List.mem_cons_of_mem key hother)) rest
  have hstop : rest.head?.any isWordChar = false := by
    cases hhead : rest.head? with
    | none => rfl
    | some c => exact hrest c hhead
  rw [keywords?_cons, List.append_assoc, keyword?_append htoken, Option.bind_some, hbehind,
    Option.bind_some, hstop, if_neg (by simp), ← List.append_assoc, take_append_sub]

theorem WordsBehind.map_words (h : WordsBehind keys text) (hkeys : ∀ key ∈ keys, IsKey key)
    {word : List Char} (hword : word ≠ []) :
    (wordsFrom word text).map (·.map fold) =
      word.reverse.map fold :: keys.map String.toList := by
  induction h generalizing word with
  | nil => simp [wordsFrom, hword]
  | @cons key keys gap token text hne hgap htoken _ ih =>
    obtain ⟨htokenNe, hink⟩ := token_ink (hkeys key (by simp)) htoken
    rw [wordsFrom_append_gap hne hgap hword, words, wordsFrom_append_ink hink, List.append_nil,
      List.map_cons, ih (fun other hother => hkeys other (List.mem_cons_of_mem key hother))
        (by simpa using htokenNe), List.reverse_reverse, htoken, List.map_cons]

/-- The words of a text that writes keywords are these. -/
theorem WordsOf.map_words (h : WordsOf keys text) (hkeys : ∀ key ∈ keys, IsKey key) :
    (words text).map (·.map fold) = keys.map String.toList := by
  obtain ⟨htoken, htext⟩ := h
  rename_i key keys token text
  obtain ⟨hne, hink⟩ := token_ink (hkeys key (by simp)) htoken
  rw [words, wordsFrom_append_ink hink, List.append_nil,
    htext.map_words (fun other hother => hkeys other (List.mem_cons_of_mem key hother))
      (by simpa using hne), List.reverse_reverse, htoken, List.map_cons]

/-! ### Operators -/

/-- The operators that are symbols, in the order in which they are looked for. -/
def symbolOperators : List FilterOperator :=
  [.ne, .ge, .le, .eq, .gt, .lt]

/-- The operators that are words, in the order in which they are looked for. -/
def wordOperators : List (List String × FilterOperator) :=
  [(["not", "in"], .notIn), (["in"], .isIn), (["like"], .like), (["is", "not", "null"], .isNotNull),
    (["is", "null"], .isNull)]

theorem isKey_of_mem {entry : List String × FilterOperator} (h : entry ∈ wordOperators) :
    ∀ key ∈ entry.1, IsKey key := by
  have hall : ∀ entry ∈ wordOperators, ∀ key ∈ entry.1, IsKey key := by decide
  exact hall entry h

theorem operator?_eq (before : Option Char) (cs : List Char) :
    operator? before cs =
      (symbolOperators.findSome? fun op => symbol? op.keyword cs).or
        (if before.any isWordChar then none
        else wordOperators.findSome? fun entry => keywords? entry.1 cs) := by
  have hcons : ∀ {α β : Type} (f : α → Option β) (a : α) (l : List α),
      (a :: l).findSome? f = (f a).or (l.findSome? f) := by
    intro α β f a l
    rw [List.findSome?_cons]
    cases f a <;> rfl
  simp only [operator?, symbolOperators, wordOperators, hcons, List.findSome?_nil,
    Option.orElse_eq_orElse, Option.orElse_eq_or, Option.or_none, Option.or_assoc,
    FilterOperator.keyword]

/-- How an operator at the front of `text ++ rest` is written. -/
inductive WrittenAs (before : Option Char) (rest : List Char) : FilterOperator → List Char → Prop
  | symbol {op : FilterOperator} (h : op ∈ symbolOperators) :
    WrittenAs before rest op op.keyword.toList
  | words {entry : List String × FilterOperator} {text : List Char} (h : entry ∈ wordOperators)
    (hbefore : ∀ b ∈ before, isWordChar b = false) (hwords : WordsOf entry.1 text)
    (hrest : ∀ c ∈ rest.head?, isWordChar c = false) : WrittenAs before rest entry.2 text

/-- What is taken for an operator is one as it is written. -/
theorem operator?_eq_some {cs : List Char} (h : operator? before cs = some (text, rest)) :
    cs = text ++ rest ∧ ∃ op, WrittenAs before rest op text := by
  rw [operator?_eq, Option.or_eq_some_iff] at h
  rcases h with h | ⟨-, h⟩
  · obtain ⟨op, hop, hsymbol⟩ := List.exists_of_findSome?_eq_some h
    obtain ⟨behind, hprefix, heq⟩ := Option.map_eq_some_iff.1 hsymbol
    obtain ⟨rfl, rfl⟩ := Prod.mk.inj heq
    exact ⟨(List.isPrefixOf?_eq_some_iff_append_eq.1 hprefix).symm, op, .symbol hop⟩
  · split at h
    · contradiction
    · rename_i hbefore
      obtain ⟨entry, hentry, hkeywords⟩ := List.exists_of_findSome?_eq_some h
      obtain ⟨hcs, hwords, hrest⟩ := keywords?_eq_some hkeywords
      exact ⟨hcs, entry.2, .words hentry (by simpa [Option.any_eq_false] using hbefore)
        hwords hrest⟩

/-! ### Keywords that are apart -/

/-- Neither of two keywords begins the other. -/
def Apart (key key' : String) : Prop :=
  ¬key.toList <+: key'.toList ∧ ¬key'.toList <+: key.toList

instance (key key' : String) : Decidable (Apart key key') :=
  inferInstanceAs (Decidable (_ ∧ _))

/-- Two lists of keywords agree up to keywords that are apart, which each of them has. -/
def Differ : List String → List String → Prop
  | key :: keys, key' :: keys' => Apart key key' ∨ key = key' ∧ Differ keys keys'
  | _, _ => False

instance decidableDiffer : (keys keys' : List String) → Decidable (Differ keys keys')
  | [], _ => isFalse nofun
  | _ :: _, [] => isFalse nofun
  | key :: keys, key' :: keys' =>
    have := decidableDiffer keys keys'
    inferInstanceAs (Decidable (Apart key key' ∨ key = key' ∧ Differ keys keys'))

/-- A word that writes one keyword does not begin another that is apart from it. -/
theorem keyword?_of_apart {key key' : String} (h : Apart key key')
    (htoken : token.map fold = key'.toList) (rest : List Char) :
    keyword? key (token ++ rest) = none := by
  rw [Option.eq_none_iff_forall_ne_some]
  intro behind hkeyword
  obtain ⟨token', htext, htoken'⟩ := keywordChars?_eq_some hkeyword
  rcases List.prefix_or_prefix_of_prefix (List.prefix_append token rest)
    (htext ▸ List.prefix_append token' behind) with hprefix | hprefix
  · exact h.2 (htoken ▸ htoken' ▸ hprefix.map fold)
  · exact h.1 (htoken ▸ htoken' ▸ hprefix.map fold)

theorem foldlM_nextKeyword?_of_differ (hdiffer : Differ keys keys') (h : WordsBehind keys' text)
    (hkeys : ∀ key ∈ keys', IsKey key) (rest : List Char) :
    keys.foldlM nextKeyword? (text ++ rest) = none := by
  induction h generalizing keys with
  | nil =>
    cases keys with
    | nil => exact hdiffer.elim
    | cons => exact hdiffer.elim
  | @cons key' keys' gap token text hne hgap htoken _ ih =>
    cases keys with
    | nil => exact hdiffer.elim
    | cons key keys =>
      rw [List.append_assoc, List.append_assoc, List.foldlM_cons,
        nextKeyword?_gap hne hgap (hkeys key' (by simp)) htoken]
      rcases hdiffer with hapart | ⟨rfl, hdiffer⟩
      · rw [keyword?_of_apart hapart htoken]
        rfl
      · rw [keyword?_append htoken]
        exact ih hdiffer fun other hother => hkeys other (List.mem_cons_of_mem _ hother)

/-- Text that writes keywords does not begin with others. -/
theorem keywords?_of_differ (hdiffer : Differ keys keys') (h : WordsOf keys' text)
    (hkeys : ∀ key ∈ keys', IsKey key) (rest : List Char) :
    keywords? keys (text ++ rest) = none := by
  obtain ⟨htoken, htext⟩ := h
  rename_i key' keys' token text
  cases keys with
  | nil => exact hdiffer.elim
  | cons key keys =>
    rw [keywords?_cons, List.append_assoc]
    rcases hdiffer with hapart | ⟨rfl, hdiffer⟩
    · rw [keyword?_of_apart hapart htoken]
      rfl
    · rw [keyword?_append htoken, Option.bind_some, foldlM_nextKeyword?_of_differ hdiffer htext
        fun other hother => hkeys other (List.mem_cons_of_mem _ hother)]
      rfl

theorem findSome?_of_pairwise {α β : Type} {R : α → α → Prop} {f : α → Option β}
    {l : List α} {a : α}
    (h : l.Pairwise R) (ha : a ∈ l) (hnone : ∀ b, R b a → f b = none)
      (hsome : (f a).isSome = true) :
    l.findSome? f = f a := by
  obtain ⟨front, back, rfl⟩ := List.append_of_mem ha
  have hfront : front.findSome? f = none := by
    rw [List.findSome?_eq_none_iff]
    exact fun b hb => hnone b ((List.pairwise_append.1 h).2.2 b hb a List.mem_cons_self)
  obtain ⟨b, hb⟩ := Option.isSome_iff_exists.1 hsome
  rw [List.findSome?_append, hfront, Option.none_or, List.findSome?_cons, hb]

theorem findSome?_wordOperators {entry : List String × FilterOperator} (h : entry ∈ wordOperators)
    (hwords : WordsOf entry.1 text) (hrest : ∀ c ∈ rest.head?, isWordChar c = false) :
    wordOperators.findSome? (fun entry => keywords? entry.1 (text ++ rest)) =
      some (text, rest) := by
  have hdiffer : wordOperators.Pairwise fun a b => Differ a.1 b.1 := by decide
  have hkeywords := keywords?_append hwords (isKey_of_mem h) hrest
  rw [← hkeywords]
  refine findSome?_of_pairwise hdiffer h (fun other hother => ?_) ?_
  · exact keywords?_of_differ hother hwords (isKey_of_mem h) rest
  · rw [hkeywords]
    rfl

/-! ### Operators that are found -/

theorem operator?_symbol (hop : op ∈ symbolOperators) (hrest : rest.head? ≠ some '=')
    (before : Option Char) :
    operator? before (op.keyword.toList ++ rest) = some (op.keyword.toList, rest) := by
  cases rest with
  | nil =>
    cases op with
    | eq | ne | gt | lt | ge | le => rfl
    | like | isIn | notIn | isNull | isNotNull => exact absurd hop (by decide)
  | cons c cs =>
    have hc : ('=' == c) = false := by
      rw [beq_eq_false_iff_ne]
      rintro rfl
      exact hrest rfl
    cases op with
    | eq | ne | ge | le => rfl
    | gt | lt => simp [operator?, symbol?, FilterOperator.keyword, List.isPrefixOf?, hc]
    | like | isIn | notIn | isNull | isNotNull => exact absurd hop (by decide)

/-- No symbol begins where a keyword does. -/
theorem symbol?_of_foldsToLetter {c : Char} (hc : foldsToLetter c = true)
    (hop : op ∈ symbolOperators) (cs : List Char) : symbol? op.keyword (c :: cs) = none := by
  have hall : ∀ op ∈ symbolOperators, op.keyword.toList ≠ [] ∧
      ∀ k ∈ op.keyword.toList, foldsToLetter k = false := by decide
  obtain ⟨hne, hkeyword⟩ := hall op hop
  obtain ⟨k, ks, hks⟩ := List.exists_cons_of_ne_nil hne
  rw [symbol?, Option.map_eq_none_iff, Option.eq_none_iff_forall_ne_some]
  intro rest hprefix
  have happend := List.isPrefixOf?_eq_some_iff_append_eq.1 hprefix
  rw [hks] at happend
  obtain rfl : k = c := (List.cons.inj happend).1
  rw [hkeyword k (by rw [hks]; simp)] at hc
  contradiction

theorem WordsOf.exists_cons (h : WordsOf keys text) (hkeys : ∀ key ∈ keys, IsKey key) :
    ∃ c cs, text = c :: cs ∧ foldsToLetter c = true := by
  obtain ⟨htoken, htext⟩ := h
  rename_i key keys token text
  have hkey := hkeys key (by simp)
  obtain ⟨c, cs, rfl⟩ := List.exists_cons_of_ne_nil (token_ink hkey htoken).1
  exact ⟨c, cs ++ text, rfl, hkey.2 _ (htoken ▸ List.mem_map_of_mem (by simp))⟩

/-- An operator as it is written is taken for one, unless an equals sign makes it longer. -/
theorem WrittenAs.operator? (h : WrittenAs before rest op word)
    (hrest : rest.head? ≠ some '=') : operator? before (word ++ rest) = some (word, rest) := by
  cases h with
  | symbol hop => exact operator?_symbol hop hrest before
  | @words entry _ hentry hbefore hwords hstop =>
    have hsymbol : (symbolOperators.findSome? fun op => symbol? op.keyword (word ++ rest)) =
        none := by
      obtain ⟨c, cs, rfl, hc⟩ := hwords.exists_cons (isKey_of_mem hentry)
      exact List.findSome?_eq_none_iff.2 fun op hop => symbol?_of_foldsToLetter hc hop _
    have hbegins : before.any isWordChar = false := by simpa [Option.any_eq_false] using hbefore
    rw [operator?_eq, hsymbol, Option.none_or, hbegins, if_neg (by simp)]
    exact findSome?_wordOperators hentry hwords hstop

/-! ### The operator that is read -/

/-- `text` is the SQL spelling of `op` up to letter case and the amount of white space between
words.  Every Unicode variant of a letter counts as the letter. -/
def Spells (op : FilterOperator) (text : List Char) : Prop :=
  (collapse text).map fold = op.keyword.toList.map fold

instance (op : FilterOperator) (text : List Char) : Decidable (Spells op text) :=
  inferInstanceAs (Decidable (_ = _))

theorem map_fold_intercalate (words : List (List Char)) :
    ([' '].intercalate words).map fold = [' '].intercalate (words.map (·.map fold)) := by
  induction words with
  | nil => rfl
  | cons first rest ih =>
    cases rest with
    | nil => simp
    | cons second rest =>
      have hspace : [' '].map fold = [' '] := rfl
      rw [List.intercalate_cons_cons, List.map_append, List.map_append, hspace, ih, List.map_cons,
        List.map_cons, List.map_cons, List.intercalate_cons_cons]

theorem WrittenAs.spells (h : WrittenAs before rest op text) : Spells op text := by
  cases h with
  | symbol h => cases op <;> decide
  | @words entry _ h _ hwords _ =>
    have hall : ∀ entry ∈ wordOperators,
        [' '].intercalate (entry.1.map String.toList) = entry.2.keyword.toList.map fold := by decide
    rw [Spells, collapse, map_fold_intercalate, hwords.map_words (isKey_of_mem h), hall entry h]

/-- A character other than the Kelvin sign that stands for a letter of an operator has the letter
for its capital. -/
theorem capital_eq_of_fold_eq {c k : Char} (hk : k ∈ op.keyword.toList) (h : fold c = fold k)
    (hkelvin : c ≠ '\u212a') : capital c = k := by
  have hall : ∀ k ∈ op.keyword.toList, (fold k).toUpper = k ∧ (fold k = 's' → k = 'S') := by
    cases op <;> decide
  obtain ⟨hupper, hsharp⟩ := hall k hk
  rw [capital]
  split
  · rename_i hlong
    subst hlong
    exact (hsharp h.symm).symm
  · rename_i hlong
    rw [fold, if_neg hlong, if_neg hkelvin] at h
    rw [← toUpper_toLower, h, hupper]

theorem map_capital_eq {cs ks : List Char} (hks : ∀ k ∈ ks, k ∈ op.keyword.toList)
    (h : cs.map fold = ks.map fold) (hkelvin : '\u212a' ∉ cs) : cs.map capital = ks := by
  induction ks generalizing cs with
  | nil => simpa using h
  | cons k ks ih =>
    obtain ⟨c, cs, rfl, hc, hcs⟩ := List.map_eq_cons_iff.1 h
    rw [List.mem_cons, not_or] at hkelvin
    rw [List.map_cons, capital_eq_of_fold_eq (hks k (by simp)) hc (Ne.symm hkelvin.1),
      ih (fun d hd => hks d (List.mem_cons_of_mem k hd)) hcs hkelvin.2]

theorem kelvin_mem_collapse : '\u212a' ∈ collapse text ↔ '\u212a' ∈ text := by
  have hink : isBlank '\u212a' = false := by decide
  have hmem : ∀ cs : List Char, '\u212a' ∈ cs ↔ '\u212a' ∈ ink cs := fun cs => by
    simp [mem_ink, hink]
  rw [hmem, hmem text, ink_collapse]

/-- An operator is read as the one that it spells, but as the last of all if it has a Kelvin
sign. -/
theorem operatorOf_eq (h : Spells op text) :
    operatorOf text = if '\u212a' ∈ text then .isNotNull else op := by
  rw [operatorOf]
  split
  · rename_i hkelvin
    have hmem : '\u212a' ∈ (collapse text).map capital :=
      List.mem_map.2 ⟨'\u212a', kelvin_mem_collapse.2 hkelvin, by decide⟩
    have hplain : ∀ entry ∈ FilterOperator.names, '\u212a' ∉ entry.1.toList := by decide
    have hnone : FilterOperator.names.lookup (String.ofList ((collapse text).map capital)) =
        none := by
      rw [List.lookup_eq_none_iff]
      intro entry hentry
      rw [bne_iff_ne]
      intro heq
      exact hplain entry hentry (by rw [← heq, String.toList_ofList]; exact hmem)
    rw [hnone]
    rfl
  · rename_i hkelvin
    have hcapitals : (collapse text).map capital = op.keyword.toList :=
      map_capital_eq (fun k hk => hk) h (mt kelvin_mem_collapse.1 hkelvin)
    rw [hcapitals, String.ofList_toList]
    cases op <;> rfl

end AskSql.Clause
