import AskSql.Proofs.Keyed
import AskSql.Proofs.Vocabulary.Normal
import AskSql.Vocabulary.Index

/-! What an index finds, told without its maps.  Of the terms that are pushed into it, it keeps
those whose canonical phrase names no earlier one; a normal form leads to the kept term that it
names, or else to the first kept term that has it as an alias. -/

namespace AskSql.Vocabulary

variable {index : TermIndex} {term : Term} {terms kept : List Term} {key : String}

/-- Whether the canonical phrase of a term has the given normal form. -/
def Term.isNamed (term : Term) (key : String) : Bool :=
  normalize term.canonical == key

/-- Whether an alias of a term has the given normal form. -/
def Term.hasAlias (term : Term) (key : String) : Bool :=
  term.aliases.any (normalize · == key)

theorem Term.goesBy_eq (term : Term) (key : String) :
    term.goesBy key = (term.isNamed key || term.hasAlias key) :=
  rfl

@[simp] theorem Term.isNamed_self (term : Term) : term.isNamed (normalize term.canonical) = true :=
  beq_self_eq_true _

/-- The kept terms with one more, unless its canonical phrase is blank or names one of them. -/
def keep (kept : List Term) (term : Term) : List Term :=
  if isBlankText term.canonical || kept.any (·.isNamed (normalize term.canonical)) then kept
  else kept ++ [term]

/-- The term that a normal form leads to among `terms`. -/
def termFor? (terms : List Term) (key : String) : Option Term :=
  if key.isEmpty then none else (terms.find? (·.isNamed key)).or (terms.find? (·.hasAlias key))

/-! ### The kept terms -/

/-- A term is kept if it was, or if it is the first that its canonical phrase names and none of the
terms before is named by it. -/
theorem mem_foldl_keep :
    term ∈ terms.foldl keep kept ↔ term ∈ kept ∨
      isBlankText term.canonical = false ∧
        kept.any (·.isNamed (normalize term.canonical)) = false ∧
        terms.find? (·.isNamed (normalize term.canonical)) = some term := by
  induction terms generalizing kept with
  | nil => simp
  | cons first terms ih =>
    rw [List.foldl_cons, ih, keep]
    cases hnamed : first.isNamed (normalize term.canonical) with
    | true =>
      have hname : normalize first.canonical = normalize term.canonical := by
        simpa [Term.isNamed] using hnamed
      have hblank : isBlankText first.canonical = isBlankText term.canonical := by
        rw [← normalize_isEmpty, hname, normalize_isEmpty]
      rw [List.find?_cons, hnamed, hname, hblank]
      cases isBlankText term.canonical <;>
        cases hany : kept.any (·.isNamed (normalize term.canonical)) <;>
        simp [hany, hnamed, eq_comm]
    | false =>
      have hne : term ≠ first := by
        rintro rfl
        simp at hnamed
      rw [List.find?_cons, hnamed]
      split <;> simp [hnamed, hne]

/-- A normal form that names one of the terms names a kept one. -/
theorem any_isNamed_foldl_keep (hkey : key.isEmpty = false) (h : terms.any (·.isNamed key) = true) :
    (terms.foldl keep []).any (·.isNamed key) = true := by
  obtain ⟨term, hfind⟩ := Option.isSome_iff_exists.1 (List.find?_isSome.2 (List.any_eq_true.1 h))
  have hnamed := List.find?_some hfind
  have hname : normalize term.canonical = key := by simpa [Term.isNamed] using hnamed
  have hblank : isBlankText term.canonical = false := by
    rw [← normalize_isEmpty, hname]
    exact hkey
  have hfirst : terms.find? (·.isNamed (normalize term.canonical)) = some term := by
    rw [hname]
    exact hfind
  exact List.any_eq_true.2 ⟨term, mem_foldl_keep.2 (Or.inr ⟨hblank, rfl, hfirst⟩), hnamed⟩

theorem termFor?_mem (h : termFor? terms key = some term) : term ∈ terms := by
  rw [termFor?] at h
  split at h
  · contradiction
  · rcases Option.or_eq_some_iff.1 h with h | ⟨-, h⟩
    · exact List.mem_of_find?_eq_some h
    · exact List.mem_of_find?_eq_some h

theorem termFor?_goesBy (h : termFor? terms key = some term) : term.goesBy key = true := by
  rw [termFor?] at h
  rw [Term.goesBy_eq, Bool.or_eq_true]
  split at h
  · contradiction
  · rcases Option.or_eq_some_iff.1 h with h | ⟨-, h⟩
    · have hnamed := List.find?_some h
      exact Or.inl hnamed
    · have halias := List.find?_some h
      exact Or.inr halias

/-- A normal form leads to a term exactly if one of them goes by it. -/
theorem termFor?_isSome (hkey : key.isEmpty = false) :
    (termFor? terms key).isSome = terms.any (·.goesBy key) := by
  rw [termFor?, if_neg (by simp [hkey]), Bool.eq_iff_iff, Option.isSome_or, Bool.or_eq_true,
    List.find?_isSome, List.find?_isSome, List.any_eq_true]
  simp only [Term.goesBy_eq, Bool.or_eq_true]
  constructor
  · rintro (⟨term, hmem, h⟩ | ⟨term, hmem, h⟩)
    · exact ⟨term, hmem, Or.inl h⟩
    · exact ⟨term, hmem, Or.inr h⟩
  · rintro ⟨term, hmem, h | h⟩
    · exact Or.inl ⟨term, hmem, h⟩
    · exact Or.inr ⟨term, hmem, h⟩

/-! ### The maps of an index -/

namespace TermIndex

/-- The maps of an index lead to the first of its terms that a normal form names or is an alias of,
and no canonical phrase is blank. -/
structure Lawful (index : TermIndex) : Prop where
  canonical : index.canonical = index.terms.map fun term => normalize term.canonical
  exact : ∀ key, index.exact.get? key = index.terms.findIdx? (·.isNamed key)
  aliases : ∀ key,
    index.aliases.get? key = if key.isEmpty then none else index.terms.findIdx? (·.hasAlias key)
  named : ∀ term ∈ index.terms, isBlankText term.canonical = false

theorem Lawful.empty : Lawful empty where
  canonical := rfl
  exact _ := rfl
  aliases key := by cases key.isEmpty <;> rfl
  named := by simp [TermIndex.empty]

/-- An alias that leads somewhere goes on leading there. -/
theorem get?_putAlias (position : Nat) (aliases : Keyed Nat) (phrase key : String) :
    (putAlias position aliases phrase).get? key =
      (aliases.get? key).or
        (if !key.isEmpty && normalize phrase == key then some position else none) := by
  rw [putAlias]
  split
  · rename_i hskip
    split
    · rename_i hkey
      obtain ⟨hne, rfl⟩ : key.isEmpty = false ∧ normalize phrase = key := by simpa using hkey
      obtain ⟨old, hold⟩ : ∃ old, aliases.get? (normalize phrase) = some old := by
        simpa [hne, Keyed.contains, Option.isSome_iff_exists] using hskip
      simp [hold]
    · simp
  · rename_i hput
    obtain ⟨hne, hnone⟩ :
        (normalize phrase).isEmpty = false ∧ aliases.get? (normalize phrase) = none := by
      simpa [Keyed.contains] using hput
    by_cases hkey : key = normalize phrase
    · simp [hkey, hnone, hne]
    · rw [Keyed.get?_insert_of_ne _ _ hkey]
      simp [Ne.symm hkey]

theorem get?_foldl_putAlias (position : Nat) (aliases : Keyed Nat) (phrases : List String)
    (key : String) :
    (phrases.foldl (putAlias position) aliases).get? key =
      (aliases.get? key).or
        (if !key.isEmpty && phrases.any (normalize · == key) then some position else none) := by
  induction phrases generalizing aliases with
  | nil => simp
  | cons phrase phrases ih =>
    rw [List.foldl_cons, ih, get?_putAlias, Option.or_assoc, List.any_cons]
    cases key.isEmpty <;> cases normalize phrase == key <;> simp

/-- Finding a term by its position is finding it. -/
theorem Lawful.find?_eq (h : Lawful index) (key : String) :
    index.find? key = termFor? index.terms key := by
  rw [find?, termFor?, h.exact, h.aliases]
  cases hkey : key.isEmpty with
  | true =>
    have hnone : index.terms.findIdx? (·.isNamed key) = none := by
      rw [List.findIdx?_eq_none_iff]
      intro term hterm
      have hne : normalize term.canonical ≠ key := by
        rintro rfl
        simp [h.named term hterm] at hkey
      simpa [Term.isNamed] using hne
    simp [hnone]
  | false =>
    rw [List.find?_eq_bind_findIdx?_getElem?, List.find?_eq_bind_findIdx?_getElem?]
    cases hnamed : index.terms.findIdx? (·.isNamed key) with
    | none => simp
    | some position =>
      obtain ⟨hlt, -⟩ := List.findIdx?_eq_some_iff_getElem.1 hnamed
      simp [List.getElem?_eq_getElem hlt]

theorem Lawful.contains_exact (h : Lawful index) (key : String) :
    index.exact.contains key = index.terms.any (·.isNamed key) := by
  rw [Keyed.contains, h.exact, List.findIdx?_isSome]

theorem Lawful.terms_push (h : Lawful index) (term : Term) :
    (index.push term).terms = keep index.terms term := by
  simp only [push, keep, normalize_isEmpty, h.contains_exact]
  split <;> rfl

theorem Lawful.push (h : Lawful index) (term : Term) : Lawful (index.push term) := by
  simp only [TermIndex.push, normalize_isEmpty, h.contains_exact]
  split
  · exact h
  · rename_i hnew
    obtain ⟨hblank, hfresh⟩ : isBlankText term.canonical = false ∧
        ∀ old ∈ index.terms, old.isNamed (normalize term.canonical) = false := by
      simpa using hnew
    refine ⟨?_, fun key => ?_, fun key => ?_, ?_⟩
    · simp [h.canonical]
    · rw [Keyed.get?_insert, List.findIdx?_append, List.findIdx?_singleton, ← h.exact]
      by_cases hkey : key = normalize term.canonical
      · have hnone : index.exact.get? key = none := by
          rw [h.exact, hkey, List.findIdx?_eq_none_iff]
          exact hfresh
        simp [hkey, hkey ▸ hnone]
      · simp [hkey, Term.isNamed, Ne.symm hkey]
    · rw [get?_foldl_putAlias, h.aliases, List.findIdx?_append, List.findIdx?_singleton,
        ← Term.hasAlias]
      cases key.isEmpty <;> cases term.hasAlias key <;> simp
    · intro old hold
      rcases List.mem_append.1 hold with hold | hold
      · exact h.named old hold
      · rwa [List.mem_singleton.1 hold]

/-- The maps are right after any number of terms, and the terms that are left are the kept ones. -/
theorem Lawful.foldl_push (h : Lawful index) (terms : List Term) :
    Lawful (terms.foldl TermIndex.push index) ∧
      (terms.foldl TermIndex.push index).terms = terms.foldl keep index.terms := by
  induction terms generalizing index with
  | nil => exact ⟨h, rfl⟩
  | cons term terms ih =>
    rw [List.foldl_cons, List.foldl_cons, ← h.terms_push]
    exact ih (h.push term)

theorem Lawful.withStart (h : Lawful index) (start : Nat) :
    Lawful { index with dictionaryStart := start } :=
  ⟨h.canonical, h.exact, h.aliases, h.named⟩

/-- The index of a schema and a dictionary. -/
theorem build_lawful (schema : Schema) (dictionary : List Term) :
    Lawful (build schema dictionary) :=
  ((Lawful.empty.foldl_push _).1.withStart _).foldl_push _ |>.1

theorem terms_build (schema : Schema) (dictionary : List Term) :
    (build schema dictionary).terms =
      (schemaTerms schema ++ dictionary.map (located schema)).foldl keep [] := by
  have hschema := Lawful.empty.foldl_push (schemaTerms schema)
  rw [build, ((hschema.1.withStart _).foldl_push _).2, List.foldl_append, hschema.2]
  rfl

theorem find?_build (schema : Schema) (dictionary : List Term) (key : String) :
    (build schema dictionary).find? key =
      termFor? ((schemaTerms schema ++ dictionary.map (located schema)).foldl keep []) key := by
  rw [(build_lawful schema dictionary).find?_eq, terms_build]

theorem closest?_mem {threshold : Rat} (h : index.closest? threshold key = some term) :
    term ∈ index.terms := by
  rw [closest?, Option.bind_eq_some_iff] at h
  obtain ⟨⟨position, score⟩, -, hterm⟩ := h
  exact List.mem_of_getElem? hterm

end TermIndex

end AskSql.Vocabulary
