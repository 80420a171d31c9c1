import Mathlib.Algebra.Order.Ring.Unbundled.Rat
import Mathlib.Data.List.MinMax
import AskSql.Proofs.Vocabulary.Phrases

/-! An index that has just been built finds what a plain scan over the terms finds: the term that a
phrase names, or else the first that has it as an alias, or else the first of those most similar to
it.  A blank phrase is the exception.  It denotes nothing, though a blank alias of a term has the
same normal form. -/

namespace AskSql.Vocabulary

variable {index : TermIndex} {threshold : Rat} {term : Term} {terms kept : List Term} {key : String}

/-! ### The most similar term -/

/-- How similar the canonical phrase of a term is to a normal form. -/
def Term.likeness (term : Term) (key : String) : Rat :=
  similarity key (normalize term.canonical)

/-- The first of the terms most similar to a normal form, if it is similar enough. -/
def closestTo? (terms : List Term) (threshold : Rat) (key : String) : Option Term :=
  (terms.filter fun term => threshold ≤ term.likeness key).argmax (·.likeness key)

/-- A further term is the closest if it is similar enough and more similar than the closest of the
others. -/
theorem closestTo?_concat (terms : List Term) (term : Term) :
    closestTo? (terms ++ [term]) threshold key =
      if threshold ≤ term.likeness key then
        match closestTo? terms threshold key with
        | none => some term
        | some best => if best.likeness key < term.likeness key then some term else some best
      else closestTo? terms threshold key := by
  rw [closestTo?, closestTo?, List.filter_append]
  by_cases hreach : threshold ≤ term.likeness key
  · rw [if_pos hreach, List.filter_cons_of_pos (by simpa using hreach), List.filter_nil,
      List.argmax_concat]
    cases (terms.filter fun term => threshold ≤ term.likeness key).argmax (·.likeness key) <;> rfl
  · rw [if_neg hreach, List.filter_cons_of_neg (by simpa using hreach), List.filter_nil,
      List.append_nil]

theorem bestMatch_concat (candidates : List String) (candidate : String) :
    bestMatch threshold key (candidates ++ [candidate]) =
      better threshold key (bestMatch threshold key candidates) candidate candidates.length := by
  simp [bestMatch, List.zipIdx_append, List.foldl_append]

/-- The best match among the canonical phrases has the position of the closest term. -/
theorem bestMatch_map (terms : List Term) :
    (bestMatch threshold key (terms.map fun term => normalize term.canonical)).map
        (fun hit => (terms[hit.1]?, hit.2)) =
      (closestTo? terms threshold key).map fun term => (some term, term.likeness key) := by
  induction terms using List.reverseRecOn with
  | nil => rfl
  | append_singleton terms term ih =>
    have hscore : similarity key (normalize term.canonical) = term.likeness key := rfl
    have hold : ∀ {position : Nat} {found : Term}, terms[position]? = some found →
        (terms ++ [term])[position]? = some found := fun h => by
      obtain ⟨hlt, -⟩ := List.getElem?_eq_some_iff.1 h
      rw [List.getElem?_append_left hlt, h]
    rw [List.map_append, List.map_singleton, bestMatch_concat, closestTo?_concat, List.length_map]
    unfold better
    dsimp only
    rw [hscore]
    generalize bestMatch threshold key (terms.map fun term => normalize term.canonical) =
      hit at ih ⊢
    rcases hit with _ | ⟨position, high⟩
    · have hnone : closestTo? terms threshold key = none := by simpa [eq_comm] using ih
      rw [hnone]
      by_cases hreach : threshold ≤ term.likeness key
      · rw [if_neg (not_lt.2 hreach), if_pos hreach]
        simp
      · rw [if_pos (not_le.1 hreach), if_neg hreach]
        rfl
    · obtain ⟨best, hclosest, hget, rfl⟩ : ∃ best, closestTo? terms threshold key = some best ∧
          terms[position]? = some best ∧ best.likeness key = high := by
        simpa [eq_comm] using ih
      rw [hclosest]
      dsimp only
      by_cases hreach : threshold ≤ term.likeness key
      · rw [if_neg (not_lt.2 hreach), if_pos hreach]
        by_cases hhigh : best.likeness key < term.likeness key
        · rw [if_pos hhigh]
          simp [not_le.2 hhigh]
        · rw [if_neg hhigh]
          simp [hold hget, not_lt.1 hhigh]
      · rw [if_pos (not_le.1 hreach), if_neg hreach]
        simp [hold hget]

theorem closestTo?_of_bestMatch {position : Nat} {high : Rat}
    (h : bestMatch threshold key (terms.map fun term => normalize term.canonical) =
      some (position, high)) :
    terms[position]? = closestTo? terms threshold key ∧ position < terms.length := by
  have hmap := @bestMatch_map threshold key terms
  obtain ⟨best, hclosest, hget, -⟩ : ∃ best, closestTo? terms threshold key = some best ∧
      terms[position]? = some best ∧ best.likeness key = high := by
    rw [h] at hmap
    simpa [eq_comm] using hmap
  exact ⟨hget.trans hclosest.symm, (List.getElem?_eq_some_iff.1 hget).1⟩

namespace TermIndex

theorem Lawful.closest?_eq (h : Lawful index) (threshold : Rat) (key : String) :
    index.closest? threshold key = closestTo? index.terms threshold key := by
  rw [closest?, h.canonical]
  rcases hbest : bestMatch threshold key (index.terms.map fun term => normalize term.canonical) with
    _ | ⟨position, high⟩
  · have hmap := @bestMatch_map threshold key index.terms
    rw [hbest] at hmap ⊢
    simpa [eq_comm] using hmap
  · rw [hbest]
    exact (closestTo?_of_bestMatch hbest).1

/-! ### Positions -/

/-- Every position that an index holds, or that a search in it finds, is that of one of its
terms. -/
structure InRange (index : TermIndex) : Prop where
  exact : ∀ key position, index.exact.get? key = some position → position < index.terms.length
  aliases : ∀ key position, index.aliases.get? key = some position → position < index.terms.length
  start : index.dictionaryStart ≤ index.terms.length
  canonical : index.canonical.length = index.terms.length
  closest : ∀ threshold key position high,
    bestMatch threshold key index.canonical = some (position, high) → position < index.terms.length

theorem Lawful.inRange (h : Lawful index) (hstart : index.dictionaryStart ≤ index.terms.length) :
    InRange index where
  exact key position hget := by
    rw [h.exact] at hget
    exact (List.findIdx?_eq_some_iff_getElem.1 hget).1
  aliases key position hget := by
    rw [h.aliases] at hget
    split at hget
    · contradiction
    · exact (List.findIdx?_eq_some_iff_getElem.1 hget).1
  start := hstart
  canonical := by rw [h.canonical, List.length_map]
  closest threshold key position high hbest := by
    rw [h.canonical] at hbest
    exact (closestTo?_of_bestMatch hbest).2

end TermIndex

/-! ### The kept terms -/

/-- The terms that a schema and dictionary terms make known: each of them whose canonical phrase is
not blank and names none that is kept before it. -/
def keptTerms (schema : Schema) (records : List Term) : List Term :=
  (schemaTerms schema ++ records.map (located schema)).foldl keep []

/-- What is kept already stays in front. -/
theorem foldl_keep_eq (terms kept : List Term) :
    ∃ more, more.Sublist terms ∧ terms.foldl keep kept = kept ++ more := by
  induction terms generalizing kept with
  | nil => exact ⟨[], .slnil, by simp⟩
  | cons term terms ih =>
    obtain ⟨more, hmore, heq⟩ := ih (keep kept term)
    rw [List.foldl_cons, heq, keep]
    split
    · exact ⟨more, hmore.cons term, rfl⟩
    · exact ⟨term :: more, hmore.cons_cons term, by simp⟩

/-- No two kept terms have the same normal form. -/
theorem nodup_foldl_keep (hkept : (kept.map fun term => normalize term.canonical).Nodup) :
    ((terms.foldl keep kept).map fun term => normalize term.canonical).Nodup := by
  induction terms generalizing kept with
  | nil => exact hkept
  | cons term terms ih =>
    rw [List.foldl_cons]
    apply ih
    rw [keep]
    split
    · exact hkept
    · rename_i hnew
      rw [Bool.or_eq_true, not_or, List.any_eq_true] at hnew
      rw [List.map_append, List.nodup_append]
      refine ⟨hkept, by simp, fun name hname other hother => ?_⟩
      obtain ⟨old, hold, rfl⟩ := List.mem_map.1 hname
      obtain rfl : other = normalize term.canonical := by simpa using hother
      intro hsame
      exact hnew.2 ⟨old, hold, by simpa [Term.isNamed] using hsame⟩

namespace TermIndex

theorem dictionaryStart_foldl_push (terms : List Term) (index : TermIndex) :
    (terms.foldl push index).dictionaryStart = index.dictionaryStart := by
  induction terms generalizing index with
  | nil => rfl
  | cons term terms ih =>
    rw [List.foldl_cons, ih]
    simp only [push]
    split <;> rfl

theorem dictionaryStart_build (schema : Schema) (records : List Term) :
    (build schema records).dictionaryStart = (keptTerms schema []).length := by
  rw [build, dictionaryStart_foldl_push, (Lawful.empty.foldl_push _).2, keptTerms, List.map_nil,
    List.append_nil]
  rfl

/-- The dictionary terms of an index are what it keeps of the dictionary, behind what it keeps of
the schema. -/
theorem dictionaryTerms_build (schema : Schema) (records : List Term) :
    keptTerms schema [] ++ (build schema records).dictionaryTerms = keptTerms schema records ∧
      (build schema records).dictionaryTerms.Sublist (records.map (located schema)) := by
  obtain ⟨more, hmore, heq⟩ := foldl_keep_eq (records.map (located schema)) (keptTerms schema [])
  have hkept : keptTerms schema records = keptTerms schema [] ++ more := by
    rw [← heq, keptTerms, keptTerms, List.map_nil, List.append_nil, List.foldl_append]
  have hterms : (build schema records).dictionaryTerms = more := by
    rw [dictionaryTerms, dictionaryStart_build, terms_build, ← keptTerms, hkept, List.drop_left]
  rw [hterms]
  exact ⟨hkept.symm, hmore⟩

theorem build_inRange (schema : Schema) (records : List Term) : InRange (build schema records) := by
  refine (build_lawful schema records).inRange ?_
  rw [dictionaryStart_build, terms_build, ← keptTerms, ← (dictionaryTerms_build schema records).1,
    List.length_append]
  exact Nat.le_add_right _ _

end TermIndex

/-! ### Scans -/

/-- What a phrase denotes among `terms`: the term whose canonical phrase has its normal form, or
else the first with such an alias, or else the first of the most similar, if it is similar enough.
-/
def scan (terms : List Term) (threshold : Rat) (phrase : String) : Except Fault Term :=
  let key := normalize phrase
  match ((terms.find? (·.isNamed key)).or (terms.find? (·.hasAlias key))).or
      (closestTo? terms threshold key) with
  | some term => .ok term
  | none => .error (.unknownTerm phrase)

theorem lookUp_eq_scan {phrase : String} (h : index.Lawful) (hphrase : isBlankText phrase = false) :
    Resolver.lookUp index threshold phrase = scan index.terms threshold phrase := by
  have hkey : ¬(normalize phrase).isEmpty = true := by simp [hphrase]
  rw [Resolver.lookUp, h.find?_eq, h.closest?_eq, termFor?, if_neg hkey]
  rfl

/-- A resolver whose index is that of the schema and the dictionary, or is still to be built, finds
what a scan over the kept terms finds, but nothing for a blank phrase.  It knows the phrases that a
scan finds without similarity, its dictionary terms are the kept ones of the dictionary, and no
position in its index is out of range. -/
theorem resolve_eq_scan {resolver : Resolver} {dictionary : Dictionary}
    (hfresh : ∀ index ∈ resolver.index, index = resolver.freshIndex dictionary) (phrase : String) :
    let records := dictionary.terms resolver.schema.tenant
    let kept := keptTerms resolver.schema records
    (resolver.resolve dictionary phrase).1 =
        (if isBlankText phrase then .error (.unknownTerm phrase)
        else scan kept resolver.threshold phrase) ∧
      ((resolver.knows dictionary phrase).1 = true ↔ isBlankText phrase = false ∧
        ((kept.find? (·.isNamed (normalize phrase))).isSome ∨
          (kept.find? (·.hasAlias (normalize phrase))).isSome)) ∧
      (resolver.terms dictionary).1 = kept ∧
      (kept.map fun term => normalize term.canonical).Nodup ∧
      keptTerms resolver.schema [] ++ (resolver.dictionaryTerms dictionary).1 = kept ∧
      (resolver.dictionaryTerms dictionary).1.Sublist (records.map (located resolver.schema)) ∧
      (resolver.currentIndex dictionary).InRange := by
  intro records kept
  have hindex : resolver.currentIndex dictionary = .build resolver.schema records := by
    rw [Resolver.currentIndex]
    cases hsome : resolver.index with
    | none => rfl
    | some index => exact hfresh index hsome
  have hlawful := TermIndex.build_lawful resolver.schema records
  have hterms : (TermIndex.build resolver.schema records).terms = kept :=
    TermIndex.terms_build resolver.schema records
  have hdictionary := TermIndex.dictionaryTerms_build resolver.schema records
  refine ⟨?_, ?_, ?_, nodup_foldl_keep (by simp), ?_⟩
  · rw [Resolver.resolve, normalize_isEmpty]
    cases hphrase : isBlankText phrase with
    | true => rfl
    | false =>
      show Resolver.lookUp (resolver.currentIndex dictionary) _ _ = _
      rw [hindex, lookUp_eq_scan hlawful hphrase, hterms]
      rfl
  · rw [Resolver.knows, hindex, TermIndex.knows, hlawful.find?_eq, hterms, termFor?]
    rw [normalize_isEmpty]
    cases isBlankText phrase <;> simp
  · rw [Resolver.terms, hindex, hterms]
  · rw [Resolver.dictionaryTerms, hindex]
    exact ⟨hdictionary.1, hdictionary.2, TermIndex.build_inRange _ _⟩

/-- A resolver of the trade. -/
def tradeResolver : Resolver := { schema := tradeSchema }

/-- A dictionary of the trade: partners, again partners, and a term with a blank alias. -/
def partners : Dictionary :=
  .insert .empty "trade"
    [{ canonical := "partners", table := "Clients", column := "ClientId", aliases := ["mates"] },
      { canonical := " Partners", table := "Suppliers", column := "SupplierNo",
        aliases := ["pals"] },
      { canonical := "rivals", table := "Suppliers", column := "SupplierNo", aliases := [" "] }]

/-- A phrase that is nearly the canonical phrase of two terms denotes the one that is kept. -/
theorem resolve_partner :
    (∀ index ∈ tradeResolver.index, index = tradeResolver.freshIndex partners) ∧
      (tradeResolver.resolve partners "partnrs").1 =
        .ok { canonical := "partners", table := "Clients", column := "ClientId",
              aliases := ["mates"], entity := some "client", attr := some "id" } := by
  have hfresh : ∀ index ∈ tradeResolver.index, index = tradeResolver.freshIndex partners := by
    simp [tradeResolver]
  exact ⟨hfresh, (resolve_eq_scan hfresh "partnrs").1.trans (by decide +kernel)⟩

/-- A scan finds a blank alias, a resolver does not. -/
theorem resolve_blank_ne_scan :
    scan (keptTerms tradeSchema (partners.terms "trade")) tradeResolver.threshold "" =
        .ok { canonical := "rivals", table := "Suppliers", column := "SupplierNo",
              aliases := [" "], entity := some "supplier", attr := some "number" } ∧
      (tradeResolver.resolve partners "").1 = .error (.unknownTerm "") ∧
      ((keptTerms tradeSchema (partners.terms "trade")).find?
        (·.hasAlias (normalize ""))).isSome = true ∧
      (tradeResolver.knows partners "").1 = false := by
  decide +kernel

end AskSql.Vocabulary
