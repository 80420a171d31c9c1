import AskSql.Proofs.Keyed
import AskSql.Proofs.Question.Assembly
import AskSql.Proofs.Vocabulary.Normal

/-! Which phrases are found in a question.  Every phrase of a vocabulary that occurs in the question
is found there with what it points at, whatever other phrases there are; and as soon as one of them
points at an entity there is something to run. -/

namespace AskSql.Question

open Text Vocabulary

variable {schema : Schema} {known phrases : List Phrase} {phrase : Phrase} {text : List Char}

/-! ### Phrases of a vocabulary -/

theorem mem_pushPhrase_iff {other : Phrase} :
    phrase ∈ pushPhrase known other ↔
      phrase ∈ known ∨ phrase = other ∧ other.text.isEmpty = false := by
  rw [pushPhrase]
  split
  · rename_i hskip
    refine ⟨Or.inl, ?_⟩
    rintro (hknown | ⟨rfl, hne⟩)
    · exact hknown
    · simpa [hne] using hskip
  · rename_i hpush
    have hne : other.text.isEmpty = false := by simp_all
    simp [hne]

theorem mem_foldl_pushPhrase_iff :
    phrase ∈ phrases.foldl pushPhrase known ↔
      phrase ∈ known ∨ phrase ∈ phrases ∧ phrase.text.isEmpty = false := by
  induction phrases generalizing known with
  | nil => simp
  | cons first phrases ih =>
    rw [List.foldl_cons, ih, mem_pushPhrase_iff, List.mem_cons, or_assoc]
    refine or_congr_right ⟨?_, ?_⟩
    · rintro (⟨rfl, hne⟩ | ⟨hmem, hne⟩)
      · exact ⟨Or.inl rfl, hne⟩
      · exact ⟨Or.inr hmem, hne⟩
    · rintro ⟨rfl | hmem, hne⟩
      · exact Or.inl ⟨rfl, hne⟩
      · exact Or.inr ⟨hmem, hne⟩

/-- What is looked for does not depend on the white space around a phrase. -/
@[simp] theorem searchText_trimmed (phrase : String) :
    searchText (trimmed phrase) = searchText phrase := by
  rw [searchText, trimmed, String.toList_ofList, trim_trim, searchText]

theorem searchText_isEmpty {phrase : String} (hink : isBlankText phrase = false) :
    (searchText phrase).isEmpty = false := by
  obtain ⟨c, hc, -⟩ := @lowercaseFrom_last _ [] (trimmed_trim hink).last
  rw [searchText, Bool.eq_false_iff, ne_eq, String.isEmpty_iff, String.ofList_eq_empty_iff]
  exact List.ne_nil_of_mem (List.mem_of_getLast? hc)

/-- What a term points at, given its entity. -/
def Target.ofTerm (entity : String) (attr : Option String) : Target :=
  match attr with
  | some attr => .attr entity attr
  | none => .entity entity

/-- The canonical phrase of a dictionary term with an entity is looked for. -/
theorem mem_withTerms {terms : List Term} {term : Term} {entity : String} (hterm : term ∈ terms)
    (hentity : term.entity = some entity) (hink : isBlankText term.canonical = false) :
    ⟨searchText term.canonical, .ofTerm entity term.attr⟩ ∈ withTerms known terms := by
  refine mem_foldl_pushPhrase_iff.2 (Or.inr ⟨List.mem_flatMap.2 ⟨term, hterm, ?_⟩,
    searchText_isEmpty hink⟩)
  rw [termPhrases, hentity]
  exact List.mem_cons_self

/-! ### Hits -/

/-- The entity that a target belongs to. -/
def Target.entity? : Target → Option String
  | entity name => some name
  | attr holder _ => some holder
  | aggregation _ => none

/-- The attribute that a target is. -/
def Target.attr? : Target → Option String
  | attr _ name => some name
  | entity _ | aggregation _ => none

/-- The function that a target is. -/
def Target.aggregation? : Target → Option Aggregation
  | aggregation function => some function
  | entity _ | attr .. => none

@[simp] theorem Target.entity?_ofTerm (entity : String) (attr : Option String) :
    (Target.ofTerm entity attr).entity? = some entity := by
  cases attr <;> rfl

@[simp] theorem Target.attr?_ofTerm (entity : String) (attr : Option String) :
    (Target.ofTerm entity attr).attr? = attr := by
  cases attr <;> rfl

/-- A phrase that occurs in a question is found there with what it points at. -/
theorem exists_hit (hphrase : phrase ∈ known) (hoccurs : occurs phrase.text.toList text = true) :
    ∃ hit ∈ hits known text, hit.term = phrase.text ∧ hit.entity = phrase.target.entity? ∧
      hit.attr = phrase.target.attr? := by
  obtain ⟨position, hposition⟩ := Option.isSome_iff_exists.1 hoccurs
  obtain ⟨hit, hhit, hterm⟩ : ∃ hit, hit? text phrase = some hit ∧ hit.term = phrase.text ∧
      hit.entity = phrase.target.entity? ∧ hit.attr = phrase.target.attr? := by
    rw [hit?, hposition]
    cases phrase.target <;> exact ⟨_, rfl, rfl, rfl, rfl⟩
  exact ⟨hit, List.mem_mergeSort.2 (List.mem_filterMap.2 ⟨phrase, hphrase, hhit⟩), hterm⟩

/-! ### Parses -/

/-- The names of the stored statements do not occur in a question, apart from blank ones. -/
theorem stored?_eq_none {question : String}
    (h : ∀ name stored, schema.config.mappings.shortcuts.get? name = some stored →
      blank (lowercase name.toList) = false → occurs (lowercase name.toList) text = false) :
    stored? schema question text = none := by
  rw [stored?, List.findSome?_eq_none_iff]
  rintro ⟨name, stored⟩ hmem
  dsimp only
  split
  · rfl
  · rename_i hink
    have hoccurs := h name stored ((Keyed.mem_entries_iff _).1 hmem) (by simpa using hink)
    rw [occurs, Option.isSome_eq_false_iff, Option.isNone_iff_eq_none] at hoccurs
    rw [hoccurs]
    rfl

/-- What is found in a question that names no stored statement are the phrases that occur in it. -/
theorem hits_parseWith {terms : List Term} {question : String}
    (hstored : stored? schema question (lowercase question.toList) = none) :
    (parseWith schema known terms question).hits =
      hits (withTerms known terms) (lowercase question.toList) := by
  simp only [parseWith, hstored, ofHits]
  split
  · rename_i hempty
    exact (List.isEmpty_iff.1 hempty).symm
  · rfl

/-- There is something to run as soon as one of the phrases points at an entity. -/
theorem isExecutable_parseWith {terms : List Term} {question : String} {hit : Match}
    (hstored : stored? schema question (lowercase question.toList) = none)
    (hhit : hit ∈ (parseWith schema known terms question).hits) (hentity : hit.entity.isSome) :
    (parseWith schema known terms question).isExecutable = true := by
  rw [hits_parseWith hstored] at hhit
  have hhits : ¬(hits (withTerms known terms) (lowercase question.toList)).isEmpty = true := by
    rw [List.isEmpty_iff]
    exact List.ne_nil_of_mem hhit
  obtain ⟨entity, hsome⟩ := Option.isSome_iff_exists.1 hentity
  simp only [parseWith, hstored, ofHits, if_neg hhits, ParsedQuestion.isExecutable,
    QueryNode.isExecutable, Select.isResolvable, (assembled_assemble _ _ _).entities,
    mentionedEntities]
  have hmem : entity ∈ ((hits (withTerms known terms) (lowercase question.toList)).filterMap
      (·.entity)).eraseDups :=
    List.mem_eraseDups.2 (List.mem_filterMap.2 ⟨hit, hhit, hsome⟩)
  simpa using List.ne_nil_of_mem hmem

end AskSql.Question
