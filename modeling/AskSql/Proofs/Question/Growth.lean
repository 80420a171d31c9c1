import AskSql.Proofs.Question.Listing

/-! A growing dictionary.  Terms that are added behind others add phrases behind those that are
looked for already.  Whatever was found in a question is therefore found there still, in the same
order, and what is new comes between.  Nothing that was mentioned is lost, and a question that could
be run can be run still. -/

namespace AskSql.Question

open Text Vocabulary

variable {schema : Schema} {terms more : List Term} {known phrases : List Phrase}
  {hits found : List Match}

/-! ### Sorting a part of a list -/

section
variable {α : Type} {le : α → α → Bool}

/-- One more item at the front of a list comes behind those that must stand before it. -/
theorem mergeSort_cons_eq (trans : ∀ a b c, le a b = true → le b c = true → le a c = true)
    (total : ∀ a b, (le a b || le b a) = true) (a : α) (xs : List α) :
    (a :: xs).mergeSort le =
      (xs.mergeSort le).filter (fun b => !le a b) ++ a :: (xs.mergeSort le).filter (le a) := by
  obtain ⟨front, back, hcons, hxs, hfront⟩ := List.mergeSort_cons trans total a xs
  have hsorted := List.pairwise_mergeSort trans total (a :: xs)
  rw [hcons] at hsorted
  have hback : ∀ b ∈ back, le a b = true := fun b hb =>
    List.rel_of_pairwise_cons (List.pairwise_append.1 hsorted).2.1 hb
  rw [hcons, hxs, List.filter_append, List.filter_append, List.filter_eq_self.2 hfront,
    List.filter_eq_self.2 hback, List.filter_eq_nil_iff.2 fun b hb => by simp [hback b hb],
    List.filter_eq_nil_iff.2 fun b hb =>
      by simpa using hfront b hb, List.append_nil, List.nil_append]

/-- What is left of a list when some of its items are left out sorts as they do in the list. -/
theorem mergeSort_sublist (trans : ∀ a b c, le a b = true → le b c = true → le a c = true)
    (total : ∀ a b, (le a b || le b a) = true) {xs ys : List α} (h : xs.Sublist ys) :
    (xs.mergeSort le).Sublist (ys.mergeSort le) := by
  induction h with
  | slnil => exact List.Sublist.refl _
  | @cons xs ys a _ ih =>
    obtain ⟨front, back, hcons, hys, -⟩ := List.mergeSort_cons trans total a ys
    rw [hcons]
    exact (hys ▸ ih).middle a
  | @cons_cons xs ys a _ ih =>
    rw [mergeSort_cons_eq trans total, mergeSort_cons_eq trans total]
    exact (ih.filter _).append ((ih.filter _).cons_cons a)

end

/-! ### More phrases -/

theorem prefix_pushPhrase (known : List Phrase) (phrase : Phrase) :
    known <+: pushPhrase known phrase := by
  rw [pushPhrase]
  split
  · exact List.prefix_rfl
  · exact List.prefix_append _ _

theorem prefix_foldl_pushPhrase (known phrases : List Phrase) :
    known <+: phrases.foldl pushPhrase known := by
  induction phrases generalizing known with
  | nil => exact List.prefix_rfl
  | cons phrase phrases ih => exact (prefix_pushPhrase known phrase).trans (ih _)

/-- The phrases of more terms come behind those of the first. -/
theorem prefix_withTerms (known : List Phrase) (h : terms <+: more) :
    withTerms known terms <+: withTerms known more := by
  obtain ⟨new, rfl⟩ := h
  rw [withTerms, withTerms, List.flatMap_append, List.foldl_append]
  exact prefix_foldl_pushPhrase _ _

theorem hits_sublist (h : known.Sublist phrases) (text : List Char) :
    (Question.hits known text).Sublist (Question.hits phrases text) :=
  mergeSort_sublist before_trans before_total (h.filterMap (hit? text))

/-! ### More hits -/

/-- One answer to a question has everything that another has. -/
structure Grows (small large : ParsedQuestion) : Prop where
  hits : small.hits.Sublist large.hits
  entities : mentionedEntities small.hits ⊆ mentionedEntities large.hits
  attributes : mentionedAttributes small.hits ⊆ mentionedAttributes large.hits
  reads : ∀ query, small.node = .select query →
    ∃ query', large.node = .select query' ∧ query.entities ⊆ query'.entities
  runs : small.isExecutable = true → large.isExecutable = true

theorem Grows.refl (parsed : ParsedQuestion) : Grows parsed parsed :=
  ⟨List.Sublist.refl _, List.Subset.refl _, List.Subset.refl _,
    fun query h => ⟨query, h, List.Subset.refl _⟩, id⟩

theorem mentionedEntities_subset (h : hits.Sublist found) :
    mentionedEntities hits ⊆ mentionedEntities found := by
  refine List.map_subset _ fun name hname => ?_
  rw [List.mem_eraseDups] at hname ⊢
  exact (h.filterMap _).subset hname

theorem mentionedAttributes_subset (h : hits.Sublist found) :
    mentionedAttributes hits ⊆ mentionedAttributes found := by
  intro target htarget
  rw [mentionedAttributes, List.mem_eraseDups] at htarget ⊢
  exact (h.filterMap _).subset htarget

/-- Hits make a query that reads what they mention. -/
theorem ofHits_reads (schema : Schema) (text : String) (lowered : List Char) (hits : List Match) :
    (ofHits schema text lowered hits).hits = hits ∧
      ∃ query, (ofHits schema text lowered hits).node = .select query ∧
        query.entities = mentionedEntities hits := by
  rw [ofHits]
  split
  · rename_i hempty
    rw [List.isEmpty_iff.1 hempty]
    exact ⟨rfl, .empty, rfl, rfl⟩
  · exact ⟨rfl, _, rfl, (assembled_assemble _ _ _).entities⟩

theorem grows_ofHits (schema : Schema) (text : String) (lowered : List Char)
    (h : hits.Sublist found) :
    Grows (ofHits schema text lowered hits) (ofHits schema text lowered found) := by
  obtain ⟨hhits, query, hnode, hentities⟩ := ofHits_reads schema text lowered hits
  obtain ⟨hfound, query', hnode', hentities'⟩ := ofHits_reads schema text lowered found
  have hsub : query.entities ⊆ query'.entities := by
    rw [hentities, hentities']
    exact mentionedEntities_subset h
  refine ⟨?_, ?_, ?_, fun other hother => ⟨query', hnode', ?_⟩, fun hruns => ?_⟩
  · rwa [hhits, hfound]
  · rw [hhits, hfound]
    exact mentionedEntities_subset h
  · rw [hhits, hfound]
    exact mentionedAttributes_subset h
  · rw [hnode] at hother
    exact QueryNode.select.inj hother ▸ hsub
  · simp only [ParsedQuestion.isExecutable, hnode, hnode', QueryNode.isExecutable,
      Select.isResolvable, Bool.not_eq_true', List.isEmpty_eq_false_iff_exists_mem] at hruns ⊢
    obtain ⟨source, hsource⟩ := hruns
    exact ⟨source, hsub hsource⟩

/-- What a question mentions under a dictionary it mentions under every longer one. -/
theorem parse_grows (schema : Schema) (question : String) (h : terms <+: more) :
    Grows (parse schema terms question) (parse schema more question) := by
  rw [parse, parse, parseWith, parseWith]
  cases stored? schema question (lowercase question.toList) with
  | some parsed => exact .refl parsed
  | none => exact grows_ofHits schema question _ (hits_sublist (prefix_withTerms _ h).sublist _)

/-- A dictionary term of the shop. -/
def ours : Term :=
  { canonical := "our", table := "Clients", column := "ClientId", aliases := []
    entity := some "client" }

theorem ours_hits :
    (parse ⟨shop, shop_valid⟩ [] "our clients").hits =
        [⟨"clients", some "client", none, none, 4, 7⟩] ∧
      (parse ⟨shop, shop_valid⟩ [ours] "our clients").hits =
        [⟨"our", some "client", none, none, 0, 3⟩,
        ⟨"clients", some "client", none, none, 4, 7⟩] := by
  have hlower : lowercase "our clients".toList = "our clients".toList := by decide +kernel
  have hfound : (withTerms (vocabulary ⟨shop, shop_valid⟩) [ours]).filterMap
      (hit? "our clients".toList) =
        [⟨"clients", some "client", none, none, 4, 7⟩,
        ⟨"our", some "client", none, none, 0, 3⟩] := by
    decide +kernel
  constructor
  · rw [parse, hits_parseWith rfl, hlower, Question.hits,
      List.mergeSort_of_pairwise (by decide +kernel)]
    decide +kernel
  · rw [parse, hits_parseWith rfl, hlower, Question.hits, hfound,
      mergeSort_cons_eq before_trans before_total, List.mergeSort_singleton]
    decide +kernel

/-- A new hit may come before the old ones. -/
theorem parse_grows_ours :
    [] <+: [ours] ∧
      Grows (parse ⟨shop, shop_valid⟩ [] "our clients")
      (parse ⟨shop, shop_valid⟩ [ours] "our clients") ∧
      (parse ⟨shop, shop_valid⟩ [] "our clients").hits ≠
        (parse ⟨shop, shop_valid⟩ [ours] "our clients").hits := by
  refine ⟨List.nil_prefix, parse_grows _ _ List.nil_prefix, ?_⟩
  rw [ours_hits.1, ours_hits.2]
  decide

end AskSql.Question
