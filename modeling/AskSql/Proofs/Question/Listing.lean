import AskSql.Proofs.Compiler.SourceTable
import AskSql.Proofs.Distinct
import AskSql.Proofs.Question.Hits

/-! The list of what is found in a question.  Each phrase of the configuration and of the dictionary
stands in it once for each thing that it points at, if it occurs in the question, with the place
where it first occurs; blank phrases are left out.  The list goes by place, then by length, then by
the order in which the phrases are configured, dictionary phrases last. -/

namespace AskSql.Question

open Text Vocabulary

variable {schema : Schema} {terms : List Term} {known phrases : List Phrase} {phrase : Phrase}
  {needle text : List Char} {target : Target} {n : Nat}

/-! ### First occurrences -/

/-- `n` characters come before the first occurrence of `needle` in `text`. -/
def FirstAt (needle text : List Char) (n : Nat) : Prop :=
  (∃ front back, text = front ++ needle ++ back ∧ front.length = n) ∧
    ∀ front back, text = front ++ needle ++ back → n ≤ front.length

theorem FirstAt.unique {m : Nat} (hm : FirstAt needle text m) (hn : FirstAt needle text n) :
    m = n := by
  obtain ⟨⟨front, back, htext, rfl⟩, hleast⟩ := hm
  obtain ⟨⟨front', back', htext', rfl⟩, hleast'⟩ := hn
  exact Nat.le_antisymm (hleast _ _ htext') (hleast' _ _ htext)

theorem firstAt_of_begins (h : needle <+: text) : FirstAt needle text n ↔ n = 0 := by
  obtain ⟨back, hback⟩ := h
  have hzero : FirstAt needle text 0 := ⟨⟨[], back, hback.symm, rfl⟩, fun _ _ _ => Nat.zero_le _⟩
  exact ⟨fun h => h.unique hzero, fun h => h ▸ hzero⟩

/-- What does not begin a text is looked for behind its first character. -/
theorem firstAt_cons {c : Char} (h : ¬needle <+: c :: text) :
    FirstAt needle (c :: text) n ↔ ∃ m, n = m + 1 ∧ FirstAt needle text m := by
  have hcut : ∀ front back, c :: text = front ++ needle ++ back →
      ∃ rest, front = c :: rest ∧ text = rest ++ needle ++ back := by
    intro front back heq
    cases front with
    | nil => exact absurd ⟨back, heq.symm⟩ h
    | cons d rest =>
      obtain ⟨rfl, hrest⟩ := List.cons.inj heq
      exact ⟨rest, rfl, hrest⟩
  constructor
  · rintro ⟨⟨front, back, heq, rfl⟩, hleast⟩
    obtain ⟨rest, rfl, htext⟩ := hcut front back heq
    refine ⟨rest.length, rfl, ⟨rest, back, htext, rfl⟩, fun front' back' htext' => ?_⟩
    simpa using hleast (c :: front') back' (by rw [htext']; rfl)
  · rintro ⟨m, rfl, ⟨front, back, rfl, rfl⟩, hleast⟩
    refine ⟨⟨c :: front, back, rfl, rfl⟩, fun front' back' heq => ?_⟩
    obtain ⟨rest, rfl, htext⟩ := hcut front' back' heq
    simpa using hleast rest back' htext

theorem offsetFrom_eq_some_iff {offset : Nat} :
    offsetFrom needle offset text = some n ↔ ∃ m, n = offset + m ∧ FirstAt needle text m := by
  induction text generalizing offset with
  | nil =>
    cases needle with
    | nil =>
      simp only [offsetFrom, firstAt_of_begins List.prefix_rfl, List.isEmpty_nil, if_true,
        Option.some.injEq, exists_eq_right, Nat.add_zero]
      exact eq_comm
    | cons c needle => simp [offsetFrom, FirstAt]
  | cons c text ih =>
    rw [offsetFrom]
    by_cases h : needle <+: c :: text
    · rw [if_pos (List.isPrefixOf_iff_prefix.2 h)]
      simp only [firstAt_of_begins h, Option.some.injEq, exists_eq_right, Nat.add_zero]
      exact eq_comm
    · rw [if_neg (by rwa [List.isPrefixOf_iff_prefix]), ih]
      simp only [firstAt_cons h]
      constructor
      · rintro ⟨m, rfl, hm⟩
        exact ⟨m + 1, by omega, m, rfl, hm⟩
      · rintro ⟨_, rfl, m, rfl, hm⟩
        exact ⟨m, by omega, hm⟩

theorem offset?_eq_some_iff : offset? needle text = some n ↔ FirstAt needle text n := by
  simp [offset?, offsetFrom_eq_some_iff]

/-- What stands in a text stands there a first time. -/
theorem exists_firstAt (h : needle <:+: text) : ∃ n, FirstAt needle text n := by
  induction text with
  | nil => exact ⟨0, (firstAt_of_begins (by simp [List.infix_nil.1 h])).2 rfl⟩
  | cons c text ih =>
    by_cases hbegins : needle <+: c :: text
    · exact ⟨0, (firstAt_of_begins hbegins).2 rfl⟩
    · obtain ⟨n, hn⟩ := ih ((List.infix_cons_iff.1 h).resolve_left hbegins)
      exact ⟨n + 1, (firstAt_cons hbegins).2 ⟨n, rfl, hn⟩⟩

/-! ### Sorting -/

section
variable {α : Type} {le : α → α → Bool}

/-- Sorting keeps the order of items that may stand either way. -/
theorem pairwise_mergeSort_and (trans : ∀ a b c, le a b = true → le b c = true → le a c = true)
    (total : ∀ a b, (le a b || le b a) = true) {r : α → α → Prop} {xs : List α}
    (h : xs.Pairwise r) :
    (xs.mergeSort le).Pairwise fun a b => le a b = true ∧ (le b a = true → r a b) := by
  rw [List.pairwise_iff_forall_sublist]
  intro a b hab
  have hle := List.pairwise_iff_forall_sublist.1 (List.pairwise_mergeSort trans total xs) hab
  refine ⟨hle, fun hge => ?_⟩
  -- the items that may stand either way with `a` come out of the sort as they went in
  let alike : α → Bool := fun x => le a x && le x a
  have hrefl : le a a = true := by simpa using total a a
  have hsub : (xs.filter alike).Sublist (xs.mergeSort le) := by
    refine List.sublist_mergeSort trans total ?_ List.filter_sublist
    refine List.pairwise_of_forall_mem_list fun x hx y hy => ?_
    have hxa := (Bool.and_eq_true_iff.1 (List.mem_filter.1 hx).2).2
    have hay := (Bool.and_eq_true_iff.1 (List.mem_filter.1 hy).2).1
    exact trans x a y hxa hay
  have hfilter : (xs.mergeSort le).filter alike = xs.filter alike := by
    have hsub' := hsub.filter alike
    rw [List.filter_filter, List.filter_congr fun x _ => Bool.and_self (alike x)] at hsub'
    exact (hsub'.eq_of_length ((List.mergeSort_perm xs le).filter alike).length_eq.symm).symm
  have hpair : [a, b].Sublist xs := by
    have hkept := hab.filter alike
    rw [hfilter] at hkept
    have hboth : [a, b].filter alike = [a, b] := by simp [alike, hrefl, hle, hge]
    rw [hboth] at hkept
    exact hkept.trans List.filter_sublist
  exact List.pairwise_iff_forall_sublist.1 h hpair

end

theorem before_iff {a b : Match} :
    before a b = true ↔ a.position < b.position ∨ a.position = b.position ∧
    b.length ≤ a.length := by
  simp only [before, Bool.or_eq_true, Bool.and_eq_true, decide_eq_true_eq, beq_iff_eq]

theorem before_trans (a b c : Match) (hab : before a b = true) (hbc : before b c = true) :
    before a c = true := by
  rw [before_iff] at *
  omega

theorem before_total (a b : Match) : (before a b || before b a) = true := by
  rw [Bool.or_eq_true, before_iff, before_iff]
  omega

/-! ### Sources of phrases -/

/-- A phrase is configured for what it points at: in the vocabulary of an entity, of one of its
attributes or of an aggregation, or as a name that the tenant adds. -/
inductive Configured (schema : Schema) : String → Target → Prop
  | entity {name phrase : String} {e : Entity} (he : schema.entities.get? name = some e)
      (h : phrase ∈ e.vocabulary) : Configured schema phrase (.entity name)
  | entityName {name phrase : String} {e : Entity} {names : List String}
      (he : schema.entities.get? name = some e)
      (hnames : schema.customTerms.entities.get? name = some names) (h : phrase ∈ names) :
      Configured schema phrase (.entity name)
  | attr {holder name phrase : String} {a : Attribute} (ha : schema.attribute? holder name = some a)
      (h : phrase ∈ a.vocabulary) : Configured schema phrase (.attr holder name)
  | attrName {holder name key phrase : String} {a : Attribute} {names : List String}
      (ha : schema.attribute? holder name = some a)
      (hkey : key = name ∨ key = holder ++ "." ++ name)
      (hnames : schema.customTerms.attributes.get? key = some names) (h : phrase ∈ names) :
      Configured schema phrase (.attr holder name)
  | aggregation {key phrase : String} {term : AggregationTerm}
      (hterm : schema.config.functions.aggregations.get? key = some term)
      (h : phrase ∈ term.vocabulary) : Configured schema phrase (.aggregation term.function)

/-- A phrase is that of a dictionary term with an entity. -/
inductive InDictionary (terms : List Term) : String → Target → Prop
  | term {term : Term} {entity phrase : String} (hterm : term ∈ terms)
      (hentity : term.entity = some entity) (h : phrase ∈ term.canonical :: term.aliases) :
      InDictionary terms phrase (.ofTerm entity term.attr)

/-- The phrases of a schema and of dictionary terms, in their order. -/
def sourcePhrases (schema : Schema) (terms : List Term) : List Phrase :=
  schemaPhrases schema ++ terms.flatMap termPhrases

theorem mem_getD_nil {α : Type} {x : α} {xs? : Option (List α)} :
    x ∈ xs?.getD [] ↔ ∃ xs, xs? = some xs ∧ x ∈ xs := by
  cases xs? <;> simp

theorem mem_extraAttributeNames {holder name other : String} :
    other ∈ extraAttributeNames schema holder name ↔
      ∃ key names, (key = name ∨ key = holder ++ "." ++ name) ∧
        schema.customTerms.attributes.get? key = some names ∧ other ∈ names := by
  simp [extraAttributeNames, mem_getD_nil]

theorem mem_entityPhrases_iff {name : String} {e : Entity}
    (he : schema.entities.get? name = some e) :
    phrase ∈ entityPhrases schema name e ↔
      (∃ other, (other ∈ e.vocabulary ∨ other ∈ extraEntityNames schema name) ∧
        phrase = ⟨searchText other, .entity name⟩) ∨
      ∃ attr a other, schema.attribute? name attr = some a ∧
        (other ∈ a.vocabulary ∨ other ∈ extraAttributeNames schema name attr) ∧
        phrase = ⟨searchText other, .attr name attr⟩ := by
  have hattr : ∀ attr a, (attr, a) ∈ e.attributes.entries ↔
      schema.attribute? name attr = some a := by
    intro attr a
    rw [Keyed.mem_entries_iff, Schema.attribute?, he, Option.bind_some]
  simp only [entityPhrases, List.mem_append, List.mem_map, List.mem_flatMap, Prod.exists, hattr]
  refine or_congr ?_ ?_
  · simp only [eq_comm]
  · constructor
    · rintro ⟨attr, a, ha, other, hother, rfl⟩
      exact ⟨attr, a, other, ha, hother, rfl⟩
    · rintro ⟨attr, a, other, ha, hother, rfl⟩
      exact ⟨attr, a, ha, other, hother, rfl⟩

/-- The phrases of a schema are those that are configured, as they are looked for. -/
theorem mem_schemaPhrases_iff :
    phrase ∈ schemaPhrases schema ↔
      ∃ other, Configured schema other phrase.target ∧ phrase.text = searchText other := by
  simp only [schemaPhrases, List.mem_append, List.mem_flatMap, List.mem_map, Prod.exists,
    Keyed.mem_entries_iff, Keyed.values]
  constructor
  · rintro (⟨name, e, he, h⟩ | ⟨_, ⟨key, term, hterm, rfl⟩, other, hother, rfl⟩)
    · rcases (mem_entityPhrases_iff he).1 h with ⟨other, hother | hother, rfl⟩ |
        ⟨attr, a, other, ha, hother | hother, rfl⟩
      · exact ⟨other, .entity he hother, rfl⟩
      · obtain ⟨names, hnames, hother⟩ := mem_getD_nil.1 hother
        exact ⟨other, .entityName he hnames hother, rfl⟩
      · exact ⟨other, .attr ha hother, rfl⟩
      · obtain ⟨key, names, hkey, hnames, hother⟩ := mem_extraAttributeNames.1 hother
        exact ⟨other, .attrName ha hkey hnames hother, rfl⟩
    · exact ⟨other, .aggregation hterm hother, rfl⟩
  · obtain ⟨text, target⟩ := phrase
    rintro ⟨other, hother, htext⟩
    dsimp only at hother htext
    subst htext
    cases hother with
    | entity he h =>
      exact Or.inl ⟨_, _, he, (mem_entityPhrases_iff he).2 (Or.inl ⟨other, Or.inl h, rfl⟩)⟩
    | entityName he hnames h =>
      exact Or.inl ⟨_, _, he, (mem_entityPhrases_iff he).2
        (Or.inl ⟨other, Or.inr (mem_getD_nil.2 ⟨_, hnames, h⟩), rfl⟩)⟩
    | attr ha h =>
      obtain ⟨e, he, -⟩ := Option.bind_eq_some_iff.1 ha
      exact Or.inl ⟨_, _, he, (mem_entityPhrases_iff he).2
        (Or.inr ⟨_, _, other, ha, Or.inl h, rfl⟩)⟩
    | attrName ha hkey hnames h =>
      obtain ⟨e, he, -⟩ := Option.bind_eq_some_iff.1 ha
      exact Or.inl ⟨_, _, he, (mem_entityPhrases_iff he).2 (Or.inr ⟨_, _, other, ha,
        Or.inr (mem_extraAttributeNames.2 ⟨_, _, hkey, hnames, h⟩), rfl⟩)⟩
    | aggregation hterm h => exact Or.inr ⟨_, ⟨_, _, hterm, rfl⟩, other, h, rfl⟩

/-- The phrases of dictionary terms, as they are looked for. -/
theorem mem_termPhrases_iff :
    phrase ∈ terms.flatMap termPhrases ↔
      ∃ other, InDictionary terms other phrase.target ∧ phrase.text = searchText other := by
  obtain ⟨text, target⟩ := phrase
  rw [List.mem_flatMap]
  constructor
  · rintro ⟨term, hterm, h⟩
    rw [termPhrases] at h
    cases hentity : term.entity with
    | none => simp [hentity] at h
    | some entity =>
      rw [hentity] at h
      obtain ⟨other, hother, heq⟩ := List.mem_map.1 h
      obtain ⟨rfl, rfl⟩ := Phrase.mk.inj heq
      exact ⟨other, .term hterm hentity hother, rfl⟩
  · rintro ⟨other, ⟨hterm, hentity, hother⟩, rfl⟩
    refine ⟨_, hterm, ?_⟩
    rw [termPhrases, hentity]
    exact List.mem_map.2 ⟨other, hother, rfl⟩

theorem searchText_isEmpty_iff {other : String} :
    (searchText other).isEmpty = false ↔ isBlankText other = false := by
  refine ⟨fun h => ?_, searchText_isEmpty⟩
  rw [Bool.eq_false_iff] at h ⊢
  intro hblank
  exact h (by rw [searchText, trim_of_blank hblank]; rfl)

/-- A phrase that is looked for in a question, together with what it points at. -/
def Scanned (schema : Schema) (terms : List Term) (phrase : Phrase) : Prop :=
  ∃ other, (Configured schema other phrase.target ∨ InDictionary terms other phrase.target) ∧
    isBlankText other = false ∧ phrase.text = searchText other

/-! ### Vocabularies -/

theorem withTerms_vocabulary (schema : Schema) (terms : List Term) :
    withTerms (vocabulary schema) terms = (sourcePhrases schema terms).foldl pushPhrase [] := by
  rw [withTerms, vocabulary, sourcePhrases, List.foldl_append]

theorem mem_withTerms_vocabulary_iff :
    phrase ∈ withTerms (vocabulary schema) terms ↔ Scanned schema terms phrase := by
  rw [withTerms_vocabulary, mem_foldl_pushPhrase_iff, or_iff_right List.not_mem_nil, sourcePhrases,
    List.mem_append, mem_schemaPhrases_iff, mem_termPhrases_iff, ← exists_or]
  constructor
  · rintro ⟨⟨other, hother⟩, hne⟩
    rw [← or_and_right] at hother
    exact ⟨other, hother.1, searchText_isEmpty_iff.1 (hother.2 ▸ hne), hother.2⟩
  · rintro ⟨other, hother, hink, htext⟩
    rw [htext, searchText_isEmpty_iff]
    exact ⟨⟨other, or_and_right.1 ⟨hother, rfl⟩⟩, hink⟩

/-- The phrases of a vocabulary are in the order in which they first come. -/
theorem pairwise_foldl_pushPhrase (phrases : List Phrase) :
    (phrases.foldl pushPhrase []).Pairwise fun a b => phrases.idxOf a < phrases.idxOf b := by
  induction phrases using List.reverseRecOn with
  | nil => exact List.Pairwise.nil
  | append_singleton phrases phrase ih =>
    have hmem : ∀ {a}, a ∈ phrases.foldl pushPhrase [] → a ∈ phrases := fun h =>
      ((mem_foldl_pushPhrase_iff.1 h).resolve_left List.not_mem_nil).1
    have hfront : (phrases.foldl pushPhrase []).Pairwise fun a b =>
        (phrases ++ [phrase]).idxOf a < (phrases ++ [phrase]).idxOf b :=
      ih.imp_of_mem fun ha hb => idxOf_concat_lt phrase (hmem ha) (hmem hb)
    rw [List.foldl_append, List.foldl_cons, List.foldl_nil, pushPhrase]
    split
    · exact hfront
    · rename_i hpush
      have hnew : phrase ∉ phrases := by
        intro hold
        rw [Bool.or_eq_true, List.contains_iff_mem, mem_foldl_pushPhrase_iff] at hpush
        cases hempty : phrase.text.isEmpty with
        | true => exact hpush (Or.inl hempty)
        | false => exact hpush (Or.inr (Or.inr ⟨hold, hempty⟩))
      refine List.pairwise_append.2 ⟨hfront, List.pairwise_singleton .., fun a ha b hb => ?_⟩
      rw [List.mem_singleton.1 hb, List.idxOf_append, List.idxOf_append, if_pos (hmem ha),
        if_neg hnew]
      exact Nat.lt_of_lt_of_le (List.idxOf_lt_length_of_mem (hmem ha)) (Nat.le_add_left ..)

/-! ### Findings -/

/-- A phrase and the place at which it is found. -/
structure Finding where
  phrase : Phrase
  position : Nat

/-- How a finding is reported. -/
def Finding.hit (f : Finding) : Match :=
  ⟨f.phrase.text, f.phrase.target.entity?, f.phrase.target.attr?, f.phrase.target.aggregation?,
    f.position, f.phrase.text.toList.length⟩

/-- A report tells what was found. -/
theorem Finding.hit_injective : Function.Injective Finding.hit := by
  rintro ⟨⟨text, target⟩, position⟩ ⟨⟨text', target'⟩, position'⟩ h
  simp only [Finding.hit, Match.mk.injEq] at h
  obtain ⟨rfl, hentity, hattr, haggregation, rfl, -⟩ := h
  have htarget : target = target' := by
    cases target <;> cases target' <;>
      simp_all [Target.entity?, Target.attr?, Target.aggregation?]
  rw [htarget]

/-- The order of findings: by place, the longer before the shorter, and those alike in both by the
order of their phrases in `sources`. -/
def Finding.Before (sources : List Phrase) (f g : Finding) : Prop :=
  f.position < g.position ∨ f.position = g.position ∧
    (g.phrase.text.toList.length < f.phrase.text.toList.length ∨
      f.phrase.text.toList.length = g.phrase.text.toList.length ∧
        sources.idxOf f.phrase < sources.idxOf g.phrase)

/-- What is found of a phrase. -/
def finding? (text : List Char) (phrase : Phrase) : Option Finding :=
  (offset? phrase.text.toList text).map fun position => ⟨phrase, position⟩

theorem finding?_eq_some_iff {f : Finding} :
    finding? text phrase = some f ↔ f.phrase = phrase ∧
    FirstAt phrase.text.toList text f.position := by
  obtain ⟨other, position⟩ := f
  simp only [finding?, Option.map_eq_some_iff, offset?_eq_some_iff, Finding.mk.injEq]
  constructor
  · rintro ⟨_, hfirst, rfl, rfl⟩
    exact ⟨rfl, hfirst⟩
  · rintro ⟨rfl, hfirst⟩
    exact ⟨position, hfirst, rfl, rfl⟩

theorem hit?_eq (text : List Char) (phrase : Phrase) :
    hit? text phrase = (finding? text phrase).map Finding.hit := by
  rw [hit?, finding?]
  cases offset? phrase.text.toList text with
  | none => rfl
  | some position =>
    obtain ⟨text, target⟩ := phrase
    cases target <;> rfl

/-- The hits of a vocabulary are its findings in their order. -/
theorem exists_findings (h : known.Pairwise fun a b => phrases.idxOf a < phrases.idxOf b)
    (text : List Char) :
    ∃ found : List Finding, hits known text = found.map Finding.hit ∧
      (found.map (·.phrase)).Nodup ∧
      (∀ f, f ∈ found ↔ f.phrase ∈ known ∧ FirstAt f.phrase.text.toList text f.position) ∧
      found.Pairwise (Finding.Before phrases) := by
  have horder : (known.filterMap (finding? text)).Pairwise fun f g =>
      phrases.idxOf f.phrase < phrases.idxOf g.phrase := by
    refine List.pairwise_filterMap.2 (h.imp fun hlt f hf g hg => ?_)
    rwa [(finding?_eq_some_iff.1 hf).1, (finding?_eq_some_iff.1 hg).1]
  let sorted := (known.filterMap (finding? text)).mergeSort fun f g => before f.hit g.hit
  have hperm : sorted.Perm (known.filterMap (finding? text)) := List.mergeSort_perm ..
  refine ⟨sorted, ?_, ?_, fun f => ?_, ?_⟩
  · have hmap : known.filterMap (hit? text) =
        (known.filterMap (finding? text)).map Finding.hit := by
      rw [List.map_filterMap]
      exact congrArg (known.filterMap ·) (funext (hit?_eq text))
    rw [hits, hmap]
    exact (List.map_mergeSort (s := before) (f := Finding.hit) fun _ _ _ _ => rfl).symm
  · rw [(hperm.map _).nodup_iff, List.Nodup, List.pairwise_map]
    refine horder.imp fun hlt heq => ?_
    rw [heq] at hlt
    exact Nat.lt_irrefl _ hlt
  · simp only [hperm.mem_iff, List.mem_filterMap, finding?_eq_some_iff]
    constructor
    · rintro ⟨phrase, hphrase, rfl, hfirst⟩
      exact ⟨hphrase, hfirst⟩
    · rintro ⟨hphrase, hfirst⟩
      exact ⟨_, hphrase, rfl, hfirst⟩
  · have hpair := pairwise_mergeSort_and (fun f g k => before_trans f.hit g.hit k.hit)
      (fun f g => before_total f.hit g.hit) horder
    refine hpair.imp fun {f g} hsorted => ?_
    rw [before_iff, before_iff] at hsorted
    simp only [Finding.hit] at hsorted
    rw [Finding.Before]
    omega

/-! ### Questions -/

/-- No stored statement is named in a question, apart from blank names. -/
def NamesNoShortcut (schema : Schema) (question : String) : Prop :=
  ∀ name stored, schema.config.mappings.shortcuts.get? name = some stored →
    blank (lowercase name.toList) = false →
      occurs (lowercase name.toList) (lowercase question.toList) = false

theorem intentOf_ne_unknown (triggers : IntentTriggers) (hits : List Match) (lowered : List Char) :
    intentOf triggers hits lowered ≠ .unknown := by
  unfold intentOf
  repeat' split
  all_goals simp

/-- The intent is unknown exactly where nothing is found. -/
theorem intent_parseWith {question : String}
    (hstored : stored? schema question (lowercase question.toList) = none) :
    (parseWith schema known terms question).intent = .unknown ↔
      (parseWith schema known terms question).hits = [] := by
  simp only [parseWith, hstored, ofHits]
  split
  · exact iff_of_true rfl rfl
  · rename_i hne
    exact iff_of_false (intentOf_ne_unknown _ _ _) (by simpa using hne)

/-- In a question that names no stored statement everything that is looked for and occurs is found
once, at the first place, and nothing else; the findings are in their order, and the intent is
unknown exactly if there are none. -/
theorem hits_parse {question : String} (hshortcut : NamesNoShortcut schema question) :
    ∃ found : List Finding,
      (parse schema terms question).hits = found.map Finding.hit ∧
      (parse schema terms question).hits.Nodup ∧ (found.map (·.phrase)).Nodup ∧
      (∀ f, f ∈ found ↔ Scanned schema terms f.phrase ∧
        FirstAt f.phrase.text.toList (lowercase question.toList) f.position) ∧
      found.Pairwise (Finding.Before (sourcePhrases schema terms)) ∧
      ((parse schema terms question).intent = .unknown ↔ found = []) := by
  have hstored : stored? schema question (lowercase question.toList) = none :=
    stored?_eq_none hshortcut
  have hordered := pairwise_foldl_pushPhrase (sourcePhrases schema terms)
  rw [← withTerms_vocabulary] at hordered
  obtain ⟨found, hhits, honce, hmem, hsorted⟩ :=
    exists_findings hordered (lowercase question.toList)
  have hparse : (parse schema terms question).hits = found.map Finding.hit :=
    (hits_parseWith hstored).trans hhits
  refine ⟨found, hparse, ?_, honce, fun f => ?_, hsorted, ?_⟩
  · rw [hparse]
    exact (List.Nodup.of_map _ honce).map Finding.hit_injective
  · rw [hmem, mem_withTerms_vocabulary_iff]
  · rw [parse, intent_parseWith hstored, ← parse, hparse, List.map_eq_nil_iff]

/-! ### A phrase within a phrase -/

/-- A dictionary term of the shop with a blank alias, whose phrase is the front of one that the shop
has configured. -/
def patron : Term :=
  { canonical := "client", table := "Clients", column := "ClientId", aliases := [" "]
    entity := some "client" }

theorem namesNoShortcut_shop (question : String) : NamesNoShortcut ⟨shop, shop_valid⟩ question := by
  intro name stored hstored
  contradiction

theorem clients_hits :
    (parse ⟨shop, shop_valid⟩ [patron] "Clients").hits =
      [⟨"clients", some "client", none, none, 0, 7⟩,
      ⟨"client", some "client", none, none, 0, 6⟩] := by
  have hlower : lowercase "Clients".toList = "clients".toList := by decide +kernel
  rw [parse, hits_parseWith rfl, hlower, hits, List.mergeSort_of_pairwise (by decide +kernel)]
  decide +kernel

/-- The longer of two phrases that begin at the same place comes first. -/
theorem hits_parse_clients :
    NamesNoShortcut ⟨shop, shop_valid⟩ "Clients" ∧
      ∃ found : List Finding, found.map Finding.hit =
          [⟨"clients", some "client", none, none, 0, 7⟩,
           ⟨"client", some "client", none, none, 0, 6⟩] ∧
        found.Pairwise (Finding.Before (sourcePhrases ⟨shop, shop_valid⟩ [patron])) ∧
        (parse ⟨shop, shop_valid⟩ [patron] "Clients").intent ≠ .unknown := by
  have hshortcut := namesNoShortcut_shop "Clients"
  obtain ⟨found, hhits, -, -, -, hsorted, hintent⟩ := @hits_parse _ [patron] _ hshortcut
  rw [clients_hits] at hhits
  refine ⟨hshortcut, found, hhits.symm, hsorted, ?_⟩
  rw [ne_eq, hintent]
  rintro rfl
  contradiction

/-- A blank alias occurs in every question, and is found in none. -/
theorem not_found_blank :
    ¬∀ other target, Configured ⟨shop, shop_valid⟩ other target ∨
    InDictionary [patron] other target →
      ∀ n, FirstAt (searchText other).toList (lowercase "Clients".toList) n →
        ∃ hit ∈ (parse ⟨shop, shop_valid⟩ [patron] "Clients").hits, hit.term = searchText other ∧
          hit.position = n := by
  intro hall
  have hblank : InDictionary [patron] " " (.ofTerm "client" none) :=
    .term (List.mem_singleton_self patron) rfl (by decide)
  have hempty : searchText " " = "" := by decide +kernel
  have hfirst : FirstAt (searchText " ").toList (lowercase "Clients".toList) 0 := by
    rw [hempty]
    exact (firstAt_of_begins List.nil_prefix).2 rfl
  obtain ⟨hit, hhit, hterm, -⟩ := hall " " _ (Or.inr hblank) 0 hfirst
  rw [clients_hits] at hhit
  rw [hempty] at hterm
  revert hit
  decide +kernel

end AskSql.Question
