import AskSql.Proofs.Question.Listing
import AskSql.Proofs.Text.Case
import AskSql.Proofs.Text.Taken

/-! Where hits stand in a question as it was asked.  Phrases are looked for in the small letters of
a question, and the places that are reported are places there.  A dotted capital I becomes two
characters, so what stands behind one is reported too far to the right.  Without it a hit marks out
the part of the question in which it was found; and that part is the phrase in small letters, unless
a capital sigma ends a word in the part and not in the question, or the other way round. -/

namespace AskSql.Question

open Text Vocabulary

variable {schema : Schema} {terms : List Term} {question : String} {hit : Match}
  {front span back front' span' back' : List Char}

/-- A hit marks out the part `span` of a question, which stands between `front` and `back`. -/
structure Marks (hit : Match) (question : String) (front span back : List Char) : Prop where
  text : question.toList = front ++ span ++ back
  position : front.length = hit.position
  length : span.length = hit.length

theorem Marks.unique (h : Marks hit question front span back)
    (h' : Marks hit question front' span' back') : front = front' ∧ span = span' ∧
    back = back' := by
  have htext := h.text
  rw [h'.text, List.append_assoc, List.append_assoc] at htext
  obtain ⟨hfront, hrest⟩ := List.append_inj htext (by rw [h.position, h'.position])
  obtain ⟨hspan, hback⟩ := List.append_inj hrest (by rw [h.length, h'.length])
  exact ⟨hfront.symm, hspan.symm, hback.symm⟩

/-- The characters that a hit marks out in a question are its term in small letters. -/
def Highlights (hit : Match) (question : String) : Prop :=
  ∃ front span back, Marks hit question front span back ∧ lowercase span = hit.term.toList

theorem Marks.highlights (h : Marks hit question front span back) :
    Highlights hit question ↔ lowercase span = hit.term.toList := by
  constructor
  · rintro ⟨_, _, _, h', hlower⟩
    rwa [(h.unique h').2.1]
  · exact fun hlower => ⟨front, span, back, h, hlower⟩

/-- What is found in a question that names no stored statement. -/
theorem mem_hits_parse_iff (hshortcut : NamesNoShortcut schema question) :
    hit ∈ (parse schema terms question).hits ↔
      ∃ f : Finding, Scanned schema terms f.phrase ∧
        FirstAt f.phrase.text.toList (lowercase question.toList) f.position ∧ f.hit = hit := by
  rw [parse, hits_parseWith (stored?_eq_none hshortcut), hits, List.mem_mergeSort,
    List.mem_filterMap]
  simp only [mem_withTerms_vocabulary_iff, hit?_eq, Option.map_eq_some_iff, finding?_eq_some_iff]
  constructor
  · rintro ⟨_, hphrase, f, ⟨rfl, hfirst⟩, rfl⟩
    exact ⟨f, hphrase, hfirst, rfl⟩
  · rintro ⟨f, hphrase, hfirst, rfl⟩
    exact ⟨_, hphrase, f, ⟨rfl, hfirst⟩, rfl⟩

/-! ### Phrases that stand in a question -/

/-- A part of a question that keeps its sigmas is found as whatever phrase it spells. -/
theorem exists_hit_of_span {other : String} {target : Target}
    (hshortcut : NamesNoShortcut schema question)
    (hother : Configured schema other target ∨ InDictionary terms other target)
    (hink : isBlankText other = false) (htext : question.toList = front ++ span ++ back)
    (hspan : lowercase span = (searchText other).toList)
      (hsigmas : KeepsSigmas front.reverse span back) :
    ∃ hit ∈ (parse schema terms question).hits, hit.term = searchText other ∧
      hit.entity = target.entity? ∧ hit.attr = target.attr? ∧
      hit.aggregation = target.aggregation? := by
  have hlower : (searchText other).toList <:+: lowercase question.toList := by
    rw [htext, lowercase_append_append, lowercaseBetween_eq_lowercase_iff.2 hsigmas, hspan]
    exact ⟨_, _, rfl⟩
  obtain ⟨n, hfirst⟩ := exists_firstAt hlower
  exact ⟨_, (mem_hits_parse_iff hshortcut).2 ⟨⟨⟨searchText other, target⟩, n⟩,
    ⟨other, hother, hink, rfl⟩, hfirst, rfl⟩, rfl, rfl, rfl, rfl⟩

/-! ### Questions without dotted capital I's -/

theorem exists_marks (hshortcut : NamesNoShortcut schema question)
    (hdotted : '\u0130' ∉ question.toList) (hhit : hit ∈ (parse schema terms question).hits) :
    ∃ front span back, Marks hit question front span back ∧
      (Highlights hit question ↔ KeepsSigmas front.reverse span back) := by
  obtain ⟨f, -, ⟨⟨front, back, hlower, hposition⟩, -⟩, rfl⟩ := (mem_hits_parse_iff hshortcut).1 hhit
  obtain ⟨front', span, back', htext, hfront, hlength, hspan⟩ :=
    exists_of_lowercase_eq hdotted hlower
  have hmarks : Marks f.hit question front' span back' := ⟨htext, hfront.trans hposition, hlength⟩
  refine ⟨front', span, back', hmarks, ?_⟩
  rw [hmarks.highlights, ← lowercaseBetween_eq_lowercase_iff, hspan]
  exact eq_comm

/-! ### Questions with a dotted capital I -/

/-- Ink of a text is not found before the place where the ink of the text begins. -/
theorem firstAt_of_ink {gap needle rest : List Char} (hgap : blank gap = true)
    (hink : ∃ c ∈ needle.head?, isBlank c = false) :
    FirstAt needle (gap ++ needle ++ rest) gap.length := by
  refine ⟨⟨gap, rest, rfl, rfl⟩, fun front back heq => ?_⟩
  rw [List.append_assoc, List.append_assoc, List.append_eq_append_iff] at heq
  rcases heq with ⟨more, rfl, -⟩ | ⟨more, rfl, hneedle⟩
  · simp
  · cases more with
    | nil => simp
    | cons d more =>
      obtain ⟨c, hc, hcInk⟩ := hink
      obtain ⟨cs, rfl⟩ := List.head?_eq_some_iff.1 hc
      obtain rfl : c = d := (List.cons.inj hneedle).1
      have hd := List.all_eq_true.1 hgap c (by simp)
      rw [hcInk] at hd
      contradiction

/-- The whole question, as a dictionary term. -/
def wholeTerm (question : String) : Term :=
  { canonical := question, table := "", column := "", aliases := [], entity := some "" }

/-- The whole question, if it is a phrase, is found where its ink begins. -/
theorem exists_finding_whole (hink : isBlankText question = false) {gap gap' : List Char}
    (htext : question.toList = gap ++ trim question.toList ++ gap') (hgap : blank gap = true)
    (hgap' : blank gap' = true) :
    ∃ f : Finding, Scanned schema [wholeTerm question] f.phrase ∧
      FirstAt f.phrase.text.toList (lowercase question.toList) f.position ∧
      f.phrase.text.toList = lowercase (trim question.toList) ∧ f.position = gap.length := by
  have hphrase : (searchText question).toList = lowercase (trim question.toList) := by
    rw [searchText, String.toList_ofList]
  have hbefore : blank gap.reverse = true := by
    rw [blank, List.all_reverse]
    exact hgap
  have hkept : lowercaseBetween gap.reverse gap' (trim question.toList) =
      lowercase (trim question.toList) :=
    lowercaseBetween_eq_lowercase_iff.2 (keepsSigmas_of_blank hbefore hgap')
  have hfirst : FirstAt (searchText question).toList (lowercase question.toList) gap.length := by
    rw [htext, lowercase_append_append, lowercaseBetween_of_blank hgap, hkept, hphrase]
    exact firstAt_of_ink hgap (lowercaseFrom_head (trimmed_trim hink).head)
  have hdictionary : InDictionary [wholeTerm question] question (.entity "") :=
    .term (List.mem_singleton_self _) rfl List.mem_cons_self
  exact ⟨⟨⟨searchText question, .entity ""⟩, gap.length⟩, ⟨question, Or.inr hdictionary, hink, rfl⟩,
    hfirst, hphrase, rfl⟩

theorem exists_not_highlights (hshortcut : NamesNoShortcut schema question)
    (hdotted : '\u0130' ∈ question.toList) :
    ∃ terms, ∃ hit ∈ (parse schema terms question).hits, ¬Highlights hit question := by
  have hink : isBlankText question = false := by
    rw [isBlankText, blank, List.all_eq_false]
    exact ⟨_, hdotted, by decide⟩
  obtain ⟨gap, gap', htext, hgap, hgap'⟩ := exists_trim question.toList
  obtain ⟨f, hscanned, hfirst, hterm, hposition⟩ := exists_finding_whole hink htext hgap hgap'
  refine ⟨_, f.hit, (mem_hits_parse_iff hshortcut).2 ⟨f, hscanned, hfirst, rfl⟩, ?_⟩
  rintro ⟨front, span, back, ⟨hparts, hfront, hlength⟩, hlower⟩
  change front.length = f.position at hfront
  change span.length = f.phrase.text.toList.length at hlength
  change lowercase span = f.phrase.text.toList at hlower
  -- a part with as many characters as its small letters has no dotted capital I
  have hspan : '\u0130' ∉ span := by
    have hsame := length_lowercase span
    rw [hlower, ← hlength] at hsame
    exact List.count_eq_zero.1 (by omega)
  -- but it is longer than the ink of the question, and begins where that begins
  have hmem : '\u0130' ∈ trim question.toList := mem_trim_of_mem hdotted (by decide)
  have hlonger : (trim question.toList).length ≤ span.length := by
    rw [hlength, hterm, length_lowercase]
    exact Nat.le_add_right ..
  rw [htext, List.append_assoc, List.append_assoc] at hparts
  obtain ⟨-, hrest⟩ := List.append_inj hparts (by rw [hfront, hposition])
  have hbegins : trim question.toList <+: span :=
    List.prefix_of_prefix_length_le ⟨gap', hrest⟩ ⟨back, rfl⟩ hlonger
  exact hspan (hbegins.subset hmem)

/-! ### Main result -/

/-- In a question that names no stored statement a part that keeps its sigmas is found as whatever
phrase it spells; without a dotted capital I each hit marks out a part of the question, which is its
term in small letters exactly if the part keeps its sigmas; and with one there are dictionary terms
for which a hit does not tell where it stands. -/
theorem highlights_iff (hshortcut : NamesNoShortcut schema question) :
    (∀ other target, Configured schema other target ∨ InDictionary terms other target →
      isBlankText other = false → ∀ front span back, question.toList = front ++ span ++ back →
        lowercase span = (searchText other).toList → KeepsSigmas front.reverse span back →
          ∃ hit ∈ (parse schema terms question).hits, hit.term = searchText other ∧
            hit.entity = target.entity? ∧ hit.attr = target.attr? ∧
            hit.aggregation = target.aggregation?) ∧
    ('\u0130' ∉ question.toList → ∀ hit ∈ (parse schema terms question).hits,
      ∃ front span back, Marks hit question front span back ∧
        (Highlights hit question ↔ KeepsSigmas front.reverse span back)) ∧
    ('\u0130' ∈ question.toList →
      ∃ terms, ∃ hit ∈ (parse schema terms question).hits, ¬Highlights hit question) := by
  refine ⟨?_, ?_, exists_not_highlights hshortcut⟩
  · intro other target hother hink front span back
    exact exists_hit_of_span hshortcut hother hink
  · intro hdotted hit hhit
    exact exists_marks hshortcut hdotted hhit

theorem dotted_hits :
    (parse ⟨shop, shop_valid⟩ [] "\u0130 clients").hits =
      [⟨"clients", some "client", none, none, 3, 7⟩] := by
  have hlower : lowercase "\u0130 clients".toList = "i\u0307 clients".toList := by decide +kernel
  rw [parse, hits_parseWith rfl, hlower, hits, List.mergeSort_of_pairwise (by decide +kernel)]
  decide +kernel

/-- Behind a dotted capital I a phrase is found, but said to go on past the end of the question. -/
theorem not_highlights_dotted :
    NamesNoShortcut ⟨shop, shop_valid⟩ "\u0130 clients" ∧
      ∃ hit ∈ (parse ⟨shop, shop_valid⟩ [] "\u0130 clients").hits,
        hit.term = "clients" ∧ ¬Highlights hit "\u0130 clients" := by
  have hshortcut := namesNoShortcut_shop "\u0130 clients"
  obtain ⟨hfound, -, -⟩ := @highlights_iff _ [] _ hshortcut
  obtain ⟨hit, hhit, hterm, -⟩ := hfound "clients" (.entity "client")
    (Or.inl (.entity rfl (by decide))) (by decide) "\u0130 ".toList "clients".toList [] (by decide)
    (by decide +kernel) (keepsSigmas_of_not_mem (by decide))
  refine ⟨hshortcut, hit, hhit, ?_, ?_⟩
  · rw [hterm]
    decide +kernel
  · rintro ⟨front, span, back, hmarks, -⟩
    rw [dotted_hits, List.mem_singleton] at hhit
    have hlength := congrArg List.length hmarks.text
    have hposition := hmarks.position
    have hspan := hmarks.length
    rw [List.length_append, List.length_append] at hlength
    subst hhit
    have hnine : "\u0130 clients".toList.length = 9 := by decide
    dsimp only at hposition hspan
    omega

end AskSql.Question
