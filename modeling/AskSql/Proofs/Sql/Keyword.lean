import AskSql.Proofs.Sql.PlainName

/-! Names that begin with a keyword.  Behind `SELECT`, `TOP` and `DISTINCT` are read in any case and
up to the first character that is not part of a word.  A name may have such a character, and may
read as the keyword for it.  Writing out the clock keywords in a name changes nothing about how it
reads. -/

namespace AskSql

open Text Idiom RowLimit Sql

variable {dialect : Dialect}

namespace RowLimit

/-- Whether a text is `DISTINCT`, in any case. -/
def readsAsDistinct (text : List Char) : Bool :=
  text.map fold == "distinct".toList

theorem map_fold_of_keywordChars? {word cs : List Char} (h : keywordChars? word cs = some []) :
    cs.map fold = word := by
  induction word generalizing cs with
  | nil =>
    obtain rfl : cs = [] := by simpa [keywordChars?] using h
    rfl
  | cons w word ih =>
    cases cs with
    | nil => simp [keywordChars?] at h
    | cons c cs =>
      rw [keywordChars?] at h
      split at h
      · rename_i hfold
        rw [List.map_cons, hfold, ih h]
      · cases h

end RowLimit

namespace Idiom

/-- A keyword behind `SELECT`, which no clock and no clock keyword begins with. -/
structure IsKeyword (key : String) : Prop where
  begins : ∃ w ws, key.toList = w :: ws ∧ w ≠ 'c'
  letters : ∀ c ∈ key.toList, c.isAlpha = true
  clock : ∀ dialect clock rest, keyword? key (renderClock dialect clock ++ rest) = none

theorem isKeyword_top : IsKeyword "top" :=
  ⟨⟨'t', _, rfl, by decide⟩, by decide, fun dialect clock rest =>
    (WritesOut.keyword?_renderClock dialect clock rest).2⟩

theorem isKeyword_distinct : IsKeyword "distinct" :=
  ⟨⟨'d', _, rfl, by decide⟩, by decide, fun dialect clock rest =>
    (WritesOut.keyword?_renderClock dialect clock rest).1⟩

theorem isAlpha_fold_of_isWordChar {c : Char} (h : isWordChar c = false) :
    (fold c).isAlpha = false := by
  cases hc : (fold c).isAlpha with
  | false => rfl
  | true =>
    rw [isWordChar_of_foldsToLetter hc] at h
    cases h

/-- What a keyword leaves of a name, and what it leaves of the name when it has been written out and
`after` follows: in both nothing of the name, or the same character in front. -/
inductive Alike (after : List Char) : Option (List Char) → Option (List Char) → Prop
  | none : Alike after none none
  | whole : Alike after (some []) (some after)
  | head {c : Char} (hblank : isBlank c = false) (cs cs' : List Char) :
      Alike after (some (c :: cs)) (some (c :: cs'))

namespace IsKeyword

variable {key : String} {text new after : List Char} {busy : Bool} {x : Char}

theorem eq_none (hkey : IsKeyword key) {c : Char} (h : (fold c).isAlpha = false ∨ fold c = 'c')
    (cs : List Char) : keyword? key (c :: cs) = none := by
  obtain ⟨w, ws, hw, hne⟩ := hkey.begins
  refine keyword?_cons_eq_none hw ?_
  rintro rfl
  rcases h with h | h
  · rw [hkey.letters _ (by simp [hw])] at h
    cases h
  · exact hne h

theorem append (hkey : IsKeyword key) (word : List Char)
    {rest : List Char} (h : ∀ c ∈ rest.head?, (fold c).isAlpha = false) :
    keyword? key (word ++ rest) = (keyword? key word).map (· ++ rest) :=
  keywordChars?_append_of_head fun c hc hmem => by
    have hletter := hkey.letters _ hmem
    rw [h c hc] at hletter
    cases hletter

/-- A name begins with a keyword if it does when its clock keywords have been written out. -/
theorem alike (hkey : IsKeyword key) (h : WritesOut dialect busy text new) (hne : text ≠ [])
    (hx : Stops after x) : Alike after (keyword? key text) (keyword? key (new ++ after)) := by
  cases h with
  | nil => exact absurd rfl hne
  | mark hplain hmark h =>
    have hnone := hkey.eq_none (Or.inl (isAlpha_fold_of_isWordChar hmark))
    rw [List.cons_append, hnone, hnone]
    exact .none
  | @word busy word text new hword hchars hplain hstop hclock h =>
    have hhead := h.head?_eq hstop
    have hletters : ∀ c ∈ (new ++ after).head?, (fold c).isAlpha = false := by
      intro c hc
      cases new with
      | nil =>
        obtain rfl : x = c := Option.some.inj (hx.head.symm.trans hc)
        exact hx.letter
      | cons d new =>
        exact isAlpha_fold_of_isWordChar (hstop c (by rw [← hhead]; exact hc))
    rw [List.append_assoc, hkey.append word hletters,
      hkey.append word fun c hc => isAlpha_fold_of_isWordChar (hstop c hc)]
    cases hrest : keyword? key word with
    | none => exact .none
    | some rest =>
      cases rest with
      | cons c rest =>
        have hc := hplain c ((keywordChars?_suffix hrest).mem (by simp))
        exact .head (isBlank_of_isPlainChar hc) _ _
      | nil =>
        cases text with
        | nil =>
          rw [h.new_eq_nil]
          exact .whole
        | cons c text =>
          obtain ⟨new, rfl⟩ := List.head?_eq_some_iff.1 hhead
          exact .head (isBlank_of_isPlainChar (h.plain c (by simp))) _ _
  | @clock busy clock word text new hword hplain hstop hclock h =>
    rw [List.append_assoc, hkey.clock]
    have hfold := isSome_clockKeyword? word
    rw [hclock, Option.isSome_some, eq_comm, Bool.or_eq_true, beq_iff_eq, beq_iff_eq] at hfold
    obtain ⟨c, cs, rfl, hc⟩ : ∃ c cs, word = c :: cs ∧ fold c = 'c' := by
      rcases hfold with hfold | hfold <;>
      · obtain ⟨c, cs, rfl, hc, -⟩ := List.map_eq_cons_iff.1 hfold
        exact ⟨c, cs, rfl, hc⟩
    rw [List.cons_append, hkey.eq_none (Or.inr hc)]
    exact .none

end IsKeyword

variable {text new after : List Char} {busy : Bool} {x : Char}

/-- A name reads as `TOP` exactly if it does when it has been written out. -/
theorem WritesOut.readsAsTop_eq (h : WritesOut dialect busy text new) (hne : text ≠ [])
    (hx : Stops after x) (hword : isWordChar x = false) :
    readsAsTop (new ++ after) = readsAsTop text := by
  have halike := isKeyword_top.alike h hne hx
  rw [readsAsTop, readsAsTop]
  generalize keyword? "top" text = left, keyword? "top" (new ++ after) = right at halike
  cases halike with
  | none => rfl
  | whole => simp [hx.head, hword]
  | head => rfl

/-- Nothing but `DISTINCT` and white space behind it is taken for `DISTINCT`. -/
theorem WritesOut.distinct_eq (h : WritesOut dialect busy text new) (hne : text ≠ [])
    (hx : Stops after x) (hplain : readsAsDistinct text = false ∨ isBlank x = false) :
    distinct (new ++ after) = ([], new ++ after) := by
  have halike := isKeyword_distinct.alike h hne hx
  rw [distinct]
  generalize hleft : keyword? "distinct" text = left at halike
  generalize keyword? "distinct" (new ++ after) = right at halike
  cases halike with
  | none => rfl
  | whole =>
    have hblank : isBlank x = false := by
      refine hplain.resolve_left ?_
      rw [readsAsDistinct, map_fold_of_keywordChars? hleft, beq_self_eq_true]
      exact Bool.noConfusion
    have hnone : blanks? after = none := by
      refine blanks?_of_head fun c hc => ?_
      obtain rfl : x = c := Option.some.inj (hx.head.symm.trans hc)
      exact hblank
    simp [hnone]
  | head hblank => simp [blanks?, hblank]

/-- A name that reads as `DISTINCT` has no clock keyword. -/
theorem hasClock_of_readsAsDistinct (h : readsAsDistinct text = true) : hasClock text = false := by
  have hfold : text.map fold = "distinct".toList := by simpa [readsAsDistinct] using h
  have hne : text ≠ [] := by
    rintro rfl
    cases hfold
  have hword : ∀ c ∈ text, isWordChar c = true := by
    intro c hc
    refine isWordChar_of_foldsToLetter ?_
    have hmem : fold c ∈ "distinct".toList := hfold ▸ List.mem_map_of_mem hc
    have hall : ∀ d ∈ "distinct".toList, d.isAlpha = true := by decide
    exact hall _ hmem
  have hclock := @hasClockFrom_append none text [] hne hword (by simp) (by simp)
  rw [List.append_nil, isSome_clockKeyword?, hfold] at hclock
  exact hclock

theorem distinct_append (h : readsAsDistinct text = true) {rest : List Char}
    (hrest : ∀ c ∈ rest.head?, isBlank c = false) :
    distinct (text ++ (' ' :: rest)) = (text ++ [' '], rest) := by
  have hfold : text.map fold = "distinct".toList := by simpa [readsAsDistinct] using h
  have hstart : trimStart rest = rest := by
    cases rest with
    | nil => rfl
    | cons c rest => exact trimStart_of_head ⟨c, rfl, hrest c rfl⟩
  have hblanks : blanks? ([' '] ++ rest) = some rest := by
    rw [blanks?_append (by simp) rfl, hstart]
  have hlength : (text ++ [' '] ++ rest).length - rest.length = (text ++ [' ']).length := by
    rw [List.length_append, Nat.add_sub_cancel]
  rw [← List.singleton_append, distinct, keyword?_append hfold, Option.bind_eq_bind,
    Option.bind_some, hblanks, ← List.append_assoc]
  simp only [hlength, List.take_left]

/-- A name begins with neither white space nor a parenthesis, written out or not. -/
theorem WritesOut.head (h : WritesOut dialect busy text new) (hne : text ≠ []) :
    ∃ c ∈ new.head?, isBlank c = false ∧ c ≠ ')' := by
  have hplain : ∀ {c : Char}, isPlainChar c = true → isBlank c = false ∧ c ≠ ')' := fun hc =>
    ⟨isBlank_of_isPlainChar hc, ne_of_isPlainChar hc (by decide +kernel)⟩
  cases h with
  | nil => exact absurd rfl hne
  | mark hc => exact ⟨_, rfl, hplain hc⟩
  | @word _ word _ _ hword _ hchars =>
    obtain ⟨c, cs, rfl⟩ := List.exists_cons_of_ne_nil hword
    exact ⟨c, rfl, hplain (hchars c (by simp))⟩
  | @clock _ clock => cases dialect <;> cases clock <;> exact ⟨_, rfl, by decide⟩

end Idiom

end AskSql
