import AskSql.Proofs.LogicalName.Words
import AskSql.Proofs.Sql.QuotedName

/-! Quoted identifiers in configured texts.  The pass that replaces names knows the quotes of string
literals only: it goes through a quoted identifier as through any other text.  The identifier stays
as it is if no name lies over it.  If the names are words, it stays exactly if none of its words
becomes another text. -/

namespace AskSql.Sql

open Text

variable {dialect : Dialect} {columns : Keyed String} {before front middle back text : List Char}
  {first : Option Char} {afterName : Bool}

/-- Replacing the names in a text leaves `middle` as it is, between what `front` becomes by itself
and what `back` becomes behind it. -/
def Keeps (dialect : Dialect) (columns : Keyed String) (front middle back : List Char) : Prop :=
  replaceNames dialect columns (front ++ (middle ++ back)) =
    replaceNames dialect columns front ++ (middle ++
      replaceNamesFrom dialect (byLength columns.entries)
      (middle.reverse ++ front.reverse) false 0 back)

/-- A text that can stand apart from what surrounds it: it begins and ends with neither a word nor a
single quote. -/
structure Detached (middle : List Char) : Prop where
  first : ∃ c ∈ middle.head?, isWordChar c = false ∧ c ≠ '\''
  last : ∃ c ∈ middle.getLast?, isWordChar c = false ∧ c ≠ '\''

/-! ### Names beside the text -/

/-- Whether `name` stands as whole words between `before` and `behind`. -/
def StandsBetween (before name behind : List Char) : Prop :=
  isBoundary before.getLast? (name ++ behind).head? = true ∧
    isBoundary (name.getLast?.or before.getLast?) behind.head? = true

/-- No name lies over `middle`: each that stands in the text ends in `front` or begins in `back`. -/
def Clear (columns : Keyed String) (front middle back : List Char) : Prop :=
  ∀ name ∈ columns.keys, ∀ before behind,
    front ++ (middle ++ back) = before ++ (name.toList ++ behind) →
    StandsBetween before name.toList behind →
      before.length < front.length ∧ (before ++ name.toList).length ≤ front.length ∨
        (front ++ middle).length ≤ before.length

/-- A name is found only where it stands as whole words. -/
theorem standsBetween_of_nameAt? {entry : String × String}
    (h : nameAt? (byLength columns.entries) before.reverse.head? afterName text = some entry) :
    entry.1 ∈ columns.keys ∧ ∃ behind, text = entry.1.toList ++ behind ∧
      StandsBetween before entry.1.toList behind := by
  have hmem := List.mem_mergeSort.1 (List.mem_of_find?_eq_some h)
  have hfound := List.find?_some h
  refine ⟨List.mem_map_of_mem hmem, ?_⟩
  simp only at hfound
  split at hfound
  · rename_i behind hprefix
    obtain rfl := List.isPrefixOf?_eq_some_iff_append_eq.1 hprefix
    rw [List.head?_reverse, Bool.and_eq_true, Bool.and_eq_true] at hfound
    exact ⟨behind, rfl, hfound.1.1, hfound.2⟩
  · contradiction

/-- Over a clear text no name is found. -/
theorem Clear.nameAt?_eq_none (h : Clear columns front middle back) (hne : text ≠ [])
    (htext : middle = before ++ text) :
    nameAt? (byLength columns.entries) (before.reverse ++ front.reverse).head? afterName
      (text ++ back) = none := by
  rw [Option.eq_none_iff_forall_not_mem]
  intro entry hentry
  rw [← List.reverse_append] at hentry
  obtain ⟨hkey, behind, heq, hstands⟩ := standsBetween_of_nameAt? hentry
  have hwhole : front ++ (middle ++ back) = (front ++ before) ++ (entry.1.toList ++ behind) := by
    rw [htext, List.append_assoc, heq, List.append_assoc]
  have hpos := List.length_pos_iff.2 hne
  rcases h _ hkey _ _ hwhole hstands with ⟨hbefore, -⟩ | hbehind
  · simp only [List.length_append] at hbefore
    omega
  · simp only [htext, List.length_append] at hbehind
    omega

/-- No word runs from a text into one that is detached. -/
theorem Detached.isBoundary_append (h : Detached middle) (b : Option Char) (text back : List Char) :
    isBoundary b (text ++ (middle ++ back)).head? = isBoundary b text.head? := by
  obtain ⟨c, hc, hmark, -⟩ := h.first
  cases text with
  | cons d text => rfl
  | nil =>
    rw [List.nil_append, List.head?_append, Option.mem_def.1 hc, Option.some_or, isBoundary,
      isBoundary, Option.any_some, hmark]
    rfl

theorem Detached.length_pos (h : Detached middle) : 0 < middle.length := by
  obtain ⟨c, hc, -⟩ := h.first
  exact List.length_pos_of_mem (List.mem_of_head? hc)

/-- Where a clear text begins, no name ends that begins there. -/
theorem Clear.nameAt?_nil (h : Clear columns front middle back) (hmiddle : Detached middle) :
    nameAt? (byLength columns.entries) front.reverse.head? afterName [] = none := by
  rw [Option.eq_none_iff_forall_not_mem]
  intro entry hentry
  obtain ⟨hkey, behind, heq, hfirst, hlast⟩ := standsBetween_of_nameAt? hentry
  obtain ⟨hname, rfl⟩ := List.append_eq_nil_iff.1 heq.symm
  have hstands : StandsBetween front entry.1.toList (middle ++ back) := by
    rw [hname] at hfirst hlast ⊢
    refine ⟨?_, ?_⟩
    · rwa [hmiddle.isBoundary_append]
    · rwa [← List.nil_append (middle ++ back), hmiddle.isBoundary_append]
  have hpos := hmiddle.length_pos
  rcases h _ hkey _ _ (by rw [hname, List.nil_append]) hstands with ⟨hbefore, -⟩ | hbehind
  · exact Nat.lt_irrefl _ hbefore
  · rw [List.length_append] at hbehind
    omega

/-- Before a clear text a name ends where it begins. -/
theorem Clear.length_le {name : String} {done more behind : List Char}
    (h : Clear columns front middle back) (hkey : name ∈ columns.keys)
    (hfront : front = done ++ more)
    (hmore : more ≠ []) (heq : name.toList ++ behind = more ++ (middle ++ back))
    (hstands : StandsBetween done name.toList behind) : name.toList.length ≤ more.length := by
  have hpos := List.length_pos_iff.2 hmore
  have hwhole : front ++ (middle ++ back) = done ++ (name.toList ++ behind) := by
    rw [heq, hfront, List.append_assoc]
  rcases h _ hkey _ _ hwhole hstands with ⟨-, hlength⟩ | hbehind
  · simpa [hfront] using hlength
  · simp only [hfront, List.length_append] at hbehind
    omega

/-- Before a clear text the same names are found as without it. -/
theorem Clear.nameAt?_append {done more : List Char} (h : Clear columns front middle back)
    (hmiddle : Detached middle) (hfront : front = done ++ more) (hmore : more ≠ []) :
    nameAt? (byLength columns.entries) done.reverse.head? afterName (more ++ (middle ++ back)) =
      nameAt? (byLength columns.entries) done.reverse.head? afterName more := by
  rw [nameAt?, nameAt?]
  refine List.find?_congr ?_
  rintro ⟨name, column⟩ hmem
  have hkey : name ∈ columns.keys := List.mem_map_of_mem (List.mem_mergeSort.1 hmem)
  simp only [List.head?_reverse]
  cases hfound : name.toList.isPrefixOf? more with
  | some rest =>
    -- the name fits into `more`, and the text goes on there as it does without `middle`
    obtain rfl := List.isPrefixOf?_eq_some_iff_append_eq.1 hfound
    rw [List.append_assoc, List.isPrefixOf?_eq_some_iff_append_eq.2 rfl]
    simp only
    rw [← List.append_assoc, hmiddle.isBoundary_append, hmiddle.isBoundary_append]
  | none =>
    simp only
    split
    · rename_i behind hprefix
      have heq := List.isPrefixOf?_eq_some_iff_append_eq.1 hprefix
      rw [← Bool.not_eq_true, Bool.and_eq_true, Bool.and_eq_true]
      rintro ⟨⟨hfirst, -⟩, hlast⟩
      rw [← heq] at hfirst
      obtain ⟨rest, hrest⟩ := List.prefix_of_prefix_length_le ⟨behind, heq⟩
        (List.prefix_append more _) (h.length_le hkey hfront hmore heq ⟨hfirst, hlast⟩)
      rw [List.isPrefixOf?_eq_some_iff_append_eq.2 hrest] at hfound
      contradiction
    · rfl

/-- A clear text is cut off from what comes before it. -/
theorem Clear.cuts (h : Clear columns front middle back) (hmiddle : Detached middle) :
    Cuts (byLength columns.entries) [] front (middle ++ back) := by
  intro done more hfront afterName
  rw [List.append_nil]
  split
  · rename_i hmore
    obtain rfl : front = done := by rw [hfront, hmore, List.append_nil]
    rw [hmore]
    exact h.nameAt?_nil hmiddle
  · rename_i hmore
    exact (h.nameAt?_append hmiddle hfront hmore).symm

/-- A text over which no name lies is kept. -/
theorem keeps_of_clear (h : Clear columns front middle back) (hmiddle : Detached middle) :
    Keeps dialect columns front middle back := by
  have hquotes : front.getLast? = some '\'' → (middle ++ back).head? ≠ some '\'' := by
    intro _ hq
    obtain ⟨c, hc, -, hne⟩ := hmiddle.first
    rw [List.head?_append, Option.mem_def.1 hc] at hq
    exact hne (Option.some.inj hq)
  obtain ⟨ended, hpass⟩ := @replaceNamesFrom_append dialect _ [] _ false _ (h.cuts hmiddle) hquotes
  have hself := @replaceNamesFrom_self dialect (byLength columns.entries) (front.reverse ++ []) back
    ended middle fun done c more htext afterName => by
      rw [List.append_nil]
      exact h.nameAt?_eq_none (List.cons_ne_nil c more) htext
  have hempty : middle.isEmpty = false := by
    rw [List.isEmpty_eq_false_iff, ← List.length_pos_iff]
    exact hmiddle.length_pos
  rw [hempty, Bool.and_false, List.append_nil] at hself
  rw [List.append_nil, hself] at hpass
  exact hpass

/-! ### Words in the text -/

/-- The number of characters of a text that belong to no word. -/
def marks (text : List Char) : Nat :=
  text.countP fun c => !isWordChar c

theorem marks_append (front back : List Char) : marks (front ++ back) = marks front + marks back :=
  List.countP_append

theorem marks_eq_zero : marks text = 0 ↔ ∀ c ∈ text, isWordChar c = true := by
  simp [marks, List.countP_eq_zero]

variable {texts : List (List Char)} {pos : Nat} {rewrite : Nat → List Char → List Char}
  (hrewrite : ∀ pos run, (∀ c ∈ run, isWordChar c = false) → rewrite pos run = run)
include hrewrite

/-- Rewriting words takes no mark away. -/
theorem marks_le (h : Separate first texts) :
    marks texts.flatten ≤
      marks ((withPositions pos texts).flatMap fun p => rewrite p.1 p.2) := by
  induction texts generalizing first pos with
  | nil => exact Nat.le_refl _
  | cons run texts ih =>
    have hlater := @ih _ (pos + run.length) h.2.2.2
    have hrun : marks run ≤ marks (rewrite pos run) := by
      rcases h.kind with hword | hmarks
      · rw [marks_eq_zero.2 hword]
        exact Nat.zero_le _
      · rw [hrewrite pos run hmarks]
    rw [List.flatten_cons, withPositions, List.flatMap_cons, marks_append, marks_append]
    exact Nat.add_le_add hrun hlater

/-- Where a word ends, so does what the texts behind it are rewritten as begin with a mark. -/
theorem head?_flatMap (h : Separate first texts) (hfirst : ∃ b ∈ first, isWordChar b = true) :
    ∀ c ∈ ((withPositions pos texts).flatMap fun p => rewrite p.1 p.2).head?,
      isWordChar c = false := by
  obtain ⟨b, hb, hword⟩ := hfirst
  cases texts with
  | nil =>
    intro c hc
    contradiction
  | cons run texts =>
    have hhead := h.head?_flatten b hb
    obtain ⟨hne, hsame, -⟩ := h
    obtain ⟨d, cs, rfl⟩ := List.exists_cons_of_ne_nil hne
    have hd : isWordChar d = false := by simpa [hword] using hhead d rfl
    have hmarks : ∀ c ∈ d :: cs, isWordChar c = false :=
      fun c hc => (hsame c hc d List.mem_cons_self).trans hd
    intro c hc
    rw [withPositions, List.flatMap_cons, hrewrite pos _ hmarks] at hc
    obtain rfl : d = c := Option.some.inj hc
    exact hd

/-- A text is rewritten as itself only if each of its words is. -/
theorem forall_of_flatMap_eq (h : Separate first texts)
    (heq : ((withPositions pos texts).flatMap fun p => rewrite p.1 p.2) = texts.flatten) :
    ∀ p ∈ withPositions pos texts, rewrite p.1 p.2 = p.2 := by
  induction texts generalizing first pos with
  | nil => simp [withPositions]
  | cons run texts ih =>
    have hlater := h.2.2.2
    rw [withPositions, List.flatMap_cons, List.flatten_cons] at heq
    have hrun : rewrite pos run = run := by
      rcases h.kind with hword | hmarks
      · have hcount := congrArg marks heq
        have hle := @marks_le _ _ (pos + run.length) _ hrewrite hlater
        simp only [marks_append, marks_eq_zero.2 hword] at hcount
        have hnew : ∀ c ∈ rewrite pos run, isWordChar c = true := marks_eq_zero.1 (by omega)
        have hlast : ∃ b ∈ run.getLast?, isWordChar b = true :=
          ⟨_, List.getLast?_eq_some_getLast h.1, hword _ (List.getLast_mem h.1)⟩
        have hstop : ∀ c ∈ texts.flatten.head?, isWordChar c = false := by
          obtain ⟨b, hb, hbword⟩ := hlast
          simpa [hbword] using hlater.head?_flatten b hb
        -- both texts begin with one word, up to the first mark
        rw [← takeWhile_append hnew (head?_flatMap hrewrite hlater hlast), heq,
          takeWhile_append hword hstop]
      · exact hrewrite pos run hmarks
    rw [hrun] at heq
    exact List.forall_mem_cons.2 ⟨hrun, ih hlater (List.append_cancel_left heq)⟩

omit hrewrite

theorem flatMap_withPositions :
    ((withPositions pos texts).flatMap fun p => p.2) = texts.flatten := by
  induction texts generalizing pos with
  | nil => rfl
  | cons run texts ih => rw [withPositions, List.flatMap_cons, ih, List.flatten_cons]

/-- Whatever comes before a text that begins with a mark, no word goes on in it. -/
theorem Separate.of_head? (h : Separate none texts)
    (hhead : ∀ c ∈ texts.flatten.head?, isWordChar c = false) : Separate first texts := by
  cases texts with
  | nil => trivial
  | cons run texts =>
    obtain ⟨hne, hsame, -, hlater⟩ := h
    refine ⟨hne, hsame, fun b _ c hc => Or.inr (hhead c ?_), hlater⟩
    rw [List.flatten_cons, List.head?_append, Option.mem_def.1 hc]
    rfl

variable (hkeys : ∀ name ∈ columns.keys, IsWordName name)
include hkeys

/-- If the names are words, a detached text is kept exactly if the pass over it leaves it as it
is. -/
theorem keeps_iff_replaceNamesFrom (hmiddle : Detached middle) :
    Keeps dialect columns front middle back ↔
      replaceNamesFrom dialect (byLength columns.entries) front.reverse false 0 middle =
        middle := by
  have hwords := forall_byLength hkeys
  obtain ⟨c, hc, hcmark, hcquote⟩ := hmiddle.first
  obtain ⟨d, hd, hdmark, hdquote⟩ := hmiddle.last
  have hhead : (middle ++ back).head? = some c := by
    rw [List.head?_append, Option.mem_def.1 hc, Option.some_or]
  have hfirst : Breaks front (middle ++ back) := breaks_of_head fun e he => by
    rw [hhead] at he
    rwa [← Option.some.inj he]
  have hlast : Breaks middle back := breaks_of_last fun e he => by
    rw [Option.mem_def.1 hd] at he
    rwa [← Option.some.inj he]
  have hfront := @replaceNamesFrom_append_of_breaks dialect _ [] _ hwords front hfirst
    fun _ hq => hcquote (Option.some.inj (hhead.symm.trans hq))
  have hback := @replaceNamesFrom_append_of_breaks dialect _ front.reverse _ hwords middle hlast
    fun hq => absurd (Option.some.inj (hd.symm.trans hq)) hdquote
  rw [List.append_nil, hback] at hfront
  rw [Keeps, replaceNames, hfront, replaceNames, List.append_cancel_left_eq, List.append_left_inj]

/-- If the names are words, a detached text is kept exactly if each of its words stays. -/
theorem keeps_iff_runText (hmiddle : Detached middle) :
    Keeps dialect columns front middle back ↔
      ∀ p ∈ withPositions front.length (runs middle),
        runText dialect columns (front ++ middle) p.1 p.2 = p.2 := by
  obtain ⟨c, hc, hcmark, -⟩ := hmiddle.first
  have hseparate : Separate front.reverse.head? (runs middle) :=
    (separate_runs middle).of_head? fun d hd => by
      rw [flatten_runs, Option.mem_def.1 hc] at hd
      rwa [← Option.some.inj hd]
  have hpass := @replaceNamesFrom_flatten dialect columns front.reverse hkeys _ hseparate
  rw [flatten_runs, List.length_reverse, List.reverse_reverse] at hpass
  have hflatten := @flatMap_withPositions (runs middle) front.length
  rw [flatten_runs] at hflatten
  rw [keeps_iff_replaceNamesFrom hkeys hmiddle, hpass]
  constructor
  · intro heq
    refine forall_of_flatMap_eq (fun pos run hmarks => runText_marks hkeys hmarks _ pos)
      hseparate ?_
    rwa [flatten_runs]
  · intro hall
    conv_rhs => rw [← hflatten]
    exact List.flatMap_congr hall

omit hkeys

/-! ### Quoted identifiers -/

variable {name : QuotedName}

theorem detached_text (hkind :
    (name.opening, name.closing) ∈ [('[', ']'), ('"', '"'), ('`', '`')]) :
    Detached name.text := by
  have hmarks : ∀ kind ∈ [('[', ']'), ('"', '"'), ('`', '`')],
      (isWordChar kind.1 = false ∧ kind.1 ≠ '\'') ∧
      (isWordChar kind.2 = false ∧ kind.2 ≠ '\'') := by
    decide
  obtain ⟨hopening, hclosing⟩ := hmarks _ hkind
  exact ⟨⟨name.opening, rfl, hopening⟩, ⟨name.closing, List.getLast?_concat, hclosing⟩⟩

theorem runText_eq_iff {run : List Char} : runText dialect columns text pos run = run ↔
    ∀ column ∈ runColumn? columns text pos run, escapeChars dialect column.toList = run := by
  rw [runText]
  cases runColumn? columns text pos run <;> simp

/-- A quoted identifier is kept if no name lies over it.  If the names are words, it is kept exactly
if each of its words that would become a column is what that column is written as. -/
theorem keeps_quotedName
    (hkind : (name.opening, name.closing) ∈ [('[', ']'), ('"', '"'), ('`', '`')])
    (dialect : Dialect) (columns : Keyed String) (front back : List Char) :
    (Clear columns front name.text back → Keeps dialect columns front name.text back) ∧
      ((∀ key ∈ columns.keys, IsWordName key) →
        (Keeps dialect columns front name.text back ↔
          ∀ p ∈ withPositions front.length (runs name.text),
            ∀ column ∈ runColumn? columns (front ++ name.text) p.1 p.2,
              escapeChars dialect column.toList = p.2)) := by
  have hdetached := detached_text hkind
  refine ⟨fun hclear => keeps_of_clear hclear hdetached, fun hkeys => ?_⟩
  rw [keeps_iff_runText hkeys hdetached]
  exact forall₂_congr fun _ _ => runText_eq_iff

/-- A bracketed identifier of two words is changed where the second one is a name. -/
theorem not_keeps_home_city :
    ¬Keeps .sqlServer (Keyed.ofList [("city", "City"), ("name", "Name")]) "name = 'Ann' AND ".toList
      (QuotedName.text ⟨'[', "home city".toList, ']'⟩) " = 'Oslo'".toList := by
  intro hkeeps
  have hwords := ((keeps_quotedName (by decide) _ _ _ _).2 (by decide)).1 hkeeps
  have hcity := hwords (23, "city".toList) (by decide) "City" (by decide)
  exact absurd hcity (by decide)

end AskSql.Sql
