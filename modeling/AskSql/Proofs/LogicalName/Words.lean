import Mathlib.Data.List.Find
import Mathlib.Data.List.SplitBy
import AskSql.Proofs.Keyed
import AskSql.Proofs.LogicalName.Pass
import AskSql.Proofs.Sql.LiteralSpans
import AskSql.Proofs.Text.Taken

/-! Names that are words.  The pass over a text looks for names at every position, the longest
first, and goes on behind each one that it finds.  If every name is a word, this is the same as to
cut the text into its maximal words and what stands between them, and to replace each word by
itself: no name can begin or end inside a word, none is taken for the front of a longer one, and no
column is looked at again. -/

namespace AskSql.Sql

open Text

variable {dialect : Dialect} {names : List (String × String)} {columns : Keyed String}
  {before word rest text : List Char} {first : Option Char} {afterName : Bool} {c : Char}

/-! ### Words at once -/

/-- The maximal words of a text and the texts between them, in order. -/
def runs (text : List Char) : List (List Char) :=
  text.splitBy fun a b => isWordChar a == isWordChar b

/-- Texts that stand one behind another, each with its position, if the first one is at `pos`. -/
def withPositions (pos : Nat) : List (List Char) → List (Nat × List Char)
  | [] => []
  | text :: texts => (pos, text) :: withPositions (pos + text.length) texts

/-- The column that a run at a position of a text is replaced by: that of the name it is, unless it
stands inside a string literal or right behind a dot. -/
def runColumn? (columns : Keyed String) (text : List Char) (pos : Nat) (run : List Char) :
    Option String :=
  if inLiteral text pos || (text.take pos).getLast? == some '.' then none
  else columns.get? (String.ofList run)

/-- What becomes of a run at a position of a text. -/
def runText (dialect : Dialect) (columns : Keyed String) (text : List Char) (pos : Nat)
    (run : List Char) : List Char :=
  match runColumn? columns text pos run with
  | some column => escapeChars dialect column.toList
  | none => run

/-- A text in which each maximal word that is a name has become its column, and nothing else has
changed. -/
def substituteWords (dialect : Dialect) (columns : Keyed String) (text : List Char) : List Char :=
  (withPositions 0 (runs text)).flatMap fun p => runText dialect columns text p.1 p.2

theorem runColumn?_append (columns : Keyed String) (before rest run : List Char) :
    runColumn? columns (before.reverse ++ rest) before.length run =
      if isReplaced before rest = true then columns.get? (String.ofList run) else none := by
  have hliteral := inLiteral_append before.reverse rest
  have hlast : ((before.reverse ++ rest).take before.length).getLast? = before.head? := by
    rw [← List.length_reverse, List.take_left, List.getLast?_reverse]
  rw [List.length_reverse, List.reverse_reverse] at hliteral
  rw [runColumn?, isReplaced, hliteral, hlast]
  cases isInsideLiteral before rest || before.head? == some '.' <;> rfl

/-! ### Runs -/

/-- Texts each of one kind of characters, where no word goes on from one to the next.  `first` is
what comes before them. -/
def Separate (first : Option Char) : List (List Char) → Prop
  | [] => True
  | run :: runs => run ≠ [] ∧ (∀ c ∈ run, ∀ d ∈ run, isWordChar c = isWordChar d) ∧
      (∀ b ∈ first, ∀ c ∈ run.head?, isWordChar b = false ∨ isWordChar c = false) ∧
      Separate run.getLast? runs

theorem same_of_isChain {run : List Char}
    (h : run.IsChain fun a b => (isWordChar a == isWordChar b) = true) :
    ∀ c ∈ run, ∀ d ∈ run, isWordChar c = isWordChar d := by
  have hhead : ∀ c ∈ run, ∀ b ∈ run.head?, isWordChar c = isWordChar b := by
    induction run with
    | nil => simp
    | cons a run ih =>
      obtain ⟨hnext, hrun⟩ := List.isChain_cons.1 h
      intro c hc b hb
      obtain rfl : a = b := Option.some.inj hb
      rcases List.mem_cons.1 hc with rfl | hc
      · rfl
      · obtain ⟨d, rest, rfl⟩ := List.exists_cons_of_ne_nil (List.ne_nil_of_mem hc)
        rw [ih hrun c hc d rfl]
        exact (eq_of_beq (hnext d rfl)).symm
  intro c hc d hd
  obtain ⟨b, rest, rfl⟩ := List.exists_cons_of_ne_nil (List.ne_nil_of_mem hc)
  rw [hhead c hc b rfl, hhead d hd b rfl]

theorem separate_of_isChain {texts : List (List Char)}
    (hne : ∀ run ∈ texts, run ≠ [])
    (hsame : ∀ run ∈ texts, run.IsChain fun a b => (isWordChar a == isWordChar b) = true)
    (hnext : texts.IsChain fun run next => ∃ hrun hnext,
      (isWordChar (run.getLast hrun) == isWordChar (next.head hnext)) = false)
    (hfirst : ∀ b ∈ first, ∀ run ∈ texts.head?, ∀ c ∈ run.head?,
      isWordChar b = false ∨ isWordChar c = false) :
    Separate first texts := by
  induction texts generalizing first with
  | nil => trivial
  | cons run texts ih =>
    obtain ⟨hne, hmore⟩ := List.forall_mem_cons.1 hne
    obtain ⟨hsame, hsames⟩ := List.forall_mem_cons.1 hsame
    obtain ⟨hnext, hnexts⟩ := List.isChain_cons.1 hnext
    refine ⟨hne, same_of_isChain hsame, fun b hb => hfirst b hb run rfl,
      ih hmore hsames hnexts fun b hb next hmem c hc => ?_⟩
    obtain ⟨hrun, hnextNe, hdiffer⟩ := hnext next hmem
    obtain rfl : run.getLast hrun = b := by
      rw [List.getLast?_eq_some_getLast hrun] at hb
      exact Option.some.inj hb
    obtain rfl : next.head hnextNe = c := by
      rw [List.head?_eq_some_head hnextNe] at hc
      exact Option.some.inj hc
    cases hb : isWordChar (run.getLast hrun) with
    | false => exact Or.inl rfl
    | true => simpa [hb] using hdiffer

theorem separate_runs (text : List Char) : Separate none (runs text) :=
  separate_of_isChain (fun _ h => List.ne_nil_of_mem_splitBy h)
    (fun _ h => List.isChain_of_mem_splitBy h)
    (List.isChain_getLast_head_splitBy (fun a b => isWordChar a == isWordChar b) text) (by simp)

@[simp] theorem flatten_runs (text : List Char) : (runs text).flatten = text :=
  List.flatten_splitBy _ text

theorem Separate.head?_flatten {texts : List (List Char)} (h : Separate first texts) :
    ∀ b ∈ first, ∀ c ∈ texts.flatten.head?, isWordChar b = false ∨ isWordChar c = false := by
  intro b hb c hc
  cases texts with
  | nil => contradiction
  | cons run texts =>
    obtain ⟨hne, -, hfirst, -⟩ := h
    obtain ⟨d, cs, rfl⟩ := List.exists_cons_of_ne_nil hne
    exact hfirst b hb c hc

theorem Separate.kind {run : List Char} {texts : List (List Char)}
    (h : Separate first (run :: texts)) :
    (∀ c ∈ run, isWordChar c = true) ∨ ∀ c ∈ run, isWordChar c = false := by
  obtain ⟨hne, hsame, -⟩ := h
  obtain ⟨c, cs, rfl⟩ := List.exists_cons_of_ne_nil hne
  cases hc : isWordChar c with
  | true => exact Or.inl fun d hd => (hsame d hd c List.mem_cons_self).trans hc
  | false => exact Or.inr fun d hd => (hsame d hd c List.mem_cons_self).trans hc

/-- Behind the first text the others are separate. -/
theorem Separate.tail {run before : List Char} {texts : List (List Char)}
    (h : Separate first (run :: texts)) : Separate (run.reverse ++ before).head? texts := by
  obtain ⟨hne, -, -, hlater⟩ := h
  rw [List.getLast?_eq_some_getLast hne] at hlater
  rwa [List.head?_append, List.head?_reverse, List.getLast?_eq_some_getLast hne]

/-! ### Where a name is found -/

/-- A name that is a word: not empty, and of word characters only. -/
def IsWordName (name : String) : Prop :=
  name.toList ≠ [] ∧ ∀ c ∈ name.toList, isWordChar c = true

instance (name : String) : Decidable (IsWordName name) :=
  inferInstanceAs (Decidable (_ ∧ _))

theorem IsWordName.isEmpty_eq_false {name : String} (h : IsWordName name) :
    name.isEmpty = false := by
  rw [String.isEmpty_eq_false_iff, ne_eq, ← String.toList_eq_nil_iff]
  exact h.1

theorem IsWordName.any_head? {name : String} (h : IsWordName name) (rest : List Char) :
    (name.toList ++ rest).head?.any isWordChar = true := by
  obtain ⟨hne, hword⟩ := h
  obtain ⟨c, cs, hname⟩ := List.exists_cons_of_ne_nil hne
  rw [hname] at hword ⊢
  exact hword c List.mem_cons_self

theorem IsWordName.any_getLast? {name : String} (h : IsWordName name) :
    (name.toList.getLast?.or first).any isWordChar = true := by
  obtain ⟨hne, hword⟩ := h
  rw [List.getLast?_eq_some_getLast hne]
  exact hword _ (List.getLast_mem hne)

theorem forall_of_any (h : text.head?.any isWordChar = false) :
    ∀ c ∈ text.head?, isWordChar c = false := by
  intro c hc
  rwa [hc] at h

variable (hwords : ∀ entry ∈ names, IsWordName entry.1)
include hwords

/-- No name begins where no word does. -/
theorem nameAt?_eq_none (h : first.any isWordChar = true ∨ text.head?.any isWordChar = false) :
    nameAt? names first afterName text = none := by
  rw [nameAt?, List.find?_eq_none]
  rintro ⟨name, column⟩ hmem
  have hname := hwords _ hmem
  simp only
  split
  · rename_i rest hprefix
    obtain rfl := List.isPrefixOf?_eq_some_iff_append_eq.1 hprefix
    have hhead := hname.any_head? rest
    rcases h with h | h
    · rw [isBoundary, h, hhead, bne_self_eq_false, Bool.false_and, Bool.false_and]
      exact Bool.false_ne_true
    · rw [h] at hhead
      contradiction
  · exact Bool.false_ne_true

/-- At a maximal word, the name that is found is that word. -/
theorem nameAt?_word (hword : ∀ c ∈ word, isWordChar c = true)
    (hbefore : first.any isWordChar = false) (hrest : rest.head?.any isWordChar = false) :
    nameAt? names first afterName (word ++ rest) = names.find? fun entry =>
      entry.1.toList == word := by
  rw [nameAt?]
  refine List.find?_congr ?_
  rintro ⟨name, column⟩ hmem
  have hname := hwords _ hmem
  simp only
  split
  · rename_i behind hprefix
    have happend := List.isPrefixOf?_eq_some_iff_append_eq.1 hprefix
    have hhead := hname.any_head? behind
    rw [happend] at hhead
    rw [isBoundary, isBoundary, hbefore, hhead, hname.any_getLast?, hname.isEmpty_eq_false,
      Bool.and_false, Bool.not_false, Bool.and_true, Bool.false_bne, Bool.true_bne, Bool.true_and,
      Bool.eq_iff_iff, Bool.not_eq_true', beq_iff_eq]
    -- two maximal words at the front of one text are the same
    constructor
    · intro hbehind
      rw [← takeWhile_append hname.2 (forall_of_any hbehind), happend,
        takeWhile_append hword (forall_of_any hrest)]
    · intro heq
      rw [heq] at happend
      rwa [List.append_cancel_left happend]
  · rename_i hprefix
    rw [eq_comm, beq_eq_false_iff_ne]
    intro heq
    have hsome := List.isPrefixOf?_eq_some_iff_append_eq.2 (rfl : word ++ rest = word ++ rest)
    rw [heq, hsome] at hprefix
    contradiction

/-- What is found does not depend on whether a name has just ended. -/
theorem nameAt?_afterName : nameAt? names first afterName text =
    nameAt? names first false text := by
  rw [nameAt?, nameAt?]
  refine List.find?_congr fun entry hmem => ?_
  simp only [(hwords entry hmem).isEmpty_eq_false, Bool.and_false]

theorem replaceNamesFrom_afterName :
    replaceNamesFrom dialect names before afterName 0 text =
      replaceNamesFrom dialect names before false 0 text := by
  have hname := @nameAt?_afterName names text before.head? afterName hwords
  cases text <;> simp only [replaceNamesFrom, hname]

/-- A text can be cut wherever no word runs on. -/
theorem cuts_of_breaks {front : List Char} (h : Breaks front rest) :
    Cuts names before front rest := by
  rintro done more rfl afterName
  split
  · rename_i hmore
    rw [hmore]
    exact nameAt?_eq_none hwords (Or.inr rfl)
  · rename_i hmore
    obtain ⟨c, cs, rfl⟩ := List.exists_cons_of_ne_nil hmore
    by_cases hnone : (done.reverse ++ before).head?.any isWordChar = true ∨ isWordChar c = false
    · rw [nameAt?_eq_none hwords hnone, nameAt?_eq_none hwords hnone]
    · obtain ⟨hfirst, hc⟩ := not_or.1 hnone
      rw [Bool.not_eq_true] at hfirst
      -- a word begins here; the text breaks behind it, in `front` or where `rest` begins
      obtain ⟨word, behind, hcut, hword, hstop⟩ : ∃ word behind, c :: cs = word ++ behind ∧
          (∀ d ∈ word, isWordChar d = true) ∧ behind.head?.any isWordChar = false := by
        refine ⟨(c :: cs).takeWhile isWordChar, (c :: cs).dropWhile isWordChar,
          List.takeWhile_append_dropWhile.symm, fun d hd => List.mem_takeWhile_imp hd, ?_⟩
        cases hd : ((c :: cs).dropWhile isWordChar).head? with
        | none => rfl
        | some d => exact head_dropWhile d hd
      have hstopRest : (behind ++ rest).head?.any isWordChar = false := by
        cases behind with
        | cons d behind => exact hstop
        | nil =>
          have hlast : ∀ b ∈ (c :: cs).getLast?, isWordChar b = true := by
            rw [hcut, List.append_nil]
            exact fun b hb => hword b (List.mem_of_getLast? hb)
          cases hd : rest.head? with
          | none => simp [hd]
          | some d =>
            obtain ⟨b, hb⟩ : ∃ b, (c :: cs).getLast? = some b := ⟨_, List.getLast?_cons⟩
            have hbreak := h b (by rw [List.getLast?_append, hb]; rfl) d hd
            simpa [hd, hlast b hb] using hbreak
      rw [hcut, List.append_assoc, nameAt?_word hwords hword hfirst hstop,
        nameAt?_word hwords hword hfirst hstopRest]

/-! ### Marks and words -/

theorem replaceNamesFrom_nil_of_words : replaceNamesFrom dialect names before false 0 [] = [] := by
  have hnone := @nameAt?_eq_none names [] before.head? false hwords (Or.inr rfl)
  simp only [replaceNamesFrom, hnone]

/-- Where no word begins, everything stays. -/
theorem replaceNamesFrom_run_of_forall {run : List Char}
    (h : ∀ done c more, run = done ++ c :: more →
      (done.reverse ++ before).head?.any isWordChar = true ∨ isWordChar c = false) :
    replaceNamesFrom dialect names before false 0 (run ++ rest) =
      run ++ replaceNamesFrom dialect names (run.reverse ++ before) false 0 rest :=
  replaceNamesFrom_self fun done c more hrun _ => nameAt?_eq_none hwords (h done c more hrun)

/-- Between words everything stays. -/
theorem replaceNamesFrom_marks {run : List Char} (h : ∀ c ∈ run, isWordChar c = false) :
    replaceNamesFrom dialect names before false 0 (run ++ rest) =
      run ++ replaceNamesFrom dialect names (run.reverse ++ before) false 0 rest :=
  replaceNamesFrom_run_of_forall hwords fun done c more hrun => Or.inr (h c (by simp [hrun]))

/-- Where a word goes on, it stays. -/
theorem replaceNamesFrom_goOn {run : List Char} (hbefore : before.head?.any isWordChar = true)
    (h : ∀ c ∈ run, isWordChar c = true) :
    replaceNamesFrom dialect names before false 0 (run ++ rest) =
      run ++ replaceNamesFrom dialect names (run.reverse ++ before) false 0 rest := by
  refine replaceNamesFrom_run_of_forall hwords fun done c more hrun => Or.inl ?_
  cases done using List.reverseRecOn with
  | nil => exact hbefore
  | append_singleton done d => simpa using h d (by simp [hrun])

/-- Between words the pass can be cut in two. -/
theorem replaceNamesFrom_append_of_breaks {front : List Char} (h : Breaks front rest)
    (hquotes : front.getLast? = some '\'' → rest.head? ≠ some '\'') :
    replaceNamesFrom dialect names before false 0 (front ++ rest) =
      replaceNamesFrom dialect names before false 0 front ++
        replaceNamesFrom dialect names (front.reverse ++ before) false 0 rest := by
  obtain ⟨ended, hpass⟩ := @replaceNamesFrom_append dialect names before rest false front
    (cuts_of_breaks hwords h) hquotes
  rw [hpass, @replaceNamesFrom_afterName dialect names _ rest ended hwords]

omit hwords

theorem find?_byLength (columns : Keyed String) (word : List Char) :
    (byLength columns.entries).find? (fun entry => entry.1.toList == word) =
      (columns.get? (String.ofList word)).map fun column => (String.ofList word, column) := by
  cases hget : columns.get? (String.ofList word) with
  | none =>
    rw [Option.map_none, List.find?_eq_none]
    intro entry hmem heq
    rw [beq_iff_eq] at heq
    have hvalue := columns.mem_entries_iff.1 (List.mem_mergeSort.1 hmem)
    rw [← heq, String.ofList_toList, hvalue] at hget
    contradiction
  | some column =>
    have hmem : (String.ofList word, column) ∈ byLength columns.entries :=
      List.mem_mergeSort.2 (columns.mem_entries_iff.2 hget)
    obtain ⟨entry, hentry⟩ : ∃ entry,
        (byLength columns.entries).find? (fun entry => entry.1.toList == word) = some entry :=
      Option.isSome_iff_exists.1 (List.find?_isSome.2 ⟨_, hmem, by simp⟩)
    obtain ⟨name, other⟩ := entry
    have hname := List.find?_some hentry
    obtain rfl : name = String.ofList word := by
      rw [beq_iff_eq] at hname
      rw [← hname, String.ofList_toList]
    have hvalue :=
      columns.mem_entries_iff.1 (List.mem_mergeSort.1 (List.mem_of_find?_eq_some hentry))
    obtain rfl : other = column := Option.some.inj (hvalue.symm.trans hget)
    exact hentry

variable (hkeys : ∀ name ∈ columns.keys, IsWordName name)
include hkeys

theorem forall_byLength : ∀ entry ∈ byLength columns.entries, IsWordName entry.1 :=
  fun _ hmem => hkeys _ (List.mem_map_of_mem (List.mem_mergeSort.1 hmem))

/-- A maximal word becomes its column or stays. -/
theorem replaceNamesFrom_word (hne : word ≠ []) (hword : ∀ c ∈ word, isWordChar c = true)
    (hbefore : before.head?.any isWordChar = false) (hrest : rest.head?.any isWordChar = false) :
    replaceNamesFrom dialect (byLength columns.entries) before false 0 (word ++ rest) =
      runText dialect columns (before.reverse ++ (word ++ rest)) before.length word ++
        replaceNamesFrom dialect (byLength columns.entries)
        (word.reverse ++ before) false 0 rest := by
  have hwords := forall_byLength hkeys
  have hfound := @nameAt?_word _ word rest before.head? false hwords hword hbefore hrest
  rw [find?_byLength] at hfound
  rw [runText, runColumn?_append]
  cases hget : columns.get? (String.ofList word) with
  | none =>
    obtain ⟨c, cs, rfl⟩ := List.exists_cons_of_ne_nil hne
    obtain ⟨hc, hcs⟩ := List.forall_mem_cons.1 hword
    have hlater := @replaceNamesFrom_goOn dialect _ (c :: before) rest hwords _ hc hcs
    rw [hget, Option.map_none, List.cons_append] at hfound
    rw [ite_self, List.cons_append, replaceNamesFrom_keep hfound, hlater, List.reverse_cons,
      List.append_assoc, List.singleton_append, List.cons_append]
  | some column =>
    have hname : (String.ofList word).toList = word := String.toList_ofList
    have hstep := @replaceNamesFrom_name dialect (byLength columns.entries) before rest false
      (String.ofList word, column)
    simp only [hname] at hstep
    rw [hget, Option.map_some] at hfound
    rw [hstep hne hfound, replacement_eq, hname, replaceNamesFrom_afterName hwords]
    cases isReplaced before (word ++ rest) <;> rfl

/-- Text between words stays. -/
theorem runText_marks {run : List Char} (h : ∀ c ∈ run, isWordChar c = false) (text : List Char)
    (pos : Nat) : runText dialect columns text pos run = run := by
  have hnone : columns.get? (String.ofList run) = none := by
    rw [Option.eq_none_iff_forall_not_mem]
    intro column hcolumn
    obtain ⟨hne, hword⟩ := hkeys (String.ofList run)
      (List.mem_map_of_mem (columns.mem_entries_iff.2 hcolumn))
    rw [String.toList_ofList] at hne hword
    obtain ⟨c, cs, rfl⟩ := List.exists_cons_of_ne_nil hne
    have hc := hword c List.mem_cons_self
    rw [h c List.mem_cons_self] at hc
    contradiction
  rw [runText, runColumn?, hnone, ite_self]

/-- One run becomes what it does by itself. -/
theorem replaceNamesFrom_run {run : List Char} {texts : List (List Char)}
    (hseparate : Separate before.head? (run :: texts)) :
    replaceNamesFrom dialect (byLength columns.entries) before false 0 (run ++ texts.flatten) =
      runText dialect columns (before.reverse ++ (run ++ texts.flatten)) before.length run ++
        replaceNamesFrom dialect (byLength columns.entries) (run.reverse ++ before) false 0
          texts.flatten := by
  have hnext := @Separate.tail _ _ [] _ hseparate
  rcases hseparate.kind with hword | hmarks
  · obtain ⟨hne, -, hfirst, -⟩ := hseparate
    obtain ⟨c, cs, rfl⟩ := List.exists_cons_of_ne_nil hne
    refine replaceNamesFrom_word hkeys hne hword ?_ ?_
    · cases hb : before.head? with
      | none => rfl
      | some b => simpa [hword c List.mem_cons_self] using hfirst b hb c rfl
    · cases hd : texts.flatten.head? with
      | none => rfl
      | some d =>
        obtain ⟨b, hb⟩ : ∃ b, ((c :: cs).reverse ++ []).head? = some b := by simp
        have hbword := hword b (by simpa [or_comm] using List.mem_of_head? hb)
        simpa [hbword] using hnext.head?_flatten b hb d hd
  · rw [runText_marks hkeys hmarks, replaceNamesFrom_marks (forall_byLength hkeys) hmarks]

/-- In one pass over a text, each of its runs becomes what it does by itself. -/
theorem replaceNamesFrom_flatten {texts : List (List Char)}
    (hseparate : Separate before.head? texts) :
    replaceNamesFrom dialect (byLength columns.entries) before false 0 texts.flatten =
      (withPositions before.length texts).flatMap fun p =>
        runText dialect columns (before.reverse ++ texts.flatten) p.1 p.2 := by
  induction texts generalizing before with
  | nil => exact replaceNamesFrom_nil_of_words (forall_byLength hkeys)
  | cons run texts ih =>
    have hlater := ih (@Separate.tail _ _ before _ hseparate)
    rw [List.length_append, List.length_reverse, Nat.add_comm run.length, List.reverse_append,
      List.reverse_reverse, List.append_assoc] at hlater
    rw [List.flatten_cons, replaceNamesFrom_run hkeys hseparate, hlater]
    rfl

/-- If every name is a word, replacing names is replacing words. -/
theorem replaceNames_eq_substituteWords (dialect : Dialect) (text : List Char) :
    replaceNames dialect columns text = substituteWords dialect columns text := by
  have hpass := @replaceNamesFrom_flatten dialect columns [] hkeys _ (separate_runs text)
  rwa [flatten_runs] at hpass

omit hkeys

/-- Names that are each other's columns change places, and a longer name is not taken for a shorter
one. -/
theorem replaceNames_swapped :
    (∀ name ∈ (Keyed.ofList [("a", "b"), ("ab", "order"), ("b", "a")]).keys, IsWordName name) ∧
    replaceNames .sqlServer (Keyed.ofList [("a", "b"), ("ab", "order"), ("b", "a")])
        "a = b.a + 'b' + ab".toList = "b = a.a + 'b' + [order]".toList :=
  ⟨by decide, (replaceNames_eq_substituteWords (by decide) .sqlServer _).trans (by decide)⟩

end AskSql.Sql
