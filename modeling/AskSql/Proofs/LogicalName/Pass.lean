import Mathlib.Data.List.Basic
import Mathlib.Data.Nat.Init
import AskSql.Sql.LogicalName

/-! The pass that replaces names by columns, step by step.  Where no name is found the character
stays; where one is found the pass goes on behind it, and leaves the name as it is or writes its
column. -/

namespace AskSql.Sql

open Text

variable {dialect : Dialect} {columns : List (String × String)} {before cs rest : List Char}
  {first : Option Char} {afterName : Bool} {entry : String × String} {c : Char}

/-- Whether the name at a position is replaced. -/
def isReplaced (before cs : List Char) : Bool :=
  !(isInsideLiteral before cs || before.head? == some '.')

/-- What a name is replaced by, where it is. -/
theorem replacement_eq (dialect : Dialect) (before cs : List Char) (name column : String) :
    replacement dialect before cs name column =
      if isReplaced before cs = true then escapeChars dialect column.toList else name.toList := by
  rw [replacement, isReplaced]
  cases isInsideLiteral before cs || before.head? == some '.' <;> rfl

/-- A name that is found at a position stands there. -/
theorem nameAt?_eq_some (h : nameAt? columns first afterName cs = some entry) :
    entry ∈ columns ∧ ∃ rest, cs = entry.1.toList ++ rest := by
  refine ⟨List.mem_of_find?_eq_some h, ?_⟩
  have hfound := List.find?_some h
  simp only at hfound
  split at hfound
  · rename_i rest hrest
    exact ⟨rest, (List.isPrefixOf?_eq_some_iff_append_eq.1 hrest).symm⟩
  · contradiction

/-- The rest of a name has been written with its front. -/
theorem replaceNamesFrom_skip (word rest : List Char) (before : List Char) (afterName : Bool) :
    replaceNamesFrom dialect columns before afterName word.length (word ++ rest) =
      replaceNamesFrom dialect columns (word.reverse ++ before)
        (afterName || !word.isEmpty) 0 rest := by
  induction word generalizing before afterName with
  | nil => simp
  | cons c word ih =>
    rw [List.cons_append, List.length_cons, replaceNamesFrom, ih]
    simp

/-- Where no name is found, the character stays. -/
theorem replaceNamesFrom_keep (h : nameAt? columns before.head? afterName (c :: cs) = none) :
    replaceNamesFrom dialect columns before afterName 0 (c :: cs) =
      c :: replaceNamesFrom dialect columns (c :: before) false 0 cs := by
  rw [replaceNamesFrom, h]

/-- What stands for the empty name comes before the character at its place. -/
theorem replaceNamesFrom_empty (hempty : entry.1.toList = [])
    (h : nameAt? columns before.head? afterName (c :: cs) = some entry) :
    replaceNamesFrom dialect columns before afterName 0 (c :: cs) =
      replacement dialect before (c :: cs) entry.1 entry.2 ++
        c :: replaceNamesFrom dialect columns (c :: before) false 0 cs := by
  have hname : entry.1.isEmpty = true := by
    rw [String.isEmpty_iff, ← String.toList_eq_nil_iff, hempty]
  rw [replaceNamesFrom, h]
  simp only [hname, if_true]

/-- Behind a name that is found the pass goes on. -/
theorem replaceNamesFrom_name (hne : entry.1.toList ≠ [])
    (h : nameAt? columns before.head? afterName (entry.1.toList ++ rest) = some entry) :
    replaceNamesFrom dialect columns before afterName 0 (entry.1.toList ++ rest) =
      replacement dialect before (entry.1.toList ++ rest) entry.1 entry.2 ++
        replaceNamesFrom dialect columns (entry.1.toList.reverse ++ before) true 0 rest := by
  obtain ⟨c, word, hname⟩ := List.exists_cons_of_ne_nil hne
  have hempty : entry.1.isEmpty = false := by
    rw [String.isEmpty_eq_false_iff, ne_eq, ← String.toList_eq_nil_iff]
    exact hne
  have hlength : entry.1.length - 1 = word.length := by
    rw [← String.length_toList, hname]
    rfl
  rw [hname, List.cons_append] at h ⊢
  rw [replaceNamesFrom, h]
  simp only [hempty, Bool.false_eq_true, if_false]
  rw [hlength, replaceNamesFrom_skip, Bool.true_or, List.reverse_cons, List.append_assoc,
    List.singleton_append]

/-- Where no name is found at any place, everything stays. -/
theorem replaceNamesFrom_self {text : List Char}
    (h : ∀ done c more, text = done ++ c :: more → ∀ afterName,
      nameAt? columns (done.reverse ++ before).head? afterName (c :: more ++ rest) = none) :
    replaceNamesFrom dialect columns before afterName 0 (text ++ rest) =
      text ++ replaceNamesFrom dialect columns (text.reverse ++ before)
        (afterName && text.isEmpty) 0 rest := by
  induction text generalizing before afterName with
  | nil => simp
  | cons c text ih =>
    have hnone := h [] c text rfl afterName
    rw [List.reverse_nil, List.nil_append, List.cons_append] at hnone
    have hlater := @ih (c :: before) false fun done d more htext => by
      have hnone := h (c :: done) d more (by rw [htext]; rfl)
      rwa [List.reverse_cons, List.append_assoc, List.singleton_append] at hnone
    rw [List.cons_append, replaceNamesFrom_keep hnone, hlater, List.reverse_cons, List.append_assoc,
      List.singleton_append]
    simp

/-! ### Two parts of a text -/

/-- Where `rest` follows, the same names are found in `front` as without it, and none at its end. -/
def Cuts (columns : List (String × String)) (before front rest : List Char) : Prop :=
  ∀ done more, front = done ++ more → ∀ afterName,
    nameAt? columns (done.reverse ++ before).head? afterName more =
      if more = [] then none
      else nameAt? columns (done.reverse ++ before).head? afterName (more ++ rest)

theorem Cuts.drop {done front : List Char} (h : Cuts columns before (done ++ front) rest) :
    Cuts columns (done.reverse ++ before) front rest := by
  intro done' more hfront afterName
  have hmore := h (done ++ done') more (by rw [hfront, List.append_assoc]) afterName
  rwa [List.reverse_append, List.append_assoc] at hmore

/-- Whether a name is replaced shows in the text up to a place where no two quotes meet. -/
theorem isReplaced_append {front : List Char} (hne : front ≠ [])
    (hquotes : front.getLast? = some '\'' → rest.head? ≠ some '\'') :
    isReplaced before (front ++ rest) = isReplaced before front := by
  obtain ⟨c, cs, rfl⟩ := List.exists_cons_of_ne_nil hne
  rw [isReplaced, isReplaced, List.cons_append, isInsideLiteral, isInsideLiteral]
  cases cs with
  | cons d cs => rfl
  | nil =>
    by_cases hc : c = '\''
    · subst hc
      have hrest := hquotes rfl
      rw [List.nil_append, if_pos rfl, if_pos rfl, beq_eq_false_iff_ne.2 hrest]
      rfl
    · rw [if_neg hc, if_neg hc]

theorem getLast?_of_append {front back : List Char} (h : back.getLast? = some c) :
    (front ++ back).getLast? = some c := by
  rw [List.getLast?_append, h, Option.some_or]

/-- The pass over a text that is cut between names goes over one part and then over the other. -/
theorem replaceNamesFrom_append {front : List Char} (h : Cuts columns before front rest)
    (hquotes : front.getLast? = some '\'' → rest.head? ≠ some '\'') :
    ∃ ended, replaceNamesFrom dialect columns before afterName 0 (front ++ rest) =
      replaceNamesFrom dialect columns before afterName 0 front ++
        replaceNamesFrom dialect columns (front.reverse ++ before) ended 0 rest := by
  induction hlength : front.length using Nat.strong_induction_on
    generalizing front before afterName with
  | _ length ih =>
    subst hlength
    have hsame := h [] front rfl afterName
    rw [List.reverse_nil, List.nil_append] at hsame
    cases front with
    | nil =>
      rw [if_pos rfl] at hsame
      exact ⟨afterName, by simp only [replaceNamesFrom, hsame, List.nil_append, List.reverse_nil]⟩
    | cons c cs =>
      rw [if_neg (List.cons_ne_nil c cs)] at hsame
      have hreplaced := @isReplaced_append before rest _ (List.cons_ne_nil c cs) hquotes
      have hcut : Cuts columns (c :: before) cs rest := @Cuts.drop columns before rest [c] cs h
      have hlast : cs.getLast? = some '\'' → rest.head? ≠ some '\'' :=
        fun hq => hquotes (@getLast?_of_append _ [c] cs hq)
      have hbehind : cs.reverse ++ c :: before = (c :: cs).reverse ++ before := by simp
      obtain ⟨ended, hstep⟩ := @ih cs.length (by simp) (c :: before) false cs hcut hlast rfl
      rw [hbehind] at hstep
      cases hfound : nameAt? columns before.head? afterName (c :: cs) with
      | none =>
        refine ⟨ended, ?_⟩
        rw [hfound, List.cons_append] at hsame
        rw [List.cons_append, replaceNamesFrom_keep hsame.symm, hstep, replaceNamesFrom_keep hfound,
          List.cons_append]
      | some entry =>
        rw [hfound] at hsame
        obtain ⟨-, behind, hfront⟩ := nameAt?_eq_some hfound
        by_cases hne : entry.1.toList = []
        · refine ⟨ended, ?_⟩
          rw [List.cons_append] at hsame hreplaced ⊢
          rw [replaceNamesFrom_empty hne hsame.symm, hstep, replaceNamesFrom_empty hne hfound,
            replacement_eq, replacement_eq, hreplaced, List.append_assoc, List.cons_append]
        · rw [hfront] at hsame hfound hreplaced h hquotes ⊢
          have hshorter : behind.length < (c :: cs).length := by
            rw [hfront, List.length_append]
            have := List.length_pos_iff.2 hne
            omega
          obtain ⟨ended, hstep⟩ := ih behind.length hshorter h.drop
            (fun hq => hquotes (getLast?_of_append hq)) rfl
          refine ⟨ended, ?_⟩
          rw [List.append_assoc] at hsame hreplaced ⊢
          rw [replaceNamesFrom_name hne hsame.symm, hstep, replaceNamesFrom_name hne hfound,
            replacement_eq, replacement_eq, hreplaced]
          simp

end AskSql.Sql
