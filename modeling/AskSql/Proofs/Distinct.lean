import Mathlib.Data.List.Induction
import Mathlib.Data.List.Nodup

/-! Lists in which repeated items are left out.  What is kept are the items of a list, each once, in
the order in which they first come; a list to which items are added one by one, unless it has them
already, is put together in this way. -/

namespace AskSql

variable {α : Type} [DecidableEq α] {xs ys : List α}

/-- `ys` has the items of `xs`, each once and in the order in which they first come in `xs`. -/
structure Once (xs ys : List α) : Prop where
  nodup : ys.Nodup
  mem : ∀ x, x ∈ ys ↔ x ∈ xs
  order : ys.Pairwise fun a b => xs.idxOf a < xs.idxOf b

theorem Once.eq_nil_iff (h : Once xs ys) : ys = [] ↔ xs = [] := by
  simp only [List.eq_nil_iff_forall_not_mem, h.mem]

/-- One more item at the end of a list comes to the end of what is kept, unless it was there. -/
theorem eraseDups_concat (xs : List α) (x : α) :
    (xs ++ [x]).eraseDups = if x ∈ xs then xs.eraseDups else xs.eraseDups ++ [x] := by
  rw [List.eraseDups_append]
  by_cases h : x ∈ xs
  · simp [List.removeAll, h]
  · simp [List.removeAll, h, List.eraseDups_cons]

/-- The items of the front of a list come first where they come in the front. -/
theorem idxOf_concat_lt {a b : α} (x : α) (ha : a ∈ xs) (hb : b ∈ xs)
    (h : xs.idxOf a < xs.idxOf b) : (xs ++ [x]).idxOf a < (xs ++ [x]).idxOf b := by
  rwa [List.idxOf_append_of_mem ha, List.idxOf_append_of_mem hb]

theorem once_eraseDups (xs : List α) : Once xs xs.eraseDups := by
  induction xs using List.reverseRecOn with
  | nil => exact ⟨List.nodup_nil, fun _ => Iff.rfl, List.Pairwise.nil⟩
  | append_singleton xs x ih =>
    have hfront : xs.eraseDups.Pairwise fun a b => (xs ++ [x]).idxOf a < (xs ++ [x]).idxOf b :=
      ih.order.imp_of_mem fun ha hb => idxOf_concat_lt x ((ih.mem _).1 ha) ((ih.mem _).1 hb)
    refine ⟨?_, fun _ => List.mem_eraseDups, ?_⟩
    · rw [eraseDups_concat]
      split
      · exact ih.nodup
      · rename_i hnew
        rw [← List.concat_eq_append]
        exact ih.nodup.concat fun hmem => hnew ((ih.mem x).1 hmem)
    · rw [eraseDups_concat]
      split
      · exact hfront
      · rename_i hnew
        refine List.pairwise_append.2 ⟨hfront, List.pairwise_singleton .., fun a ha b hb => ?_⟩
        have ha := (ih.mem a).1 ha
        rw [List.mem_singleton.1 hb, List.idxOf_append_of_mem ha, List.idxOf_append_of_notMem hnew]
        exact Nat.lt_of_lt_of_le (List.idxOf_lt_length_of_mem ha) (Nat.le_add_right ..)

/-- There is one such list. -/
theorem Once.unique {zs : List α} (hys : Once xs ys) (hzs : Once xs zs) : ys = zs := by
  have hperm : ys.Perm zs :=
    (List.perm_ext_iff_of_nodup hys.nodup hzs.nodup).2 fun x => (hys.mem x).trans (hzs.mem x).symm
  refine hperm.eq_of_pairwise (fun a b _ _ hab hba => ?_) hys.order hzs.order
  exact absurd hba (Nat.lt_asymm hab)

/-- Nothing is left out of a list without repetitions. -/
theorem eraseDups_of_nodup (h : xs.Nodup) : xs.eraseDups = xs := by
  induction xs using List.reverseRecOn with
  | nil => rfl
  | append_singleton xs x ih =>
    obtain ⟨hxs, -, hnew⟩ := List.nodup_append.1 h
    have hx : x ∉ xs := fun hmem => hnew x hmem x (List.mem_singleton_self x) rfl
    rw [eraseDups_concat, if_neg hx, ih hxs]

@[simp] theorem head?_eraseDups (xs : List α) : xs.eraseDups.head? = xs.head? := by
  cases xs with
  | nil => rfl
  | cons x xs => rw [List.eraseDups_cons, List.head?_cons, List.head?_cons]

/-- The first item of a kind is the first that is kept. -/
theorem find?_eraseDups (p : α → Bool) (xs : List α) : xs.eraseDups.find? p = xs.find? p := by
  induction xs using List.reverseRecOn with
  | nil => rfl
  | append_singleton xs x ih =>
    rw [eraseDups_concat]
    split
    · rename_i hmem
      cases hp : p x with
      | false =>
        rw [ih, List.find?_append, List.find?_singleton, hp, if_neg (by simp), Option.or_none]
      | true =>
        obtain ⟨first, hfirst⟩ := Option.isSome_iff_exists.1 (List.find?_isSome.2 ⟨x, hmem, hp⟩)
        rw [ih, List.find?_append, hfirst, Option.some_or]
    · rw [List.find?_append, List.find?_append, ih]

/-- A list with one more item at the end, unless it has the item. -/
def pushNew (xs : List α) (x : α) : List α :=
  if xs.contains x then xs else xs ++ [x]

theorem removeAll_concat (xs ys : List α) (y : α) :
    (ys ++ [y]).removeAll xs = if y ∈ xs then ys.removeAll xs else ys.removeAll xs ++ [y] := by
  rw [List.removeAll, List.filter_append]
  by_cases h : y ∈ xs <;> simp [List.removeAll, h]

/-- Adding items one by one adds those that the list did not have, each once. -/
theorem foldl_pushNew (xs ys : List α) :
    ys.foldl pushNew xs = xs ++ (ys.removeAll xs).eraseDups := by
  induction ys using List.reverseRecOn with
  | nil => simp [List.removeAll]
  | append_singleton ys y ih =>
    rw [List.foldl_append, List.foldl_cons, List.foldl_nil, ih, pushNew, removeAll_concat]
    by_cases hold : y ∈ xs
    · simp [hold]
    · have hmem : y ∈ ys.removeAll xs ↔ y ∈ ys := by simp [List.removeAll, hold]
      rw [if_neg hold, eraseDups_concat]
      by_cases hys : y ∈ ys
      · simp [hmem, hys]
      · simp [hmem, hys, hold]

theorem mem_foldl_pushNew {x : α} : x ∈ ys.foldl pushNew xs ↔ x ∈ xs ∨ x ∈ ys := by
  rw [foldl_pushNew, List.mem_append, List.mem_eraseDups]
  by_cases h : x ∈ xs <;> simp [List.removeAll, h]

theorem foldl_pushNew_nil (ys : List α) : ys.foldl pushNew [] = ys.eraseDups := by
  rw [foldl_pushNew, List.nil_append]
  simp [List.removeAll]

end AskSql
