import AskSql.Keyed

/-! What a finite map holds after it has been changed, and maps whose values are looked at through a
function. -/

namespace AskSql

variable {α β : Type} {key k : String} {value v : α}

theorem lookup_entry_cons (k key : String) (value : α) (entries : List (String × α)) :
    ((key, value) :: entries).lookup k = if k = key then some value else entries.lookup k := by
  rw [List.lookup_cons]
  split <;> simp_all

/-- Setting the value of one key leaves those of the others. -/
theorem lookup_putEntry (key k : String) (value : α) (entries : List (String × α)) :
    (putEntry key value entries).lookup k = if k = key then some value else entries.lookup k := by
  induction entries with
  | nil => rw [putEntry, lookup_entry_cons]
  | cons head rest ih =>
    obtain ⟨k', v⟩ := head
    unfold putEntry
    split
    · rw [lookup_entry_cons]
    · split
      · rename_i heq
        rw [lookup_entry_cons, lookup_entry_cons, heq]
        split <;> rfl
      · rename_i hne
        rw [lookup_entry_cons, lookup_entry_cons, ih]
        by_cases hk : k = k'
        · simp [hk, Ne.symm hne]
        · simp [hk]

/-- Leaving a key out leaves the values of the others. -/
theorem lookup_filter_ne (key k : String) (entries : List (String × α)) :
    (entries.filter (·.1 ≠ key)).lookup k = if k = key then none else entries.lookup k := by
  induction entries with
  | nil => simp
  | cons head rest ih =>
    obtain ⟨k', v⟩ := head
    by_cases hkey : k' = key
    · rw [List.filter_cons_of_neg (by simp [hkey]), ih, lookup_entry_cons, hkey]
      split <;> rfl
    · rw [List.filter_cons_of_pos (by simp [hkey]), lookup_entry_cons, lookup_entry_cons, ih]
      by_cases hk : k = k'
      · simp [hk, hkey]
      · simp [hk]

namespace Keyed

@[simp] theorem get?_empty (k : String) : (empty : Keyed α).get? k = none :=
  rfl

theorem get?_insert (m : Keyed α) (key k : String) (value : α) :
    (m.insert key value).get? k = if k = key then some value else m.get? k :=
  lookup_putEntry key k value m.entries

theorem get?_erase (m : Keyed α) (key k : String) :
    (m.erase key).get? k = if k = key then none else m.get? k :=
  lookup_filter_ne key k m.entries

@[simp] theorem get?_insert_self (m : Keyed α) (key : String) (value : α) :
    (m.insert key value).get? key = some value := by
  rw [get?_insert, if_pos rfl]

theorem get?_insert_of_ne (m : Keyed α) (value : α) (h : k ≠ key) :
    (m.insert key value).get? k = m.get? k := by
  rw [get?_insert, if_neg h]

@[simp] theorem get?_erase_self (m : Keyed α) (key : String) : (m.erase key).get? key = none := by
  rw [get?_erase, if_pos rfl]

theorem get?_erase_of_ne (m : Keyed α) (h : k ≠ key) : (m.erase key).get? k = m.get? k := by
  rw [get?_erase, if_neg h]

theorem get?_of_get?_erase {m : Keyed α} (h : (m.erase key).get? k = some v) :
    m.get? k = some v := by
  rw [get?_erase] at h
  split at h
  · contradiction
  · exact h

/-- The entries of a map are the values of its keys. -/
theorem mem_entries_iff (m : Keyed α) : (k, v) ∈ m.entries ↔ m.get? k = some v := by
  obtain ⟨entries, sorted⟩ := m
  show (k, v) ∈ entries ↔ entries.lookup k = some v
  induction entries with
  | nil => simp
  | cons head rest ih =>
    obtain ⟨k', v'⟩ := head
    obtain ⟨hhead, hrest⟩ := List.pairwise_cons.1 sorted
    rw [List.mem_cons, lookup_entry_cons]
    split
    · rename_i hk
      have habsent : (k', v) ∉ rest := fun h => String.lt_irrefl k' (hhead _ h)
      simp [hk, habsent, eq_comm]
    · rename_i hk
      simp [hk, ih hrest]

theorem forall_foldl_insert {p : String → α → Prop} {entries : List (String × α)} {m : Keyed α}
    (hm : ∀ k v, m.get? k = some v → p k v) (h : ∀ e ∈ entries, p e.1 e.2)
    (hget : (entries.foldl (fun m e => m.insert e.1 e.2) m).get? k = some v) : p k v := by
  induction entries generalizing m with
  | nil => exact hm k v hget
  | cons e entries ih =>
    refine ih ?_ (fun e he => h e (List.mem_cons_of_mem _ he)) hget
    intro k v hinsert
    rw [get?_insert] at hinsert
    split at hinsert
    · rename_i hk
      rw [hk, ← Option.some.inj hinsert]
      exact h e List.mem_cons_self
    · exact hm k v hinsert

/-- What holds of every entry of a list holds of the entries of its map. -/
theorem forall_ofList {p : String → α → Prop} {entries : List (String × α)}
    (h : ∀ e ∈ entries, p e.1 e.2) (hget : (ofList entries).get? k = some v) : p k v :=
  forall_foldl_insert (by simp) h hget

/-- The map of a list holds the last value of each key. -/
theorem get?_ofList (entries : List (String × α)) (k : String) :
    (ofList entries).get? k = ((entries.filter (·.1 == k)).getLast?).map (·.2) := by
  have hfold : ∀ m : Keyed α, (entries.foldl (fun m e => m.insert e.1 e.2) m).get? k =
      (((entries.filter (·.1 == k)).getLast?).map (·.2)).or (m.get? k) := by
    induction entries with
    | nil => simp
    | cons e entries ih =>
      intro m
      rw [List.foldl_cons, ih, get?_insert]
      by_cases hk : k = e.1
      · rw [List.filter_cons_of_pos (by simp [hk]), List.getLast?_cons, if_pos hk]
        cases (entries.filter (·.1 == k)).getLast? <;> simp
      · rw [List.filter_cons_of_neg (by simp [Ne.symm hk]), if_neg hk]
  rw [ofList, hfold empty, get?_empty, Option.or_none]

/-- A map with every value looked at through `f`. -/
def map (f : α → β) (m : Keyed α) : Keyed β :=
  ⟨m.entries.map fun e => (e.1, f e.2), by
    rw [List.pairwise_map]
    exact m.sorted⟩

theorem map_putEntry (f : α → β) (entries : List (String × α)) :
    (putEntry key value entries).map (fun e => (e.1, f e.2)) =
      putEntry key (f value) (entries.map fun e => (e.1, f e.2)) := by
  induction entries with
  | nil => rfl
  | cons head rest ih =>
    simp only [putEntry, List.map_cons]
    split
    · rfl
    · split
      · rfl
      · rw [List.map_cons, ih]

@[simp] theorem map_empty (f : α → β) : (empty : Keyed α).map f = empty :=
  rfl

@[simp] theorem map_insert (f : α → β) (m : Keyed α) (key : String) (value : α) :
    (m.insert key value).map f = (m.map f).insert key (f value) := by
  simp only [map, insert, map_putEntry]

@[simp] theorem map_erase (f : α → β) (m : Keyed α) (key : String) :
    (m.erase key).map f = (m.map f).erase key := by
  simp only [map, erase, List.filter_map, Function.comp_def]

@[simp] theorem get?_map (f : α → β) (m : Keyed α) (key : String) :
    (m.map f).get? key = (m.get? key).map f := by
  obtain ⟨entries, sorted⟩ := m
  show (entries.map fun e => (e.1, f e.2)).lookup key = (entries.lookup key).map f
  induction entries with
  | nil => rfl
  | cons head rest ih =>
    rw [List.map_cons, lookup_entry_cons, lookup_entry_cons, ih (List.pairwise_cons.1 sorted).2]
    split <;> rfl

@[simp] theorem contains_map (f : α → β) (m : Keyed α) (key : String) :
    (m.map f).contains key = m.contains key := by
  simp [contains]

@[simp] theorem keys_map (f : α → β) (m : Keyed α) : (m.map f).keys = m.keys := by
  simp [keys, map]

end Keyed

end AskSql
