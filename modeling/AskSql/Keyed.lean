/-! Finite maps from names to values, kept in the order of their names.  The entries of a map are
strictly increasing, so each name has one value and a walk over the entries meets the names in
order. -/

namespace AskSql

/-- `entries` with the value of `key` set, at its place in the order of keys. -/
def putEntry {α : Type} (key : String) (value : α) : List (String × α) → List (String × α)
  | [] => [(key, value)]
  | (k, v) :: rest =>
    if key < k then (key, value) :: (k, v) :: rest
    else if key = k then (key, value) :: rest
    else (k, v) :: putEntry key value rest

/-- The keys of a list of entries with one more value set. -/
theorem mem_putEntry {α : Type} {key : String} {value : α} {entries : List (String × α)}
    {e : String × α} (h : e ∈ putEntry key value entries) : e = (key, value) ∨ e ∈ entries := by
  induction entries with
  | nil => simpa [putEntry] using h
  | cons head rest ih =>
    obtain ⟨k, v⟩ := head
    unfold putEntry at h
    split at h
    · simpa using h
    · split at h
      · rcases List.mem_cons.1 h with h | h
        · exact Or.inl h
        · exact Or.inr (List.mem_cons_of_mem _ h)
      · rcases List.mem_cons.1 h with h | h
        · exact Or.inr (h ▸ List.mem_cons_self)
        · exact (ih h).imp_right (List.mem_cons_of_mem _)

/-- Setting a value keeps the keys in order. -/
theorem pairwise_putEntry {α : Type} {key : String} {value : α} {entries : List (String × α)}
    (h : entries.Pairwise (·.1 < ·.1)) : (putEntry key value entries).Pairwise (·.1 < ·.1) := by
  induction entries with
  | nil => simp [putEntry]
  | cons head rest ih =>
    obtain ⟨k, v⟩ := head
    obtain ⟨hk, hrest⟩ := List.pairwise_cons.1 h
    unfold putEntry
    split
    · rename_i hlt
      refine List.pairwise_cons.2 ⟨?_, h⟩
      intro e he
      rcases List.mem_cons.1 he with rfl | he
      · exact hlt
      · exact String.lt_trans hlt (hk e he)
    · rename_i hnot
      split
      · rename_i heq
        subst heq
        exact List.pairwise_cons.2 ⟨hk, hrest⟩
      · rename_i hne
        refine List.pairwise_cons.2 ⟨?_, ih hrest⟩
        intro e he
        rcases mem_putEntry he with rfl | he
        · exact Std.lt_of_le_of_ne (String.not_lt.1 hnot) fun h => hne h.symm
        · exact hk e he

/-- A map from names to values. -/
structure Keyed (α : Type) where
  entries : List (String × α)
  sorted : entries.Pairwise (·.1 < ·.1)
deriving DecidableEq, Repr

namespace Keyed

variable {α β : Type}

/-- The map without entries. -/
def empty : Keyed α := ⟨[], List.Pairwise.nil⟩

instance : Inhabited (Keyed α) := ⟨empty⟩

/-- The map with the value of `key` set. -/
def insert (m : Keyed α) (key : String) (value : α) : Keyed α :=
  ⟨putEntry key value m.entries, pairwise_putEntry m.sorted⟩

/-- The map without a value for `key`. -/
def erase (m : Keyed α) (key : String) : Keyed α :=
  ⟨m.entries.filter (·.1 ≠ key), m.sorted.filter _⟩

/-- The map of a list of entries, of which the last for a key counts. -/
def ofList (entries : List (String × α)) : Keyed α :=
  entries.foldl (fun m e => m.insert e.1 e.2) empty

/-- The value of `key`. -/
def get? (m : Keyed α) (key : String) : Option α :=
  m.entries.lookup key

/-- Whether `key` has a value. -/
def contains (m : Keyed α) (key : String) : Bool :=
  (m.get? key).isSome

/-- Whether the map has no entries. -/
def isEmpty (m : Keyed α) : Bool :=
  m.entries.isEmpty

/-- The keys, in order. -/
def keys (m : Keyed α) : List String :=
  m.entries.map (·.1)

/-- The values, in the order of their keys. -/
def values (m : Keyed α) : List α :=
  m.entries.map (·.2)

end Keyed

end AskSql
