/-! Sets of characters given as tables of code point ranges.  A table lists inclusive ranges in
increasing order, so a search may stop at the first range that begins above the code point. -/

namespace AskSql.Text

/-- Whether the code point `n` lies in one of the inclusive, increasing ranges. -/
def inRanges (n : Nat) : List (Nat × Nat) → Bool
  | [] => false
  | (low, high) :: ranges => if n < low then false else n ≤ high || inRanges n ranges

/-- A search that succeeds names a range that holds the code point. -/
theorem exists_of_inRanges {n : Nat} {ranges : List (Nat × Nat)} (h : inRanges n ranges = true) :
    ∃ r ∈ ranges, r.1 ≤ n ∧ n ≤ r.2 := by
  induction ranges with
  | nil => simp [inRanges] at h
  | cons r rest ih =>
    obtain ⟨low, high⟩ := r
    simp only [inRanges] at h
    split at h
    · simp at h
    · rename_i hlow
      rcases Bool.or_eq_true_iff.1 h with hhigh | hrest
      · exact ⟨(low, high), by simp, by simpa using hlow, by simpa using hhigh⟩
      · obtain ⟨r, hr, hb⟩ := ih hrest
        exact ⟨r, by simp [hr], hb⟩

end AskSql.Text
