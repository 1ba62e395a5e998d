import StorageUpgrade.Alignment.Edit

/-!
# Least costs

The least cost of aligning the first items of one sequence with the first items of another, by
their numbers. This is the recurrence that a cost matrix tabulates; nothing here says yet that no
alignment is cheaper.
-/

namespace StorageUpgrade.Alignment

/-- The cost of aligning the first `i` items with the first `j` items, where `verdict` compares
items by their positions. -/
def leastCost (verdict : Nat → Nat → Verdict) : Nat → Nat → Nat
  | 0, 0 => 0
  | 0, j + 1 => leastCost verdict 0 j + insertionCost
  | i + 1, 0 => leastCost verdict i 0 + deletionCost
  | i + 1, j + 1 =>
    min (min (leastCost verdict i j + (verdict i j).cost)
      (leastCost verdict (i + 1) j + insertionCost))
      (leastCost verdict i (j + 1) + deletionCost)

variable (verdict : Nat → Nat → Verdict)

@[simp]
theorem leastCost_zero_zero : leastCost verdict 0 0 = 0 := by
  rw [leastCost]

theorem leastCost_succ_succ (i j : Nat) : leastCost verdict (i + 1) (j + 1) =
    min (min (leastCost verdict i j + (verdict i j).cost)
      (leastCost verdict (i + 1) j + insertionCost))
      (leastCost verdict i (j + 1) + deletionCost) := by
  rw [leastCost]

theorem leastCost_pair_le (i j : Nat) :
    leastCost verdict (i + 1) (j + 1) ≤ leastCost verdict i j + (verdict i j).cost := by
  rw [leastCost_succ_succ]
  omega

theorem leastCost_insert_le (i j : Nat) :
    leastCost verdict i (j + 1) ≤ leastCost verdict i j + insertionCost := by
  cases i with
  | zero => exact Nat.le_of_eq (by rw [leastCost])
  | succ i =>
    rw [leastCost]
    omega

theorem leastCost_delete_le (i j : Nat) :
    leastCost verdict (i + 1) j ≤ leastCost verdict i j + deletionCost := by
  cases j with
  | zero => exact Nat.le_of_eq (by rw [leastCost])
  | succ j =>
    rw [leastCost]
    omega

/-- An item more of the second list saves at most its insertion. -/
theorem leastCost_le_insert (i j : Nat) :
    leastCost verdict i j ≤ leastCost verdict i (j + 1) + insertionCost := by
  induction i with
  | zero =>
    rw [leastCost]
    omega
  | succ i ih =>
    have hdelete := leastCost_delete_le verdict i j
    rw [leastCost_succ_succ]
    simp only [insertionCost, deletionCost] at ih hdelete ⊢
    omega

/-- An item more of the first list saves at most its deletion. -/
theorem leastCost_le_delete (i j : Nat) :
    leastCost verdict i j ≤ leastCost verdict (i + 1) j + deletionCost := by
  induction j with
  | zero =>
    rw [leastCost]
    omega
  | succ j ih =>
    have hinsert := leastCost_insert_le verdict i j
    rw [leastCost_succ_succ]
    simp only [insertionCost, deletionCost] at ih hinsert ⊢
    omega

/-- Equal items at the end are best paired. -/
theorem leastCost_of_equal {i j : Nat} (h : verdict i j = .equal) :
    leastCost verdict (i + 1) (j + 1) = leastCost verdict i j := by
  have hinsert := leastCost_le_delete verdict i j
  have hdelete := leastCost_le_insert verdict i j
  rw [leastCost_succ_succ, h, Verdict.cost]
  simp only [insertionCost, deletionCost] at hinsert hdelete ⊢
  omega

theorem insertionCost_mul_le_leastCost (i j : Nat) :
    insertionCost * (j - i) ≤ leastCost verdict i j := by
  fun_induction leastCost verdict i j with
  | case1 => exact Nat.zero_le _
  | case2 j ih =>
    simp only [insertionCost] at ih ⊢
    omega
  | case3 i ih =>
    simp only [insertionCost, deletionCost] at ih ⊢
    omega
  | case4 i j ihPair ihInsert ihDelete =>
    simp only [insertionCost, deletionCost] at ihPair ihInsert ihDelete ⊢
    omega

end StorageUpgrade.Alignment
