import StorageUpgrade.Alignment.Classification
import StorageUpgrade.Alignment.LeastCost

/-!
# Cost matrices

The verdicts on all pairs of items of two sequences, and the costs of aligning all their initial
parts. Both tables are flat, one row behind the other, and a row of costs has one entry more than
a row of verdicts. Every access is checked: there is nothing outside of a table, and no number
below zero.
-/

namespace StorageUpgrade.Alignment

def oneLess? : Nat → Option Nat
  | 0 => none
  | n + 1 => some n

/-- A loop over the first numbers gets to its end if each of its steps can be taken. -/
theorem foldlM_range_isSome {σ : Type} {step : σ → Nat → Option σ} {start : σ}
    (holds : Nat → σ → Prop) (n : Nat) (h0 : holds 0 start)
    (hstep : ∀ k < n, ∀ s, holds k s → ∃ s', step s k = some s' ∧ holds (k + 1) s') :
    ∃ s, (List.range n).foldlM step start = some s ∧ holds n s := by
  induction n with
  | zero => exact ⟨start, rfl, h0⟩
  | succ n ih =>
    obtain ⟨s, hs, hn⟩ := ih (fun k hk => hstep k (by omega))
    obtain ⟨s', hs', hn'⟩ := hstep n (by omega) s hn
    refine ⟨s', ?_, hn'⟩
    rw [List.range_succ, List.foldlM_append, hs]
    simp [hs']

structure CostMatrix where
  /-- The number of items of the first sequence. -/
  rows : Nat
  /-- The number of items of the second sequence. -/
  columns : Nat
  /-- The verdict on the items at `i` and `j`, at `i * columns + j`. -/
  verdicts : Array Verdict
  /-- The cost of aligning the first `i` with the first `j` items, at `i * (columns + 1) + j`. -/
  costs : Array Nat

namespace CostMatrix

def index (matrix : CostMatrix) (i j : Nat) : Nat := i * (matrix.columns + 1) + j

/-- The cost of aligning the first `i` with the first `j` items. -/
def cost? (matrix : CostMatrix) (i j : Nat) : Option Nat := matrix.costs[matrix.index i j]?

/-- The verdict on the last of the first `i` items and the last of the first `j` items. -/
def verdict? (matrix : CostMatrix) (i j : Nat) : Option Verdict := do
  let i ← oneLess? i
  let j ← oneLess? j
  matrix.verdicts[i * matrix.columns + j]?

/-- The cost of an entry, from those of the entries before it. -/
def newCost? (matrix : CostMatrix) : Nat → Nat → Option Nat
  | 0, 0 => some 0
  | 0, j + 1 => return (← matrix.cost? 0 j) + insertionCost
  | i + 1, 0 => return (← matrix.cost? i 0) + deletionCost
  | i + 1, j + 1 => do
    let pairing := (← matrix.cost? i j) + (← matrix.verdict? (i + 1) (j + 1)).cost
    let insertion := (← matrix.cost? (i + 1) j) + insertionCost
    let deletion := (← matrix.cost? i (j + 1)) + deletionCost
    return min (min pairing insertion) deletion

def fillEntry? (matrix : CostMatrix) (i j : Nat) : Option CostMatrix := do
  let cost ← matrix.newCost? i j
  if h : matrix.index i j < matrix.costs.size then
    return { matrix with costs := matrix.costs.set (matrix.index i j) cost h }
  else none

def fillRow? (matrix : CostMatrix) (i : Nat) : Option CostMatrix :=
  (List.range (matrix.columns + 1)).foldlM (fun matrix j => matrix.fillEntry? i j) matrix

/-- The matrix of two sequences before any cost is known. -/
def unfilled (verdicts : List Verdict) (rows columns : Nat) : CostMatrix where
  rows
  columns
  verdicts := verdicts.toArray
  costs := .replicate ((rows + 1) * (columns + 1)) 0

/-- The matrix of two sequences, given the verdicts on all pairs of their items, row by row. -/
def build? (verdicts : List Verdict) (rows columns : Nat) : Option CostMatrix :=
  (List.range (rows + 1)).foldlM fillRow? (unfilled verdicts rows columns)

/-- The first `count` entries hold least costs, and all verdicts are in their places. -/
structure Filled (verdict : Nat → Nat → Verdict) (rows columns count : Nat)
    (matrix : CostMatrix) : Prop where
  rows_eq : matrix.rows = rows
  columns_eq : matrix.columns = columns
  size_costs : matrix.costs.size = (rows + 1) * (columns + 1)
  verdicts : ∀ i < rows, ∀ j < columns,
    matrix.verdicts[i * columns + j]? = some (verdict i j)
  costs : ∀ i ≤ rows, ∀ j ≤ columns, i * (columns + 1) + j < count →
    matrix.cost? i j = some (leastCost verdict i j)

variable {verdict : Nat → Nat → Verdict} {rows columns count : Nat} {matrix : CostMatrix}

theorem index_lt {i j : Nat} (hi : i ≤ rows) (hj : j ≤ columns) :
    i * (columns + 1) + j < (rows + 1) * (columns + 1) := by
  have h := Nat.mul_le_mul_right (columns + 1) hi
  rw [Nat.succ_mul]
  omega

theorem index_inj {i j i' j' : Nat} (hj : j ≤ columns) (hj' : j' ≤ columns)
    (h : i * (columns + 1) + j = i' * (columns + 1) + j') : i = i' ∧ j = j' := by
  rcases Nat.lt_trichotomy i i' with hlt | rfl | hlt
  · have hrow := Nat.mul_le_mul_right (columns + 1) (Nat.succ_le_of_lt hlt)
    rw [Nat.succ_mul] at hrow
    omega
  · exact ⟨rfl, by omega⟩
  · have hrow := Nat.mul_le_mul_right (columns + 1) (Nat.succ_le_of_lt hlt)
    rw [Nat.succ_mul] at hrow
    omega

theorem Filled.verdict? (h : Filled verdict rows columns count matrix) {i j : Nat}
    (hi : i < rows) (hj : j < columns) :
    matrix.verdict? (i + 1) (j + 1) = some (verdict i j) := by
  have hv := h.verdicts i hi j hj
  simpa [CostMatrix.verdict?, oneLess?, h.columns_eq] using hv

theorem Filled.newCost? {i j : Nat}
    (h : Filled verdict rows columns (i * (columns + 1) + j) matrix)
    (hi : i ≤ rows) (hj : j ≤ columns) :
    matrix.newCost? i j = some (leastCost verdict i j) := by
  match i, j with
  | 0, 0 => simp [CostMatrix.newCost?]
  | 0, j + 1 =>
    have hleft := h.costs 0 hi j (by omega) (by omega)
    simp [CostMatrix.newCost?, leastCost, hleft]
  | i + 1, 0 =>
    have habove := h.costs i (by omega) 0 hj (by rw [Nat.succ_mul]; omega)
    simp [CostMatrix.newCost?, leastCost, habove]
  | i + 1, j + 1 =>
    have hrow : (i + 1) * (columns + 1) = i * (columns + 1) + (columns + 1) := Nat.succ_mul ..
    have hdiagonal := h.costs i (by omega) j (by omega) (by omega)
    have hleft := h.costs (i + 1) hi j (by omega) (by omega)
    have habove := h.costs i (by omega) (j + 1) hj (by omega)
    have hverdict := h.verdict? (show i < rows by omega) (show j < columns by omega)
    simp [CostMatrix.newCost?, leastCost, hdiagonal, hleft, habove, hverdict]

theorem Filled.fillEntry? {i j : Nat}
    (h : Filled verdict rows columns (i * (columns + 1) + j) matrix)
    (hi : i ≤ rows) (hj : j ≤ columns) :
    ∃ matrix', matrix.fillEntry? i j = some matrix' ∧
      Filled verdict rows columns (i * (columns + 1) + (j + 1)) matrix' := by
  have hplace : matrix.index i j = i * (columns + 1) + j := by
    rw [index, h.columns_eq]
  have hlt : matrix.index i j < matrix.costs.size := by
    rw [hplace, h.size_costs]
    exact index_lt hi hj
  refine ⟨{ matrix with costs := matrix.costs.set (matrix.index i j) (leastCost verdict i j) hlt },
    ?_, h.rows_eq, h.columns_eq, ?_, h.verdicts, ?_⟩
  · simp [CostMatrix.fillEntry?, h.newCost? hi hj, hlt]
  · rw [Array.size_set]
    exact h.size_costs
  · intro i' hi' j' hj' hlt'
    by_cases heq : i' * (columns + 1) + j' = i * (columns + 1) + j
    · obtain ⟨rfl, rfl⟩ := index_inj hj' hj heq
      simp [cost?, index]
    · have hold := h.costs i' hi' j' hj' (by omega)
      simp only [cost?, index, h.columns_eq] at hold ⊢
      rw [Array.getElem?_set_ne _ (by omega)]
      exact hold

theorem Filled.fillRow? {i : Nat}
    (h : Filled verdict rows columns (i * (columns + 1)) matrix) (hi : i ≤ rows) :
    ∃ matrix', matrix.fillRow? i = some matrix' ∧
      Filled verdict rows columns ((i + 1) * (columns + 1)) matrix' := by
  rw [Nat.succ_mul, CostMatrix.fillRow?, h.columns_eq]
  exact foldlM_range_isSome (fun j => Filled verdict rows columns (i * (columns + 1) + j))
    (columns + 1) h (fun j hj s hs => hs.fillEntry? hi (by omega))

/-- Filling a matrix stays within its tables and gives every entry its least cost. -/
theorem build?_filled {verdicts : List Verdict}
    (h : verdicts.length = rows * columns) :
    ∃ matrix, build? verdicts rows columns = some matrix ∧
      Filled (verdictAt verdicts columns) rows columns ((rows + 1) * (columns + 1)) matrix := by
  have hstart : Filled (verdictAt verdicts columns) rows columns (0 * (columns + 1))
      (unfilled verdicts rows columns) := by
    refine ⟨rfl, rfl, by simp [unfilled], ?_, ?_⟩
    · intro i hi j hj
      simpa [unfilled] using getElem?_of_length_eq h hi hj
    · intro i hi j hj hlt
      omega
  exact foldlM_range_isSome
    (fun i => Filled (verdictAt verdicts columns) rows columns (i * (columns + 1)))
    (rows + 1) hstart (fun i hi matrix h => h.fillRow? (by omega))

theorem Filled.cost? (h : Filled verdict rows columns ((rows + 1) * (columns + 1)) matrix)
    {i j : Nat} (hi : i ≤ rows) (hj : j ≤ columns) :
    matrix.cost? i j = some (leastCost verdict i j) :=
  h.costs i hi j hj (index_lt hi hj)

end CostMatrix

end StorageUpgrade.Alignment
