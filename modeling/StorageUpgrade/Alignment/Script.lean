import StorageUpgrade.Alignment.CostMatrix

/-!
# Aligning two sequences

Among the alignments of least cost one is chosen from its end on. Items that were added behind the
whole first version are taken for that before anything else; then comes a pairing, then an
insertion, and last a deletion.
-/

namespace StorageUpgrade.Alignment

variable {α : Type}

namespace CostMatrix

/-- Whether an insertion accounts for the cost of an entry. -/
def insertionFits? (matrix : CostMatrix) (i : Nat) : Nat → Option Bool
  | 0 => some false
  | j + 1 => do
    let here ← matrix.cost? i (j + 1)
    let left ← matrix.cost? i j
    return here = left + insertionCost

/-- The verdict on the last items, if pairing them accounts for the cost of an entry. -/
def fittingVerdict? (matrix : CostMatrix) : Nat → Nat → Option (Option Verdict)
  | i + 1, j + 1 => do
    let verdict ← matrix.verdict? (i + 1) (j + 1)
    let here ← matrix.cost? (i + 1) (j + 1)
    let diagonal ← matrix.cost? i j
    return if here = diagonal + verdict.cost then some verdict else none
  | _, _ => some none

/-- The last edit of the chosen alignment of the first `i` with the first `j` items, and the
numbers of items that are left before it. -/
def lastEdit? (matrix : CostMatrix) (before after : Array α) (i j : Nat) :
    Option (Edit α × Nat × Nat) := do
  let inserts ← matrix.insertionFits? i j
  let pairing ← matrix.fittingVerdict? i j
  let appends := inserts && i = matrix.rows
  match pairing, appends with
  | some verdict, false =>
    let i ← oneLess? i
    let j ← oneLess? j
    return (.pair verdict (← before[i]?) (← after[j]?), i, j)
  | _, _ =>
    if inserts then
      let j ← oneLess? j
      let item ← after[j]?
      return (if appends then .append item else .insert item, i, j)
    else
      let i ← oneLess? i
      return (.delete (← before[i]?), i, j)

theorem oneLess?_eq_some {n m : Nat} (h : oneLess? n = some m) : n = m + 1 := by
  cases n with
  | zero => simp [oneLess?] at h
  | succ n => simpa [oneLess?] using h

theorem lt_of_lastEdit? {matrix : CostMatrix} {before after : Array α} {i j i' j' : Nat}
    {edit : Edit α} (h : matrix.lastEdit? before after i j = some (edit, i', j')) :
    i' + j' < i + j := by
  simp only [lastEdit?, Option.bind_eq_bind, Option.bind_eq_some_iff] at h
  obtain ⟨inserts, -, pairing, -, h⟩ := h
  split at h
  · simp only [Option.bind_eq_some_iff, Option.pure_def, Option.some.injEq, Prod.mk.injEq] at h
    obtain ⟨k, hk, l, hl, x, -, y, -, -, rfl, rfl⟩ := h
    have hi := oneLess?_eq_some hk
    have hj := oneLess?_eq_some hl
    omega
  · split at h
    · simp only [Option.bind_eq_some_iff, Option.pure_def, Option.some.injEq, Prod.mk.injEq] at h
      obtain ⟨l, hl, y, -, -, rfl, rfl⟩ := h
      have hj := oneLess?_eq_some hl
      omega
    · simp only [Option.bind_eq_some_iff, Option.pure_def, Option.some.injEq, Prod.mk.injEq] at h
      obtain ⟨k, hk, x, -, -, rfl, rfl⟩ := h
      have hi := oneLess?_eq_some hk
      omega

/-- The chosen alignment, found from its end on. `later` holds the edits that follow the first `i`
and the first `j` items. -/
def walk? (matrix : CostMatrix) (before after : Array α) (i j : Nat) (later : List (Edit α)) :
    Option (List (Edit α)) :=
  if i = 0 ∧ j = 0 then some later
  else
    match _h : matrix.lastEdit? before after i j with
    | none => none
    | some (edit, i', j') => matrix.walk? before after i' j' (edit :: later)
termination_by i + j
decreasing_by exact lt_of_lastEdit? _h

end CostMatrix

/-- The chosen alignment of two versions of a sequence, given the verdicts on all pairs of their
items, row by row. Every access is checked. -/
def script? (verdicts : List Verdict) (before after : List α) : Option (List (Edit α)) := do
  let matrix ← CostMatrix.build? verdicts before.length after.length
  matrix.walk? before.toArray after.toArray before.length after.length []

/-! ## The walk never leaves the tables -/

section

variable (verdict : Nat → Nat → Verdict) (before after : List α)

/-- All that the last edit of an alignment can be, with the numbers of items that are left before
it. Each case says why those of higher priority do not apply. -/
inductive LastEdit : Nat → Nat → Edit α → Nat → Nat → Prop
  | append {j : Nat} (hj : j < after.length)
      (hcost : leastCost verdict before.length (j + 1) =
        leastCost verdict before.length j + insertionCost) :
      LastEdit before.length (j + 1) (.append after[j]) before.length j
  | pair {i j : Nat} (hi : i < before.length) (hj : j < after.length)
      (hcost : leastCost verdict (i + 1) (j + 1) =
        leastCost verdict i j + (verdict i j).cost)
      (hlater : i + 1 = before.length → leastCost verdict (i + 1) (j + 1) ≠
        leastCost verdict (i + 1) j + insertionCost) :
      LastEdit (i + 1) (j + 1) (.pair (verdict i j) before[i] after[j]) i j
  | insert {i j : Nat} (hi : i < before.length) (hj : j < after.length)
      (hcost : leastCost verdict i (j + 1) =
        leastCost verdict i j + insertionCost)
      (hpair : ∀ k, i = k + 1 → leastCost verdict (k + 1) (j + 1) ≠
        leastCost verdict k j + (verdict k j).cost) :
      LastEdit i (j + 1) (.insert after[j]) i j
  | delete {i j : Nat} (hi : i < before.length) (hj : j ≤ after.length)
      (hcost : leastCost verdict (i + 1) j =
        leastCost verdict i j + deletionCost)
      (hpair : ∀ l, j = l + 1 → leastCost verdict (i + 1) (l + 1) ≠
        leastCost verdict i l + (verdict i l).cost)
      (hinsert : ∀ l, j = l + 1 → leastCost verdict (i + 1) (l + 1) ≠
        leastCost verdict (i + 1) l + insertionCost) :
      LastEdit (i + 1) j (.delete before[i]) i j

end

theorem LastEdit.le_length {verdict : Nat → Nat → Verdict} {before after : List α} {i j i' j' : Nat}
    {edit : Edit α} (h : LastEdit verdict before after i j edit i' j') :
    i' ≤ before.length ∧ j' ≤ after.length := by
  cases h <;> omega

namespace CostMatrix

variable {verdict : Nat → Nat → Verdict} {before after : List α} {matrix : CostMatrix}

/-- The matrix of two lists with all its costs. -/
abbrev IsMatrixOf (verdict : Nat → Nat → Verdict) (before after : List α)
    (matrix : CostMatrix) : Prop :=
  Filled verdict before.length after.length ((before.length + 1) * (after.length + 1)) matrix

theorem insertionFits?_eq (h : IsMatrixOf verdict before after matrix) {i j : Nat}
    (hi : i ≤ before.length) (hj : j < after.length) :
    matrix.insertionFits? i (j + 1) = some (decide (leastCost verdict i (j + 1) =
      leastCost verdict i j + insertionCost)) := by
  simp [insertionFits?, h.cost? hi hj, h.cost? hi (Nat.le_of_lt hj)]

theorem fittingVerdict?_eq (h : IsMatrixOf verdict before after matrix) {i j : Nat}
    (hi : i < before.length) (hj : j < after.length) :
    matrix.fittingVerdict? (i + 1) (j + 1) =
      some (if leastCost verdict (i + 1) (j + 1) = leastCost verdict i j + (verdict i j).cost
        then some (verdict i j) else none) := by
  have hdiagonal := h.cost? (Nat.le_of_lt hi) (Nat.le_of_lt hj)
  simp [fittingVerdict?, h.verdict? hi hj, h.cost? hi hj, hdiagonal]

theorem lastEdit?_cases (h : IsMatrixOf verdict before after matrix) {i j : Nat}
    (hi : i ≤ before.length) (hj : j ≤ after.length) (hne : ¬ (i = 0 ∧ j = 0)) :
    ∃ edit i' j', matrix.lastEdit? before.toArray after.toArray i j = some (edit, i', j') ∧
      LastEdit verdict before after i j edit i' j' := by
  match i, j with
  | 0, 0 => exact absurd ⟨rfl, rfl⟩ hne
  | 0, j + 1 =>
    have hy : after[j]? = some after[j] := List.getElem?_eq_getElem hj
    have hcost : leastCost verdict 0 (j + 1) = leastCost verdict 0 j + insertionCost := by
      rw [leastCost]
    have hinserts := insertionFits?_eq h hi hj
    rw [decide_eq_true hcost] at hinserts
    by_cases hlast : before.length = 0
    · refine ⟨.append after[j], 0, j, ?_, ?_⟩
      · simp [lastEdit?, hinserts, fittingVerdict?, h.rows_eq, hlast, oneLess?, hy]
      · rw [← hlast] at hcost ⊢
        exact .append hj hcost
    · refine ⟨.insert after[j], 0, j, ?_, .insert (by omega) hj hcost (by simp)⟩
      simp [lastEdit?, hinserts, fittingVerdict?, h.rows_eq, oneLess?, Ne.symm hlast, hy]
  | i + 1, 0 =>
    have hx : before[i]? = some before[i] := List.getElem?_eq_getElem hi
    have hcost : leastCost verdict (i + 1) 0 = leastCost verdict i 0 + deletionCost := by
      rw [leastCost]
    refine ⟨.delete before[i], i, 0, ?_, .delete hi hj hcost (by simp) (by simp)⟩
    simp [lastEdit?, insertionFits?, fittingVerdict?, oneLess?, hx]
  | i + 1, j + 1 =>
    have hx : before[i]? = some before[i] := List.getElem?_eq_getElem hi
    have hy : after[j]? = some after[j] := List.getElem?_eq_getElem hj
    have hinserts := insertionFits?_eq h hi hj
    have hpairing := fittingVerdict?_eq h hi hj
    by_cases hins : leastCost verdict (i + 1) (j + 1) =
        leastCost verdict (i + 1) j + insertionCost
    · rw [decide_eq_true hins] at hinserts
      by_cases hlast : i + 1 = before.length
      · refine ⟨.append after[j], i + 1, j, ?_, ?_⟩
        · simp [lastEdit?, hinserts, hpairing, h.rows_eq, ← hlast, oneLess?, hy]
        · rw [hlast] at hins ⊢
          exact .append hj hins
      · by_cases hpair : leastCost verdict (i + 1) (j + 1) =
            leastCost verdict i j + (verdict i j).cost
        · rw [if_pos hpair] at hpairing
          refine ⟨_, i, j, ?_, .pair hi hj hpair (fun heq => absurd heq hlast)⟩
          simp [lastEdit?, hinserts, hpairing, h.rows_eq, hlast, oneLess?, hx, hy]
        · rw [if_neg hpair] at hpairing
          refine ⟨.insert after[j], i + 1, j, ?_, .insert (by omega) hj hins ?_⟩
          · simp [lastEdit?, hinserts, hpairing, h.rows_eq, hlast, oneLess?, hy]
          · rintro k ⟨⟩
            exact hpair
    · rw [decide_eq_false hins] at hinserts
      by_cases hpair : leastCost verdict (i + 1) (j + 1) =
          leastCost verdict i j + (verdict i j).cost
      · rw [if_pos hpair] at hpairing
        refine ⟨_, i, j, ?_, .pair hi hj hpair (fun _ => hins)⟩
        simp [lastEdit?, hinserts, hpairing, oneLess?, hx, hy]
      · rw [if_neg hpair] at hpairing
        have hdelete : leastCost verdict (i + 1) (j + 1) =
            leastCost verdict i (j + 1) + deletionCost := by
          have hmin := leastCost_succ_succ verdict i j
          omega
        refine ⟨.delete before[i], i, j + 1, ?_, .delete hi hj hdelete ?_ ?_⟩
        · simp [lastEdit?, hinserts, hpairing, oneLess?, hx]
        · rintro l ⟨⟩
          exact hpair
        · rintro l ⟨⟩
          exact hins

/-- A walk gets to the beginning, and has there what its steps preserve. -/
theorem walk?_induction (h : IsMatrixOf verdict before after matrix)
    {motive : Nat → Nat → List (Edit α) → Prop}
    (hstep : ∀ {i j edit i' j' later}, LastEdit verdict before after i j edit i' j' →
      motive i j later → motive i' j' (edit :: later))
    {i j : Nat} {later : List (Edit α)} (hi : i ≤ before.length) (hj : j ≤ after.length)
    (hm : motive i j later) :
    ∃ script, matrix.walk? before.toArray after.toArray i j later = some script ∧
      motive 0 0 script := by
  by_cases hne : i = 0 ∧ j = 0
  · obtain ⟨rfl, rfl⟩ := hne
    exact ⟨later, by simp [walk?], hm⟩
  · obtain ⟨edit, i', j', hedit, hlast⟩ := lastEdit?_cases h hi hj hne
    have hlt := lt_of_lastEdit? hedit
    obtain ⟨hi', hj'⟩ := hlast.le_length
    obtain ⟨script, hwalk, hscript⟩ := walk?_induction h hstep hi' hj' (hstep hlast hm)
    refine ⟨script, ?_, hscript⟩
    rw [walk?, if_neg hne]
    split
    next hnone => rw [hedit] at hnone; cases hnone
    next hsome => rw [hedit] at hsome; cases hsome; exact hwalk
termination_by i + j

end CostMatrix

variable {verdicts : List Verdict} {before after : List α}

/-- The chosen alignment exists, and has what the last edits preserve from the end of both lists to
their beginning. -/
theorem script?_induction (h : verdicts.length = before.length * after.length)
    {motive : Nat → Nat → List (Edit α) → Prop}
    (hstart : motive before.length after.length [])
    (hstep : ∀ {i j edit i' j' later},
      LastEdit (verdictAt verdicts after.length) before after i j edit i' j' →
        motive i j later → motive i' j' (edit :: later)) :
    ∃ script, script? verdicts before after = some script ∧ motive 0 0 script := by
  obtain ⟨matrix, hbuild, hmatrix⟩ := CostMatrix.build?_filled h
  obtain ⟨script, hwalk, hscript⟩ := CostMatrix.walk?_induction hmatrix hstep
    (Nat.le_refl _) (Nat.le_refl _) hstart
  exact ⟨script, by simp [script?, hbuild, hwalk], hscript⟩

theorem isSome_script? (h : verdicts.length = before.length * after.length) :
    (script? verdicts before after).isSome := by
  have hscript : ∃ script, script? verdicts before after = some script ∧ True :=
    script?_induction (motive := fun _ _ _ => True) h trivial (fun _ _ => trivial)
  obtain ⟨script, hscript, -⟩ := hscript
  rw [hscript]
  rfl

/-! ## Judging and aligning -/

section

variable {σ : Type}

/-- Judges all pairs of items, and chooses an alignment. -/
def align? (classify : α → α → StateM σ Verdict) (before after : List α) :
    StateM σ (Option (List (Edit α))) := do
  let verdicts ← classifyAll classify before after
  return script? verdicts before after

/-- The chosen alignment: there is one whatever the verdicts are. -/
def align (classify : α → α → StateM σ Verdict) (before after : List α) :
    StateM σ (List (Edit α)) := fun s =>
  let judged := classifyAll classify before after s
  ((script? judged.1 before after).get
    (isSome_script? (length_classifyAll classify before after s)), judged.2)

theorem align?_eq (classify : α → α → StateM σ Verdict) (before after : List α) (s : σ) :
    align? classify before after s =
      (some (align classify before after s).1, (align classify before after s).2) := by
  rw [align, Option.some_get]
  rfl

/-- The chosen alignment for a judge without a memory. -/
def script (verdict : α → α → Verdict) (before after : List α) : List (Edit α) :=
  (align (fun x y => (pure (verdict x y) : StateM Unit Verdict)) before after ()).1

end

end StorageUpgrade.Alignment
