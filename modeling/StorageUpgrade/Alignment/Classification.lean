import StorageUpgrade.Alignment.Edit

/-!
# Classifications

Before two sequences are aligned, every pair of their items is judged, row by row. The judge may
remember what it has been asked before, so a verdict belongs to a pair of positions.
-/

namespace StorageUpgrade.Alignment

variable {α σ : Type}

def allPairs (before after : List α) : List (α × α) :=
  before.flatMap fun x => after.map fun y => (x, y)

def classifyAll (classify : α → α → StateM σ Verdict) (before after : List α) :
    StateM σ (List Verdict) :=
  (allPairs before after).mapM fun (x, y) => classify x y

/-- The verdict on the items at two positions, where rows have `columns` verdicts. -/
def verdictAt (verdicts : List Verdict) (columns i j : Nat) : Verdict :=
  verdicts[i * columns + j]?.getD .replace

theorem getElem?_of_length_eq {verdicts : List Verdict} {rows columns i j : Nat}
    (h : verdicts.length = rows * columns) (hi : i < rows) (hj : j < columns) :
    verdicts[i * columns + j]? = some (verdictAt verdicts columns i j) := by
  have hplace : i * columns + j < verdicts.length := by
    have hrow := Nat.mul_le_mul_right columns (Nat.succ_le_of_lt hi)
    rw [Nat.succ_mul] at hrow
    omega
  rw [verdictAt, List.getElem?_eq_getElem hplace]
  rfl

@[simp]
theorem length_allPairs (before after : List α) :
    (allPairs before after).length = before.length * after.length := by
  simp only [allPairs, List.length_flatMap, List.length_map, List.map_const',
    List.sum_replicate_nat]

theorem mem_allPairs {before after : List α} {x y : α} :
    (x, y) ∈ allPairs before after ↔ x ∈ before ∧ y ∈ after := by
  simp [allPairs]

theorem getElem?_allPairs {before after : List α} {i j : Nat}
    (hi : i < before.length) (hj : j < after.length) :
    (allPairs before after)[i * after.length + j]? = some (before[i], after[j]) := by
  induction before generalizing i with
  | nil => exact absurd hi (Nat.not_lt_zero i)
  | cons x before ih =>
    rw [allPairs, List.flatMap_cons]
    cases i with
    | zero =>
      rw [List.getElem?_append_left (by simpa using hj)]
      simp [hj]
    | succ i =>
      rw [Nat.succ_mul, List.getElem?_append_right (by simp; omega)]
      have hplace : i * after.length + after.length + j - (after.map fun y => (x, y)).length =
          i * after.length + j := by
        rw [List.length_map]
        omega
      rw [hplace]
      exact ih (Nat.lt_of_succ_lt_succ hi)

/-! ## What a judge with a memory says -/

section

variable {β γ : Type}

theorem length_mapM_state (step : β → StateM σ γ) (items : List β) (s : σ) :
    (items.mapM step s).1.length = items.length := by
  induction items generalizing s with
  | nil => rfl
  | cons item items ih =>
    rw [List.mapM_cons]
    exact congrArg (· + 1) (ih (step item s).2)

/-- What is true of the answers of a step, as long as the memory is sound, is true of the answers
to all items. -/
theorem exists_answer_mapM_state {step : β → StateM σ γ} {sound : σ → Prop} {truth : β → γ → Prop}
    {items : List β}
    (hstep : ∀ item ∈ items, ∀ s, sound s → truth item (step item s).1 ∧ sound (step item s).2)
    {s : σ} (hs : sound s) {k : Nat} {item : β} (hitem : items[k]? = some item) :
    ∃ answer, (items.mapM step s).1[k]? = some answer ∧ truth item answer := by
  induction items generalizing s k with
  | nil => cases hitem
  | cons first items ih =>
    rw [List.forall_mem_cons] at hstep
    obtain ⟨htrue, hsound⟩ := hstep.1 s hs
    rw [List.mapM_cons]
    cases k with
    | zero =>
      cases hitem
      exact ⟨_, rfl, htrue⟩
    | succ k => exact ih hstep.2 hsound hitem

end

theorem length_classifyAll (classify : α → α → StateM σ Verdict) (before after : List α) (s : σ) :
    (classifyAll classify before after s).1.length = before.length * after.length := by
  rw [classifyAll, length_mapM_state, length_allPairs]

/-- The verdict that was given on the items at two positions. -/
def given (classify : α → α → StateM σ Verdict) (before after : List α) (s : σ) (i j : Nat) :
    Verdict :=
  verdictAt (classifyAll classify before after s).1 after.length i j

theorem given_of_forall (classify : α → α → StateM σ Verdict) {before after : List α}
    (sound : σ → Prop) (truth : α → α → Verdict → Prop)
    (hstep : ∀ x ∈ before, ∀ y ∈ after, ∀ s, sound s →
      truth x y (classify x y s).1 ∧ sound (classify x y s).2)
    {s : σ} (hs : sound s) {i j : Nat} (hi : i < before.length) (hj : j < after.length) :
    truth before[i] after[j] (given classify before after s i j) := by
  have hpairs : ∀ pair ∈ allPairs before after, ∀ s, sound s →
      truth pair.1 pair.2 (classify pair.1 pair.2 s).1 ∧ sound (classify pair.1 pair.2 s).2 := by
    rintro ⟨x, y⟩ hpair
    obtain ⟨hx, hy⟩ := mem_allPairs.1 hpair
    exact hstep x hx y hy
  obtain ⟨verdict, hverdict, htruth⟩ :=
    exists_answer_mapM_state hpairs hs (getElem?_allPairs hi hj)
  have hgiven : given classify before after s i j = verdict := by
    rw [given, verdictAt, classifyAll]
    exact congrArg (·.getD .replace) hverdict
  rw [hgiven]
  exact htruth

theorem exists_given_eq (classify : α → α → StateM σ Verdict) {before after : List α} (s : σ)
    {i j : Nat} (hi : i < before.length) (hj : j < after.length) :
    ∃ s', given classify before after s i j = (classify before[i] after[j] s').1 :=
  given_of_forall classify (fun _ => True) (fun x y v => ∃ s', v = (classify x y s').1)
    (fun _ _ _ _ s _ => ⟨⟨s, rfl⟩, trivial⟩) trivial hi hj

end StorageUpgrade.Alignment
