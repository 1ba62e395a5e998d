import StorageUpgrade.Alignment.Script

/-!
# Replaying a script

A script is valid if replaying it takes two sequences from their beginnings to their ends. The
chosen script is valid, and no valid script costs less. Which of several cheapest scripts is chosen
is not said here.
-/

namespace StorageUpgrade.Alignment

variable {α : Type}

/-- Replaying a script from the items at `i` and `j` on consumes exactly the items that are left.
What is inserted behind the last item of the first list counts as appended. -/
inductive Replays (verdict : Nat → Nat → Verdict) (before after : List α) :
    Nat → Nat → List (Edit α) → Prop
  | done : Replays verdict before after before.length after.length []
  | pair {i j : Nat} {later : List (Edit α)} (hi : i < before.length) (hj : j < after.length)
      (hlater : Replays verdict before after (i + 1) (j + 1) later) :
      Replays verdict before after i j
        (.pair (verdict i j) before[i] after[j] :: later)
  | delete {i j : Nat} {later : List (Edit α)} (hi : i < before.length)
      (hlater : Replays verdict before after (i + 1) j later) :
      Replays verdict before after i j (.delete before[i] :: later)
  | insert {i j : Nat} {later : List (Edit α)} (hi : i < before.length) (hj : j < after.length)
      (hlater : Replays verdict before after i (j + 1) later) :
      Replays verdict before after i j (.insert after[j] :: later)
  | append {j : Nat} {later : List (Edit α)} (hj : j < after.length)
      (hlater : Replays verdict before after before.length (j + 1) later) :
      Replays verdict before after before.length j (.append after[j] :: later)

variable {verdict : Nat → Nat → Verdict} {before after : List α}

/-- No valid script gets to the end for less than the recurrence says. -/
theorem Replays.leastCost_le {i j : Nat} {script : List (Edit α)}
    (h : Replays verdict before after i j script) :
    leastCost verdict before.length after.length ≤
      leastCost verdict i j + scriptCost script := by
  induction h with
  | done => simp
  | @pair i j later hi hj _ ih =>
    have hle := leastCost_pair_le verdict i j
    rw [scriptCost_cons, Edit.cost_pair]
    omega
  | @delete i j later hi _ ih =>
    have hle := leastCost_delete_le verdict i j
    rw [scriptCost_cons, Edit.cost]
    omega
  | @insert i j later hi hj _ ih =>
    have hle := leastCost_insert_le verdict i j
    rw [scriptCost_cons, Edit.cost]
    omega
  | @append j later hj _ ih =>
    have hle := leastCost_insert_le verdict before.length j
    rw [scriptCost_cons, Edit.cost]
    omega

/-- A last edit keeps the rest of a script valid. -/
theorem LastEdit.replays {i j i' j' : Nat} {edit : Edit α} {later : List (Edit α)}
    (h : LastEdit verdict before after i j edit i' j')
    (hlater : Replays verdict before after i j later) :
    Replays verdict before after i' j' (edit :: later) := by
  cases h with
  | append hj => exact .append hj hlater
  | pair hi hj => exact .pair hi hj hlater
  | insert hi hj => exact .insert hi hj hlater
  | delete hi => exact .delete hi hlater

/-- A last edit costs what it adds to the least cost. -/
theorem LastEdit.leastCost_eq {i j i' j' : Nat} {edit : Edit α}
    (h : LastEdit verdict before after i j edit i' j') :
    leastCost verdict i j = leastCost verdict i' j' + edit.cost := by
  cases h with
  | append _ hcost => exact hcost
  | pair _ _ hcost => rw [Edit.cost_pair]; exact hcost
  | insert _ _ hcost => exact hcost
  | delete _ _ hcost => exact hcost

theorem exists_replays_cost_eq {verdicts : List Verdict}
    (h : verdicts.length = before.length * after.length) :
    ∃ script, script? verdicts before after = some script ∧
      Replays (verdictAt verdicts after.length) before after 0 0 script ∧
      scriptCost script =
        leastCost (verdictAt verdicts after.length) before.length after.length := by
  have hscript : ∃ script, script? verdicts before after = some script ∧
      Replays (verdictAt verdicts after.length) before after 0 0 script ∧
      leastCost (verdictAt verdicts after.length) 0 0 + scriptCost script =
        leastCost (verdictAt verdicts after.length) before.length after.length :=
    script?_induction h (motive := fun i j later =>
      Replays (verdictAt verdicts after.length) before after i j later ∧
        leastCost (verdictAt verdicts after.length) i j + scriptCost later =
          leastCost (verdictAt verdicts after.length) before.length after.length)
      ⟨.done, rfl⟩
      (fun hlast ⟨hreplays, hcost⟩ => ⟨hlast.replays hreplays, by
        have hedit := hlast.leastCost_eq
        rw [scriptCost_cons]
        omega⟩)
  obtain ⟨script, hsome, hreplays, hcost⟩ := hscript
  refine ⟨script, hsome, hreplays, ?_⟩
  rw [← hcost, leastCost_zero_zero, Nat.zero_add]

/-- Aligning two lists always gives a script: no access leaves the tables and no number falls below
zero. The script is valid for the verdicts that were given, and no valid script costs less. -/
theorem align?_replays_least {σ : Type} (classify : α → α → StateM σ Verdict)
    (before after : List α) (s : σ) :
    (∀ i j (hi : i < before.length) (hj : j < after.length),
      ∃ s', given classify before after s i j = (classify before[i] after[j] s').1) ∧
    ∃ script, (align? classify before after s).1 = some script ∧
      Replays (given classify before after s) before after 0 0 script ∧
      ∀ other, Replays (given classify before after s) before after 0 0 other →
        scriptCost script ≤ scriptCost other := by
  refine ⟨fun i j hi hj => exists_given_eq classify s hi hj, ?_⟩
  obtain ⟨script, hscript, hreplays, hcost⟩ :=
    exists_replays_cost_eq (length_classifyAll classify before after s)
  refine ⟨script, hscript, hreplays, ?_⟩
  intro other hother
  have hle := hother.leastCost_le
  rw [leastCost_zero_zero] at hle
  rw [Nat.zero_add] at hle
  rw [hcost]
  exact hle

/-- A number in front of the others costs one insertion. -/
theorem align?_replays_least_numbers :
    (align? (fun x y => (pure (.ofAgreement (x = y) true) : StateM Unit Verdict)) [1, 2] [3, 1, 2]
      ()).1 = some [.insert 3, .equal, .equal] ∧
      ∀ other, Replays (given (fun x y => (pure (.ofAgreement (x = y) true) : StateM Unit Verdict))
        [1, 2] [3, 1, 2] ()) [1, 2] [3, 1, 2] 0 0 other → 2 ≤ scriptCost other := by
  obtain ⟨-, script, hscript, -, hleast⟩ := align?_replays_least
    (fun x y => (pure (.ofAgreement (x = y) true) : StateM Unit Verdict)) [1, 2] [3, 1, 2] ()
  have hchosen : (align? (fun x y => (pure (.ofAgreement (x = y) true) : StateM Unit Verdict))
      [1, 2] [3, 1, 2] ()).1 = some [.insert 3, .equal, .equal] := by
    decide +kernel
  rw [hchosen] at hscript
  cases hscript
  exact ⟨hchosen, fun other hother => hleast other hother⟩

end StorageUpgrade.Alignment
