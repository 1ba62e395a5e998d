import Mathlib.Tactic.ByContra
import StorageUpgrade.Proofs.InPlaceScripts

/-!
# Safe alignments

An alignment is safe if every item of the first list keeps its place and its meaning. The chosen
alignment is safe exactly if the first list is equal, item by item, to the beginning of the second:
then nothing but appending is chosen behind the first list, and nothing but equality within it.
-/

namespace StorageUpgrade.Alignment

variable {α : Type}

/-- The first `rows` items are equal to the items at the same positions among `columns` items. -/
structure Positional (verdict : Nat → Nat → Verdict) (rows columns : Nat) : Prop where
  le : rows ≤ columns
  equal : ∀ i < rows, verdict i i = .equal

theorem isSafe_pair_iff {verdict : Verdict} {x y : α} :
    (Edit.pair verdict x y).isSafe = true ↔ verdict = .equal := by
  cases verdict <;> simp [Edit.pair, Edit.isSafe]

variable {verdict : Nat → Nat → Verdict} {before after : List α}

/-! ## What is chosen for equal items -/

namespace Positional

section

variable {rows columns : Nat}

theorem leastCost_self (h : Positional verdict rows columns) {k : Nat} (hk : k ≤ rows) :
    leastCost verdict k k = 0 := by
  induction k with
  | zero => exact leastCost_zero_zero verdict
  | succ k ih =>
    have hle := leastCost_pair_le verdict k k
    rw [h.equal k hk, ih (Nat.le_of_lt hk), Verdict.cost] at hle
    exact Nat.le_zero.1 hle

/-- Behind the first list only insertions are paid for. -/
theorem leastCost_add (h : Positional verdict rows columns) (k : Nat) :
    leastCost verdict rows (rows + k) = insertionCost * k := by
  have hge := insertionCost_mul_le_leastCost verdict rows (rows + k)
  rw [Nat.add_sub_cancel_left] at hge
  refine Nat.le_antisymm ?_ hge
  clear hge
  induction k with
  | zero => exact Nat.le_of_eq (h.leastCost_self (Nat.le_refl _))
  | succ k ih =>
    have hstep := leastCost_insert_le verdict rows (rows + k)
    rw [← Nat.add_assoc, Nat.mul_succ]
    exact Nat.le_trans hstep (Nat.add_le_add_right ih insertionCost)

theorem leastCost_succ (h : Positional verdict rows columns) {j : Nat} (hj : rows ≤ j) :
    leastCost verdict rows (j + 1) = leastCost verdict rows j + insertionCost := by
  obtain ⟨k, rfl⟩ := Nat.exists_eq_add_of_le hj
  rw [h.leastCost_add k, Nat.add_assoc, h.leastCost_add (k + 1), Nat.mul_succ]

end

/-- The walk is behind the first list, where it appends whatever else would fit, or at one position
in both lists, where it pairs equal items. -/
theorem isSafe_of_lastEdit (h : Positional verdict before.length after.length) {i j i' j' : Nat}
    {edit : Edit α} (hlast : LastEdit verdict before after i j edit i' j') (hij : i ≤ j)
    (hdiagonal : i < before.length → i = j) :
    edit.isSafe = true ∧ i' ≤ j' ∧ (i' < before.length → i' = j') := by
  have hinsertion : 0 < insertionCost := by decide
  have hdeletion : 0 < deletionCost := by decide
  cases hlast with
  | append hj hcost =>
    refine ⟨rfl, ?_, fun hlt => absurd hlt (Nat.lt_irrefl _)⟩
    by_contra hlt
    have heq : before.length = j' + 1 := by omega
    rw [← heq, h.leastCost_self (Nat.le_refl _)] at hcost
    omega
  | pair hi hj hcost hlater =>
    have heq : i' = j' := by
      by_contra hne
      have hend : i' + 1 = before.length := by omega
      apply hlater hend
      rw [hend]
      exact h.leastCost_succ (by omega)
    subst heq
    exact ⟨isSafe_pair_iff.2 (h.equal i' hi), Nat.le_refl _, fun _ => rfl⟩
  | insert hi hj hcost =>
    rw [hdiagonal hi, h.leastCost_self (by omega)] at hcost
    omega
  | delete hi hj hcost hpair hinsert =>
    -- Deleting costs something where nothing is to be paid, unless the walk is behind the list.
    have hbehind : i' + 1 ≠ j := by
      rintro rfl
      rw [h.leastCost_self hi] at hcost
      omega
    obtain ⟨l, rfl⟩ := Nat.exists_eq_add_of_lt (show i' + 1 < j by omega)
    have hend : i' + 1 = before.length := by omega
    refine absurd ?_ (hinsert (i' + 1 + l) rfl)
    rw [hend]
    exact h.leastCost_succ (Nat.le_add_right _ _)

end Positional

/-- The chosen alignment is safe exactly if the first list is equal to the beginning of the second,
position by position. -/
theorem isSafe_align_iff {σ : Type} (classify : α → α → StateM σ Verdict) (before after : List α)
    (s : σ) : (∀ edit ∈ (align classify before after s).1, edit.isSafe = true) ↔
      Positional (given classify before after s) before.length after.length := by
  constructor
  · intro hsafe
    obtain ⟨hle, hscript⟩ := (replays_align classify before after s).eq_inPlace
      fun edit hedit => Edit.keepsPlace_of_isSafe (hsafe edit hedit)
    refine ⟨hle, fun k hk => ?_⟩
    rw [hscript] at hsafe
    exact isSafe_pair_iff.1 (hsafe _ (mem_inPlace hk (Nat.lt_of_lt_of_le hk hle)))
  · intro h
    have hscript : ∃ script, script? (classifyAll classify before after s).1 before after =
        some script ∧ (0 ≤ 0 ∧ (0 < before.length → 0 = 0)) ∧
          ∀ edit ∈ script, edit.isSafe = true :=
      script?_induction (length_classifyAll classify before after s) (motive := fun i j later =>
        (i ≤ j ∧ (i < before.length → i = j)) ∧ ∀ edit ∈ later, edit.isSafe = true)
        ⟨⟨h.le, fun hlt => absurd hlt (Nat.lt_irrefl _)⟩, fun edit hedit => nomatch hedit⟩
        (fun hlast ⟨⟨hij, hdiagonal⟩, hlater⟩ => by
          obtain ⟨hsafe, hplace⟩ := h.isSafe_of_lastEdit hlast hij hdiagonal
          exact ⟨hplace, List.forall_mem_cons.2 ⟨hsafe, hlater⟩⟩)
    obtain ⟨script, hscript, -, hsafe⟩ := hscript
    rw [script?_classifyAll] at hscript
    cases hscript
    exact hsafe

/-- Where the first list is equal to the beginning of the second, nothing else is chosen but to
keep its items and to append the others. -/
theorem align_of_positional {σ : Type} {classify : α → α → StateM σ Verdict} {s : σ}
    (h : Positional (given classify before after s) before.length after.length) :
    (align classify before after s).1 =
      List.replicate before.length .equal ++ (after.drop before.length).map .append := by
  have hsafe := (isSafe_align_iff classify before after s).2 h
  obtain ⟨hle, hscript⟩ := (replays_align classify before after s).eq_inPlace
    fun edit hedit => Edit.keepsPlace_of_isSafe (hsafe edit hedit)
  rw [hscript, inPlace_of_equal hle h.equal]

end StorageUpgrade.Alignment
