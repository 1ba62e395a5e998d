import Mathlib.Order.Fin.Basic
import StorageUpgrade.Proofs.TieBreaking

/-!
# Matchings in order

A matching in order pairs positions of two lists without crossing. The equal pairs of a valid script
are such a matching, and a matching with many equal pairs makes a cheap script possible. So what is
only removed is reported as removed: if the second list stands in order within the first, nothing is
chosen but to keep its items and to delete the others, and likewise for insertions.
-/

namespace StorageUpgrade.Alignment

variable {α σ : Type}

/-- Pairs of positions, each behind the pairs in front of it in both lists. -/
structure InOrder (rows columns : Nat) (pairs : List (Nat × Nat)) : Prop where
  inside : ∀ p ∈ pairs, p.1 < rows ∧ p.2 < columns
  ordered : pairs.Pairwise fun p q => p.1 < q.1 ∧ p.2 < q.2

def countEqual (verdict : Nat → Nat → Verdict) (pairs : List (Nat × Nat)) : Nat :=
  pairs.countP fun p => verdict p.1 p.2 = .equal

variable {verdict : Nat → Nat → Verdict}

/-! ## What a matching saves -/

theorem leastCost_add_left_le (verdict : Nat → Nat → Verdict) (i j a : Nat) :
    leastCost verdict (i + a) j ≤ leastCost verdict i j + deletionCost * a := by
  induction a with
  | zero => exact Nat.le_refl _
  | succ a ih =>
    have hdelete := leastCost_delete_le verdict (i + a) j
    rw [Nat.mul_succ, ← Nat.add_assoc i]
    omega

theorem leastCost_add_le (verdict : Nat → Nat → Verdict) (i j a b : Nat) :
    leastCost verdict (i + a) (j + b) ≤
      leastCost verdict i j + deletionCost * a + insertionCost * b := by
  induction b with
  | zero => exact leastCost_add_left_le verdict i j a
  | succ b ih =>
    have hinsert := leastCost_insert_le verdict (i + a) (j + b)
    rw [Nat.mul_succ, ← Nat.add_assoc j]
    omega

theorem InOrder.init {rows columns : Nat} {pairs : List (Nat × Nat)} {p : Nat × Nat}
    (h : InOrder rows columns (pairs ++ [p])) : InOrder p.1 p.2 pairs := by
  obtain ⟨hpairs, -, hbefore⟩ := List.pairwise_append.1 h.ordered
  exact ⟨fun q hq => hbefore q hq p (List.mem_singleton.2 rfl), hpairs⟩

/-- Every equal pair of a matching saves an insertion and a deletion. -/
theorem InOrder.leastCost_le {rows columns : Nat} {pairs : List (Nat × Nat)}
    (h : InOrder rows columns pairs) :
    leastCost verdict rows columns + 4 * countEqual verdict pairs ≤ 2 * (rows + columns) := by
  induction pairs using List.reverseRecOn generalizing rows columns with
  | nil =>
    have hle := leastCost_add_le verdict 0 0 rows columns
    simp only [leastCost_zero_zero, Nat.zero_add, deletionCost, insertionCost] at hle
    simp only [countEqual, List.countP_nil]
    omega
  | append_singleton pairs p ih =>
    obtain ⟨hi, hj⟩ := h.inside p (List.mem_append_right _ (List.mem_singleton.2 rfl))
    obtain ⟨a, rfl⟩ := Nat.exists_eq_add_of_le (Nat.succ_le_of_lt hi)
    obtain ⟨b, rfl⟩ := Nat.exists_eq_add_of_le (Nat.succ_le_of_lt hj)
    have hinit := ih h.init
    have hrest := leastCost_add_le verdict (p.1 + 1) (p.2 + 1) a b
    have hpair := leastCost_add_le verdict p.1 p.2 1 1
    simp only [deletionCost, insertionCost, Nat.succ_eq_add_one] at hrest hpair ⊢
    rw [countEqual, List.countP_append, List.countP_singleton, ← countEqual]
    by_cases hequal : verdict p.1 p.2 = .equal
    · rw [leastCost_of_equal verdict hequal] at hrest
      simp only [hequal, decide_true, if_true]
      omega
    · simp only [hequal, decide_false, Bool.false_eq_true, if_false]
      omega

/-! ## The matching of a script -/

section

variable {before after : List α}

theorem Edit.isEqual_pair (verdict : Verdict) (x y : α) :
    (pair verdict x y).isEqual = decide (verdict = .equal) := by
  cases verdict <;> rfl

/-- The equal pairs of a valid script are those of a matching. -/
theorem Replays.exists_inOrder {i j : Nat} {script : List (Edit α)}
    (h : Replays verdict before after i j script) :
    ∃ pairs, InOrder before.length after.length pairs ∧ (∀ p ∈ pairs, i ≤ p.1 ∧ j ≤ p.2) ∧
      countEqual verdict pairs = script.countP Edit.isEqual := by
  induction h with
  | done => exact ⟨[], ⟨List.forall_mem_nil _, .nil⟩, List.forall_mem_nil _, rfl⟩
  | @pair i j later hi hj _ ih =>
    obtain ⟨pairs, hpairs, hfrom, hcount⟩ := ih
    refine ⟨(i, j) :: pairs, ⟨?_, ?_⟩, ?_, ?_⟩
    · exact List.forall_mem_cons.2 ⟨⟨hi, hj⟩, hpairs.inside⟩
    · exact List.pairwise_cons.2 ⟨hfrom, hpairs.ordered⟩
    · refine List.forall_mem_cons.2 ⟨⟨Nat.le_refl i, Nat.le_refl j⟩, fun p hp => ?_⟩
      exact (hfrom p hp).imp Nat.le_of_succ_le Nat.le_of_succ_le
    · rw [countEqual, List.countP_cons, List.countP_cons, Edit.isEqual_pair, ← hcount]
      rfl
  | delete _ _ ih =>
    obtain ⟨pairs, hpairs, hfrom, hcount⟩ := ih
    exact ⟨pairs, hpairs, fun p hp => (hfrom p hp).imp_left Nat.le_of_succ_le, hcount⟩
  | insert _ _ _ ih | append _ _ ih =>
    obtain ⟨pairs, hpairs, hfrom, hcount⟩ := ih
    exact ⟨pairs, hpairs, fun p hp => (hfrom p hp).imp_right Nat.le_of_succ_le, hcount⟩

end

/-! ## Lists within each other -/

namespace Edit

def isDelete : Edit α → Bool
  | delete _ => true
  | _ => false

/-- Whether an edit consumes an item of the second list alone. -/
def isAddition : Edit α → Bool
  | insert _ | append _ => true
  | _ => false

theorem isEqual_or_isChange_or (edit : Edit α) : edit.isEqual = true ∨ edit.isChange = true ∨
    edit.isDelete = true ∨ edit.isAddition = true := by
  cases edit <;> simp [isEqual, isChange, isDelete, isAddition]

theorem isEqual_or_of_mem {script : List (Edit α)} (hchanges : script.countP isChange = 0)
    {edit : Edit α} (hedit : edit ∈ script) :
    edit.isEqual = true ∨ edit.isDelete = true ∨ edit.isAddition = true := by
  rcases edit.isEqual_or_isChange_or with hequal | hchange | hother
  · exact .inl hequal
  · exact absurd hchange (List.countP_eq_zero.1 hchanges edit hedit)
  · exact .inr hother

end Edit

/-- What consumes an item of the first list pairs or deletes it, and what consumes one of the
second pairs or adds it. -/
theorem countP_kinds (script : List (Edit α)) :
    script.countP Edit.isEqual + script.countP Edit.isChange + script.countP Edit.isDelete =
        script.countP Edit.takesBefore ∧
      script.countP Edit.isEqual + script.countP Edit.isChange + script.countP Edit.isAddition =
        script.countP Edit.takesAfter := by
  induction script with
  | nil => exact ⟨rfl, rfl⟩
  | cons edit script ih =>
    cases edit <;>
      simp only [List.countP_cons, Edit.isEqual, Edit.isChange, Edit.isDelete, Edit.isAddition,
        Edit.takesBefore, Edit.takesAfter, if_true, Bool.false_eq_true, if_false] <;>
      omega

/-- The items of a list stand in order among those of another, each beside its counterpart. -/
def Embeds (same : Nat → Nat → Prop) (size size' : Nat) : Prop :=
  ∃ f : Fin size → Fin size', StrictMono f ∧ ∀ k : Fin size, same k (f k)

/-- Items that stand in order in both lists save what a matching of them saves. -/
theorem leastCost_le_of_strictMono {rows columns size : Nat} {f : Fin size → Fin rows}
    {g : Fin size → Fin columns} (hf : StrictMono f) (hg : StrictMono g)
    (hequal : ∀ k, verdict (f k) (g k) = .equal) :
    leastCost verdict rows columns + 4 * size ≤ 2 * (rows + columns) := by
  have hmatching : InOrder rows columns
      ((List.finRange size).map fun k => ((f k : Nat), (g k : Nat))) := by
    constructor
    · intro p hp
      obtain ⟨k, -, rfl⟩ := List.mem_map.1 hp
      exact ⟨(f k).isLt, (g k).isLt⟩
    · rw [List.pairwise_map]
      exact (List.pairwise_lt_finRange size).imp fun hlt => ⟨hf hlt, hg hlt⟩
  have hcount : countEqual verdict
      ((List.finRange size).map fun k => ((f k : Nat), (g k : Nat))) = size := by
    rw [countEqual, List.countP_map, List.countP_eq_length.2, List.length_finRange]
    exact fun k _ => decide_eq_true (hequal k)
  have hle : leastCost verdict rows columns + 4 * countEqual verdict
      ((List.finRange size).map fun k => ((f k : Nat), (g k : Nat))) ≤ 2 * (rows + columns) :=
    hmatching.leastCost_le
  rwa [hcount] at hle

/-! ## What is chosen for lists within each other -/

section

variable (classify : α → α → StateM σ Verdict) (before after : List α) (s : σ)

/-- If the second list stands in order within the first, its items are kept and the others are
deleted. If the first list stands in order within the second, its items are kept and the others are
inserted or appended. -/
theorem align?_of_embeds :
    (Embeds (fun j i => given classify before after s i j = .equal) after.length before.length →
      ∃ script, (align? classify before after s).1 = some script ∧
        after.length ≤ before.length ∧
        script.countP Edit.isEqual = after.length ∧
        script.countP Edit.isDelete = before.length - after.length ∧
        ∀ edit ∈ script, edit.isEqual = true ∨ edit.isDelete = true) ∧
    (Embeds (fun i j => given classify before after s i j = .equal) before.length after.length →
      ∃ script, (align? classify before after s).1 = some script ∧
        before.length ≤ after.length ∧
        script.countP Edit.isEqual = before.length ∧
        script.countP Edit.isAddition = after.length - before.length ∧
        ∀ edit ∈ script, edit.isEqual = true ∨ edit.isAddition = true) := by
  have hcost := scriptCost_align classify before after s
  have hpairs := scriptCost_add_pairs (align classify before after s).1
  have htakes := (replays_align classify before after s).countP_takes
  have hkinds := countP_kinds (align classify before after s).1
  constructor
  · rintro ⟨f, hf, hequal⟩
    have hleast := leastCost_le_of_strictMono hf strictMono_id hequal
    -- Whatever is changed or added costs more than the deletions that cannot be spared.
    have hchanges : (align classify before after s).1.countP Edit.isChange = 0 := by omega
    have hadditions : (align classify before after s).1.countP Edit.isAddition = 0 := by omega
    refine ⟨_, congrArg Prod.fst (align?_eq classify before after s), ?_, ?_, ?_, ?_⟩
    · omega
    · omega
    · omega
    · intro edit hedit
      exact (Edit.isEqual_or_of_mem hchanges hedit).imp_right fun hother =>
        hother.resolve_right (List.countP_eq_zero.1 hadditions edit hedit)
  · rintro ⟨f, hf, hequal⟩
    have hleast := leastCost_le_of_strictMono strictMono_id hf hequal
    have hchanges : (align classify before after s).1.countP Edit.isChange = 0 := by omega
    have hdeletes : (align classify before after s).1.countP Edit.isDelete = 0 := by omega
    refine ⟨_, congrArg Prod.fst (align?_eq classify before after s), ?_, ?_, ?_, ?_⟩
    · omega
    · omega
    · omega
    · intro edit hedit
      exact (Edit.isEqual_or_of_mem hchanges hedit).imp_right fun hother =>
        hother.resolve_left (List.countP_eq_zero.1 hdeletes edit hedit)

end

def outerItems : List (String × String) := [("a", "t"), ("c", "v")]

/-- The outer items, and one between them. -/
def allItems : List (String × String) := [("a", "t"), ("b", "u"), ("c", "v")]

/-- The item in the middle is deleted on one way, and inserted on the way back. -/
theorem align?_of_embeds_middle :
    (∃ script, (align? compareNamed allItems outerItems ()).1 = some script ∧
      script.countP Edit.isEqual = 2 ∧ script.countP Edit.isDelete = 1 ∧
      ∀ edit ∈ script, edit.isEqual = true ∨ edit.isDelete = true) ∧
    ∃ script, (align? compareNamed outerItems allItems ()).1 = some script ∧
      script.countP Edit.isEqual = 2 ∧ script.countP Edit.isAddition = 1 ∧
      ∀ edit ∈ script, edit.isEqual = true ∨ edit.isAddition = true := by
  have hbound : ∀ k < 2, 2 * k < 3 := by decide
  have hmono : StrictMono fun k : Fin 2 => (⟨2 * k, hbound k k.isLt⟩ : Fin 3) :=
    fun k l hlt => Nat.mul_lt_mul_of_pos_left hlt (by decide)
  have hdeleted : ∀ k : Fin 2, given compareNamed allItems outerItems () (2 * k) k = .equal := by
    decide +kernel
  have hadded : ∀ k : Fin 2, given compareNamed outerItems allItems () k (2 * k) = .equal := by
    decide +kernel
  obtain ⟨script, hscript, -, hequal, hdelete, hkinds⟩ :=
    (align?_of_embeds compareNamed allItems outerItems ()).1 ⟨_, hmono, hdeleted⟩
  obtain ⟨script', hscript', -, hequal', haddition, hkinds'⟩ :=
    (align?_of_embeds compareNamed outerItems allItems ()).2 ⟨_, hmono, hadded⟩
  exact ⟨⟨script, hscript, hequal, hdelete, hkinds⟩,
    ⟨script', hscript', hequal', haddition, hkinds'⟩⟩

end StorageUpgrade.Alignment
