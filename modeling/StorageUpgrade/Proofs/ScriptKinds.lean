import StorageUpgrade.Proofs.InPlaceScripts

/-!
# Kinds of edits

Which edits are chosen depends on the verdicts and on the lengths of the lists alone: the items are
only copied into the edits. So two alignments with the same verdicts have the same kinds of edits.
-/

namespace StorageUpgrade.Alignment

variable {α β : Type}

/-- An edit without its items. -/
def Edit.kind (edit : Edit α) : Edit Unit := edit.map fun _ => ()

@[simp]
theorem Edit.kind_map (f : α → β) (edit : Edit α) : (edit.map f).kind = edit.kind := by
  cases edit <;> rfl

/-! ## Walking over other items -/

section

variable (f : α → β)

namespace CostMatrix

variable (matrix : CostMatrix)

theorem lastEdit?_map (before after : Array α) (i j : Nat) :
    matrix.lastEdit? (before.map f) (after.map f) i j =
      (matrix.lastEdit? before after i j).map fun last => (last.1.map f, last.2) := by
  unfold lastEdit?
  cases matrix.insertionFits? i j with
  | none => rfl
  | some inserts =>
    cases matrix.fittingVerdict? i j with
    | none => rfl
    | some pairing =>
      simp only [Option.bind_eq_bind, Option.bind_some]
      split
      · simp only [Array.getElem?_map, Option.map_bind, Option.bind_map, Function.comp_def,
          Option.pure_def, Option.map_some, Edit.map_pair]
      · split
        · simp only [Array.getElem?_map, Option.map_bind, Option.bind_map, Function.comp_def,
            Option.pure_def, Option.map_some, apply_ite (Edit.map f)]
          rfl
        · simp only [Array.getElem?_map, Option.map_bind, Option.bind_map, Function.comp_def,
            Option.pure_def, Option.map_some, Edit.map]

theorem walk?_map (before after : Array α) (i j : Nat) (later : List (Edit α)) :
    matrix.walk? (before.map f) (after.map f) i j (later.map (Edit.map f)) =
      (matrix.walk? before after i j later).map (List.map (Edit.map f)) := by
  fun_induction walk? matrix before after i j later with
  | case1 i j later h =>
    rw [walk?, if_pos h]
    rfl
  | case2 i j later h hlast =>
    have hlast' := lastEdit?_map f matrix before after i j
    rw [hlast] at hlast'
    rw [walk?, if_neg h]
    split
    next => rfl
    next heq => rw [hlast'] at heq; cases heq
  | case3 i j later h edit i' j' hlast ih =>
    have hlast' := lastEdit?_map f matrix before after i j
    rw [hlast] at hlast'
    rw [walk?, if_neg h]
    split
    next heq => rw [hlast'] at heq; cases heq
    next heq => rw [hlast'] at heq; cases heq; exact ih

end CostMatrix

/-- Items that are replaced before aligning are replaced in the chosen script. -/
theorem script?_map (verdicts : List Verdict) (before after : List α) :
    script? verdicts (before.map f) (after.map f) =
      (script? verdicts before after).map (List.map (Edit.map f)) := by
  simp only [script?, List.length_map, Option.bind_eq_bind, Option.map_bind]
  congr 1
  funext matrix
  have hwalk := CostMatrix.walk?_map f matrix before.toArray after.toArray
    before.length after.length []
  simpa using hwalk

end

/-! ## The same verdicts on other items -/

/-- The verdicts on all pairs of positions are the whole list of verdicts. -/
theorem verdicts_ext {rows columns : Nat} {verdicts verdicts' : List Verdict}
    (h : verdicts.length = rows * columns) (h' : verdicts'.length = rows * columns)
    (hsame : ∀ i < rows, ∀ j < columns,
      verdictAt verdicts columns i j = verdictAt verdicts' columns i j) :
    verdicts = verdicts' := by
  apply List.ext_getElem?
  intro k
  by_cases hk : k < rows * columns
  · have hcolumns : 0 < columns := Nat.pos_of_mul_pos_left (Nat.zero_lt_of_lt hk)
    have hi : k / columns < rows := Nat.div_lt_of_lt_mul (by rwa [Nat.mul_comm])
    have hj : k % columns < columns := Nat.mod_lt k hcolumns
    have hplace : k / columns * columns + k % columns = k := Nat.div_add_mod' k columns
    have hleft := getElem?_of_length_eq h hi hj
    have hright := getElem?_of_length_eq h' hi hj
    rw [hplace] at hleft hright
    rw [hleft, hright, hsame _ hi _ hj]
  · rw [List.getElem?_eq_none (by omega), List.getElem?_eq_none (by omega)]

/-- The kinds of the chosen edits depend on the lengths of the lists and on the verdicts alone. -/
theorem map_kind_align {σ τ : Type} {classify : α → α → StateM σ Verdict}
    {classify' : β → β → StateM τ Verdict} {before after : List α} {before' after' : List β}
    {s : σ} {t : τ} (hbefore : before.length = before'.length)
    (hafter : after.length = after'.length)
    (hsame : ∀ i < before.length, ∀ j < after.length,
      given classify before after s i j = given classify' before' after' t i j) :
    (align classify before after s).1.map Edit.kind =
      (align classify' before' after' t).1.map Edit.kind := by
  have hverdicts : (classifyAll classify before after s).1 =
      (classifyAll classify' before' after' t).1 := by
    refine verdicts_ext (length_classifyAll classify before after s) ?_ ?_
    · rw [hbefore, hafter]
      exact length_classifyAll classify' before' after' t
    · intro i hi j hj
      have hij := hsame i hi j hj
      rw [given, given, ← hafter] at hij
      exact hij
  have hunits : ∀ {γ : Type} (items : List γ),
      items.map (fun _ => ()) = List.replicate items.length () :=
    fun items => List.map_const' ..
  have hleft := script?_map (fun _ => ()) (classifyAll classify before after s).1 before after
  have hright := script?_map (fun _ => ()) (classifyAll classify' before' after' t).1 before' after'
  rw [script?_classifyAll, hunits, hunits] at hleft hright
  rw [hverdicts, hbefore, hafter, hright] at hleft
  exact (Option.some.inj hleft).symm

end StorageUpgrade.Alignment
