import StorageUpgrade.Proofs.Replay

/-!
# Scripts in place

An insertion or a deletion moves whatever comes behind it. A valid script without them pairs every
item of the first list with the item at the same position of the second, and appends the others:
there is one such script for given verdicts. When it is the one that is chosen is not said here.
-/

namespace StorageUpgrade.Alignment

variable {α β : Type}

namespace Edit

/-- Whether an edit leaves the items behind it at their positions. -/
def keepsPlace : Edit α → Bool
  | insert _ | delete _ => false
  | _ => true

theorem keepsPlace_of_isSafe {edit : Edit α} (h : edit.isSafe = true) :
    edit.keepsPlace = true := by
  cases edit with
  | insert => cases h
  | delete => cases h
  | _ => rfl

@[simp]
theorem keepsPlace_map (f : α → β) (edit : Edit α) :
    (edit.map f).keepsPlace = edit.keepsPlace := by
  cases edit <;> rfl

theorem map_pair (f : α → β) (verdict : Verdict) (x y : α) :
    (pair verdict x y).map f = pair verdict (f x) (f y) := by
  cases verdict <;> rfl

end Edit

/-- Pairs the items at the same positions, and appends those behind the first list. -/
def inPlace (verdict : Nat → Nat → Verdict) (before after : List α) : List (Edit α) :=
  (before.zip after).mapIdx (fun k pair => .pair (verdict k k) pair.1 pair.2) ++
    (after.drop before.length).map .append

variable {verdict : Nat → Nat → Verdict} {before after : List α}

theorem mem_inPlace {k : Nat} (hk : k < before.length) (hk' : k < after.length) :
    .pair (verdict k k) before[k] after[k] ∈ inPlace verdict before after := by
  refine List.mem_append_left _ (List.mem_mapIdx.2 ⟨k, ?_, ?_⟩)
  · rw [List.length_zip]
    exact Nat.lt_min.2 ⟨hk, hk'⟩
  · rw [List.getElem_zip]

/-- Where all items are equal, nothing is left to tell of the first list but its length. -/
theorem inPlace_of_equal (hle : before.length ≤ after.length)
    (hequal : ∀ k < before.length, verdict k k = .equal) :
    inPlace verdict before after =
      List.replicate before.length .equal ++ (after.drop before.length).map .append := by
  have hlength : (before.zip after).length = before.length := by
    rw [List.length_zip, Nat.min_eq_left hle]
  rw [inPlace, ← hlength]
  refine congrArg (· ++ _) (List.mapIdx_eq_replicate_iff.2 fun k hk => ?_)
  rw [hequal k (hlength ▸ hk)]
  rfl

/-! ## Valid scripts in place -/

/-- Behind the first list there is nothing to do but to append. -/
theorem Replays.eq_appends {i j : Nat} {script : List (Edit α)}
    (h : Replays verdict before after i j script) (hi : i = before.length) :
    script = (after.drop j).map .append := by
  induction h with
  | done => rw [List.drop_length, List.map_nil]
  | pair hlt => exact absurd hi (Nat.ne_of_lt hlt)
  | delete hlt => exact absurd hi (Nat.ne_of_lt hlt)
  | insert hlt => exact absurd hi (Nat.ne_of_lt hlt)
  | append hj _ ih => rw [List.drop_eq_getElem_cons hj, List.map_cons, ← ih rfl]

/-- Edits that keep places advance on both lists together, until the first has ended. -/
theorem Replays.eq_pairs_append {i j : Nat} {script : List (Edit α)}
    (h : Replays verdict before after i j script)
    (hkeeps : ∀ edit ∈ script, edit.keepsPlace = true) (hij : i = j) :
    before.length ≤ after.length ∧
      script = ((before.drop i).zip (after.drop j)).mapIdx
          (fun k pair => .pair (verdict (i + k) (j + k)) pair.1 pair.2) ++
        (after.drop before.length).map .append := by
  induction h with
  | done => exact ⟨Nat.le_of_eq hij, by simp [hij]⟩
  | @pair i j later hi hj _ ih =>
    subst hij
    rw [List.forall_mem_cons] at hkeeps
    obtain ⟨hle, hlater⟩ := ih hkeeps.2 rfl
    refine ⟨hle, ?_⟩
    rw [List.drop_eq_getElem_cons hi, List.drop_eq_getElem_cons hj, List.zip_cons_cons,
      List.mapIdx_cons, List.cons_append]
    simp only [Nat.add_zero, ← Nat.add_assoc, Nat.add_right_comm] at hlater ⊢
    rw [← hlater]
  | delete => exact absurd (hkeeps _ List.mem_cons_self) Bool.false_ne_true
  | insert => exact absurd (hkeeps _ List.mem_cons_self) Bool.false_ne_true
  | @append j later hj hlater _ =>
    have hscript := (Replays.append hj hlater).eq_appends rfl
    subst hij
    refine ⟨Nat.le_of_lt hj, ?_⟩
    rw [List.drop_length, List.zip_nil_left, List.mapIdx_nil, List.nil_append]
    exact hscript

theorem Replays.eq_inPlace {script : List (Edit α)} (h : Replays verdict before after 0 0 script)
    (hkeeps : ∀ edit ∈ script, edit.keepsPlace = true) :
    before.length ≤ after.length ∧ script = inPlace verdict before after := by
  obtain ⟨hle, hscript⟩ := h.eq_pairs_append hkeeps rfl
  simp only [Nat.zero_add, List.drop_zero] at hscript
  exact ⟨hle, hscript⟩

/-! ## The chosen script -/

section

variable {σ : Type} (classify : α → α → StateM σ Verdict) (before after : List α) (s : σ)

theorem script?_classifyAll :
    script? (classifyAll classify before after s).1 before after =
      some (align classify before after s).1 :=
  congrArg Prod.fst (align?_eq classify before after s)

theorem replays_align :
    Replays (given classify before after s) before after 0 0
      (align classify before after s).1 := by
  obtain ⟨script, hscript, hreplays, -⟩ :=
    exists_replays_cost_eq (length_classifyAll classify before after s)
  rw [script?_classifyAll] at hscript
  cases hscript
  exact hreplays

end

end StorageUpgrade.Alignment
