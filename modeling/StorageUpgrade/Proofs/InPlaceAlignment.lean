import StorageUpgrade.Proofs.OrderedMatchings

/-!
# Alignments in place

Any number of items may be changed where they are, and others appended, in one upgrade. As long as
no matching in order keeps more equal items than the positions themselves do, the chosen alignment
is the one in place: all others cost more, or insert what this one appends.
-/

namespace StorageUpgrade.Alignment

variable {α σ : Type}

/-- The number of items that are equal to those at their own positions. -/
def countInPlace (verdict : Nat → Nat → Verdict) (rows : Nat) : Nat :=
  (List.range rows).countP fun k => verdict k k = .equal

variable {verdict : Nat → Nat → Verdict} {before after : List α}

/-! ## The script in place is valid -/

theorem replays_appends {j : Nat} (hj : j ≤ after.length) :
    Replays verdict before after before.length j ((after.drop j).map .append) := by
  induction h : after.length - j generalizing j with
  | zero =>
    obtain rfl : j = after.length := by omega
    rw [List.drop_length]
    exact .done
  | succ n ih =>
    have hlt : j < after.length := by omega
    rw [List.drop_eq_getElem_cons hlt]
    exact .append hlt (ih hlt (by omega))

/-- From any position on, the items can be paired in place. -/
theorem exists_replays_keepsPlace (verdict : Nat → Nat → Verdict)
    (hle : before.length ≤ after.length) {i : Nat} (hi : i ≤ before.length) :
    ∃ script, Replays verdict before after i i script ∧
      (∀ edit ∈ script, edit.keepsPlace = true) ∧
      script.countP Edit.isEqual =
        (List.range' i (before.length - i)).countP fun k => verdict k k = .equal := by
  induction h : before.length - i generalizing i with
  | zero =>
    obtain rfl : i = before.length := by omega
    refine ⟨_, replays_appends hle, ?_, ?_⟩
    · intro edit hedit
      obtain ⟨y, -, rfl⟩ := List.mem_map.1 hedit
      rfl
    · rw [List.countP_map]
      exact List.countP_eq_zero.2 fun y _ => Bool.false_ne_true
  | succ n ih =>
    have hlt : i < before.length := by omega
    obtain ⟨later, hreplays, hkeeps, hcount⟩ := ih hlt (by omega)
    refine ⟨_, .pair hlt (Nat.lt_of_lt_of_le hlt hle) hreplays, ?_, ?_⟩
    · refine List.forall_mem_cons.2 ⟨?_, hkeeps⟩
      cases verdict i i <;> rfl
    · rw [List.range'_succ, List.countP_cons, List.countP_cons, Edit.isEqual_pair, hcount]

theorem countP_isDelete_of_keepsPlace {script : List (Edit α)}
    (h : ∀ edit ∈ script, edit.keepsPlace = true) : script.countP Edit.isDelete = 0 := by
  refine List.countP_eq_zero.2 fun edit hedit hdelete => ?_
  have hkeeps := h edit hedit
  cases edit with
  | delete => cases hkeeps
  | _ => cases hdelete

theorem Edit.keepsPlace_of_not {edit : Edit α} (hdelete : ¬ edit.isDelete = true)
    (haddition : ¬ edit.isAddition = true) : edit.keepsPlace = true := by
  cases edit with
  | delete => exact absurd rfl hdelete
  | insert => exact absurd rfl haddition
  | _ => rfl

/-- Of valid scripts for the same lists, those cost more that delete more or keep less. -/
theorem Replays.scriptCost_add_isEqual {script : List (Edit α)}
    (h : Replays verdict before after 0 0 script) :
    scriptCost script + 3 * script.countP Edit.isEqual =
      before.length + 2 * after.length + script.countP Edit.isDelete := by
  have hpairs := scriptCost_add_pairs script
  have htakes := h.countP_takes
  have hkinds := countP_kinds script
  omega

/-- A script that deletes nothing and ends in as many appends as there are items to add keeps all
places. -/
theorem Replays.keepsPlace_of_appends {script : List (Edit α)}
    (h : Replays verdict before after 0 0 script) (hdelete : script.countP Edit.isDelete = 0)
    (happends : (after.drop before.length).map .append <:+ script) :
    ∀ edit ∈ script, edit.keepsPlace = true := by
  have htakes := h.countP_takes
  have hkinds := countP_kinds script
  obtain ⟨front, rfl⟩ := happends
  have hadditions : ((after.drop before.length).map Edit.append).countP Edit.isAddition =
      after.length - before.length := by
    rw [List.countP_map, ← List.length_drop]
    exact List.countP_eq_length.2 fun y _ => rfl
  rw [List.countP_append (p := Edit.isAddition), hadditions] at hkinds
  have hfront : front.countP Edit.isAddition = 0 := by omega
  intro edit hedit
  rcases List.mem_append.1 hedit with hmem | hmem
  · exact Edit.keepsPlace_of_not (List.countP_eq_zero.1 hdelete edit hedit)
      (List.countP_eq_zero.1 hfront edit hmem)
  · obtain ⟨y, -, rfl⟩ := List.mem_map.1 hmem
    rfl

/-! ## What is chosen -/

section

variable (classify : α → α → StateM σ Verdict) (before after : List α) (s : σ)

/-- The chosen script moves nothing if no matching keeps more than the positions do. -/
theorem keepsPlace_align (hle : before.length ≤ after.length)
    (hmost : ∀ pairs, InOrder before.length after.length pairs →
      countEqual (given classify before after s) pairs ≤
        countInPlace (given classify before after s) before.length) :
    ∀ edit ∈ (align classify before after s).1, edit.keepsPlace = true := by
  have hleast := (cheapest_align classify before after s).least
  have hreplays := replays_align classify before after s
  have hcost := hreplays.scriptCost_add_isEqual
  obtain ⟨pairs, hmatching, -, hequal⟩ := hreplays.exists_inOrder
  have hfew := hmost pairs hmatching
  obtain ⟨script, hscript, hkeeps, hequal'⟩ := exists_replays_keepsPlace
    (given classify before after s) hle (Nat.zero_le before.length)
  have hcost' := hscript.scriptCost_add_isEqual
  rw [Nat.sub_zero, ← List.range_eq_range', ← countInPlace] at hequal'
  rw [countP_isDelete_of_keepsPlace hkeeps] at hcost'
  have hle' := hleast script hscript
  -- The chosen script keeps no more items than the positions do, so it cannot afford a deletion.
  have hdelete : (align classify before after s).1.countP Edit.isDelete = 0 := by omega
  have hsame : scriptCost script = scriptCost (align classify before after s).1 := by omega
  have hcheapest : Cheapest (given classify before after s) before after script :=
    ⟨hscript, fun other hother => by rw [hsame]; exact hleast other hother⟩
  obtain ⟨-, rfl⟩ := hscript.eq_inPlace hkeeps
  have happends := appends_suffix_align classify before after s hcheapest (List.suffix_append _ _)
  exact hreplays.keepsPlace_of_appends hdelete happends

end

/-- Where no matching in order has more equal pairs than there are items that are equal to those at
their own positions, the chosen script pairs all items in place, each with the verdict on it, and
appends the others. -/
theorem align?_inPlace (classify : α → α → StateM σ Verdict) (before after : List α) (s : σ)
    (hle : before.length ≤ after.length)
    (hmost : ∀ pairs, InOrder before.length after.length pairs →
      countEqual (given classify before after s) pairs ≤
        countInPlace (given classify before after s) before.length) :
    (align? classify before after s).1 =
        some (inPlace (given classify before after s) before after) ∧
      ∀ edit ∈ inPlace (given classify before after s) before after, edit.keepsPlace = true := by
  have hkeeps := keepsPlace_align classify before after s hle hmost
  obtain ⟨-, hscript⟩ := (replays_align classify before after s).eq_inPlace hkeeps
  rw [align?_eq, ← hscript]
  exact ⟨rfl, hkeeps⟩

def threeFields : List (String × String) := [("a", "t"), ("b", "u"), ("c", "v")]

/-- The first field is kept, the second renamed, the third gets another type, and one is new. -/
def fourFields : List (String × String) := [("a", "t"), ("x", "u"), ("c", "w"), ("d", "p")]

theorem align?_inPlace_fields :
    (∀ pairs, InOrder threeFields.length fourFields.length pairs →
      countEqual (given compareNamed threeFields fourFields ()) pairs ≤
        countInPlace (given compareNamed threeFields fourFields ()) threeFields.length) ∧
    (align? compareNamed threeFields fourFields ()).1 = some [.equal,
      .rename ("b", "u") ("x", "u"), .typeChange ("c", "v") ("c", "w"), .append ("d", "p")] := by
  have hcost : leastCost (given compareNamed threeFields fourFields ()) threeFields.length
      fourFields.length = 8 := by
    rw [← scriptCost_align]
    decide +kernel
  have hinPlace : countInPlace (given compareNamed threeFields fourFields ())
      threeFields.length = 1 := by
    decide +kernel
  have hmost : ∀ pairs, InOrder threeFields.length fourFields.length pairs →
      countEqual (given compareNamed threeFields fourFields ()) pairs ≤
        countInPlace (given compareNamed threeFields fourFields ()) threeFields.length := by
    intro pairs hpairs
    have hle : leastCost (given compareNamed threeFields fourFields ()) threeFields.length
        fourFields.length + 4 * countEqual (given compareNamed threeFields fourFields ()) pairs ≤
          2 * (3 + 4) := hpairs.leastCost_le
    omega
  obtain ⟨hscript, -⟩ := align?_inPlace compareNamed threeFields fourFields () (by decide) hmost
  have hchosen : inPlace (given compareNamed threeFields fourFields ()) threeFields fourFields =
      [.equal, .rename ("b", "u") ("x", "u"), .typeChange ("c", "v") ("c", "w"),
        .append ("d", "p")] := by
    decide +kernel
  rw [hchosen] at hscript
  exact ⟨hmost, hscript⟩

end StorageUpgrade.Alignment
