import StorageUpgrade.Proofs.Tolerance

/-!
# Forbidden edits

Whether a policy forbids an edit is read off the edit alone, and where a type changes off the
stable forms of its two identifiers. All identifiers of layouts that resolve have stable forms, so
once both layouts are resolved a judgement cannot fail. Its edits are the same under every policy;
what it holds against an upgrade are the edits that the policy forbids, and a refusal reports these
with their places.
-/

namespace StorageUpgrade

/-! ## What a policy forbids -/

/-- Two variables whose identifiers have one stable form. -/
def VariableInfo.SameStableId (before after : VariableInfo) : Prop :=
  ∃ stable, Identifier.stabilize before.typeId = .ok stable ∧
    Identifier.stabilize after.typeId = .ok stable

instance (before after : VariableInfo) : Decidable (before.SameStableId after) :=
  match hstable : Identifier.stabilize before.typeId,
      hstable' : Identifier.stabilize after.typeId with
  | .ok stable, .ok stable' =>
    decidable_of_iff (stable = stable')
      (by simp [VariableInfo.SameStableId, hstable, hstable', eq_comm])
  | .error _, _ => isFalse (by simp [VariableInfo.SameStableId, hstable])
  | _, .error _ => isFalse (by simp [VariableInfo.SameStableId, hstable'])

namespace Policy

/-- The edits that a policy does not let through. -/
def Forbids (policy : Policy) : StorageEdit → Prop
  | .equal | .append _ => False
  | .rename _ _ => ¬ policy.allowRenames = true
  | .typeChange before after => ¬ (policy.allowTypeChurn = true ∧ before.SameStableId after)
  | .replace _ _ | .insert _ | .delete _ => True

instance (policy : Policy) : DecidablePred policy.Forbids
  | .equal | .append _ => inferInstanceAs (Decidable False)
  | .rename _ _ => inferInstanceAs (Decidable (¬ policy.allowRenames = true))
  | .typeChange before after =>
    inferInstanceAs (Decidable (¬ (policy.allowTypeChurn = true ∧ before.SameStableId after)))
  | .replace _ _ | .insert _ | .delete _ => inferInstanceAs (Decidable True)

/-- One policy tolerates whatever another one does. -/
structure Relaxes (relaxed policy : Policy) : Prop where
  typeChurn : policy.allowTypeChurn = true → relaxed.allowTypeChurn = true
  renames : policy.allowRenames = true → relaxed.allowRenames = true

variable {policy relaxed : Policy} {edit : StorageEdit}

theorem Forbids.of_relaxes (h : relaxed.Relaxes policy) (hedit : relaxed.Forbids edit) :
    policy.Forbids edit := by
  cases edit with
  | rename => exact fun hallow => hedit (h.renames hallow)
  | typeChange => exact fun hchurn => hedit ⟨h.typeChurn hchurn.1, hchurn.2⟩
  | _ => exact hedit

/-- If the identifiers of an edit have stable forms, it is rejected exactly if it is forbidden. -/
theorem rejects_eq_forbids
    (h : ∀ info ∈ edit.items, ∃ stable, Identifier.stabilize info.typeId = .ok stable) :
    policy.rejects edit = .ok (decide (policy.Forbids edit)) := by
  cases edit with
  | rename => simp [rejects, Forbids]
  | typeChange before after =>
    obtain ⟨stable, hstable⟩ := h before (by simp [Alignment.Edit.items])
    obtain ⟨stable', hstable'⟩ := h after (by simp [Alignment.Edit.items])
    by_cases hchurn : policy.allowTypeChurn = true
    · simp [rejects, Forbids, VariableInfo.SameStableId, hchurn, hstable, hstable', eq_comm, pure,
        Except.pure]
    · simp [rejects, Forbids, hchurn]
  | _ => rfl

end Policy

/-! ## Where a refusal points to -/

/-- A finding is placed at the variable that its edit brings in, or else at the one that it
takes. -/
def Finding.IsPlaced (finding : Finding) : Prop :=
  finding.edit.after?.map (·.src) = some finding.location ∨
    finding.edit.after? = none ∧ finding.edit.before?.map (·.src) = some finding.location

theorem Finding.isPlaced_ofEdit {policy : Policy} {edit : StorageEdit} (h : policy.Forbids edit) :
    (Finding.ofEdit edit).IsPlaced := by
  cases edit with
  | equal => cases h
  | delete => exact .inr ⟨rfl, rfl⟩
  | _ => exact .inl rfl

theorem Judgement.accept_eq_ok_iff {judgement : Judgement} :
    judgement.accept = .ok () ↔ judgement.incompatibilities = [] := by
  unfold accept isSafe
  split <;> simp_all

/-! ## Judging under a policy -/

section

variable {before after : Layout} {old new : ResolvedLayout}

/-- Between layouts that resolve, a policy rejects the edits that it forbids, in their order. -/
theorem rejected_eq_filter_forbids (policy : Policy) (hold : old.Mirrors before)
    (hnew : new.Mirrors after) :
    policy.rejected (old.editsTo new) =
      .ok ((old.editsTo new).filter fun edit => decide (policy.Forbids edit)) :=
  Policy.rejected_of_forall fun _ hedit =>
    Policy.rejects_eq_forbids (exists_stabilize_of_mem_editsTo hold hnew hedit)

/-- Layouts that resolve are judged under every policy, and their edits do not depend on it. What
is held against the upgrade are the edits that the policy forbids, and a more tolerant policy holds
no others against it. The upgrade is accepted exactly if there are none, and otherwise refused with
these edits, in their order, each with its place. -/
theorem judge_forbidden (hold : before.resolve = .ok old) (hnew : after.resolve = .ok new)
    (policy : Policy) :
    ∃ judgement : Judgement, judge policy before after = .ok judgement ∧
      check policy before after = .ok judgement.incompatibilities ∧
      judgement.before = old ∧ judgement.after = new ∧ judgement.edits = old.editsTo new ∧
      (∀ x y, .typeChange x y ∈ judgement.edits → ∃ stable stable',
        Identifier.stabilize x.typeId = .ok stable ∧
          Identifier.stabilize y.typeId = .ok stable') ∧
      judgement.incompatibilities =
        judgement.edits.filter (fun edit => decide (policy.Forbids edit)) ∧
      (∀ relaxed : Policy, relaxed.Relaxes policy → ∃ remaining,
        check relaxed before after = .ok remaining ∧
          remaining.Sublist judgement.incompatibilities) ∧
      (judge policy before after >>= Judgement.accept = .ok () ↔
        judgement.incompatibilities = []) ∧
      (judgement.incompatibilities ≠ [] → ∃ findings,
        judge policy before after >>= Judgement.accept = .error (.incompatible findings) ∧
          findings.map (·.edit) = judgement.incompatibilities ∧
          ∀ finding ∈ findings, finding.IsPlaced) := by
  have hmirrors := mirrors_of_resolve hold
  have hmirrors' := mirrors_of_resolve hnew
  have hrejected := fun policy => rejected_eq_filter_forbids policy hmirrors hmirrors'
  have hjudge := judge_of_resolve hold hnew (hrejected policy)
  refine ⟨_, hjudge, check_of_resolve hold hnew (hrejected policy), rfl, rfl, rfl, ?_, rfl, ?_, ?_,
    ?_⟩
  · intro x y hedit
    have hstable := exists_stabilize_of_mem_editsTo hmirrors hmirrors' hedit
    obtain ⟨stable, hx⟩ := hstable x (by simp [Alignment.Edit.items])
    obtain ⟨stable', hy⟩ := hstable y (by simp [Alignment.Edit.items])
    exact ⟨stable, stable', hx, hy⟩
  · intro relaxed hrelaxes
    refine ⟨_, check_of_resolve hold hnew (hrejected relaxed), ?_⟩
    refine List.monotone_filter_right _ fun edit hedit => ?_
    exact decide_eq_true (Policy.Forbids.of_relaxes hrelaxes (of_decide_eq_true hedit))
  · rw [hjudge, ok_bind, Judgement.accept_eq_ok_iff]
  · intro hne
    refine ⟨((old.editsTo new).filter fun edit => decide (policy.Forbids edit)).map Finding.ofEdit,
      ?_, ?_, ?_⟩
    · rw [hjudge, ok_bind, Judgement.accept, if_neg]
      simpa [Judgement.isSafe] using hne
    · rw [List.map_map]
      exact List.map_id _
    · rw [List.forall_mem_map]
      intro edit hedit
      exact Finding.isPlaced_ofEdit (of_decide_eq_true (List.mem_filter.1 hedit).2)

end

/-- Where renames are tolerated, the refusal is about the variable that has another type. -/
theorem judge_forbidden_marks :
    ∃ findings, judge ⟨false, true⟩ (Layout.marks "count" "3" "x")
        (Layout.marks "total" "7" "y") >>= Judgement.accept = .error (.incompatible findings) ∧
      findings.map (·.edit) = [.typeChange
        ⟨"Box", "mark", "t_struct(Mark)3_storage", "struct Mark", "Box.sol:5:5"⟩
        ⟨"Box", "mark", "t_struct(Mark)7_storage", "struct Mark", "Box.sol:5:5"⟩] ∧
      ∀ finding ∈ findings, finding.IsPlaced := by
  obtain ⟨old, hold⟩ := exists_ok_of_isOk
    (show (Layout.marks "count" "3" "x").resolve.isOk = true by decide +kernel)
  obtain ⟨new, hnew⟩ := exists_ok_of_isOk
    (show (Layout.marks "total" "7" "y").resolve.isOk = true by decide +kernel)
  obtain ⟨judgement, -, hcheck, -, -, -, -, -, -, -, hrefused⟩ :=
    judge_forbidden hold hnew ⟨false, true⟩
  have hforbidden : check ⟨false, true⟩ (Layout.marks "count" "3" "x")
      (Layout.marks "total" "7" "y") = .ok [.typeChange
        ⟨"Box", "mark", "t_struct(Mark)3_storage", "struct Mark", "Box.sol:5:5"⟩
        ⟨"Box", "mark", "t_struct(Mark)7_storage", "struct Mark", "Box.sol:5:5"⟩] := by
    decide +kernel
  rw [hforbidden, Except.ok.injEq] at hcheck
  rw [← hcheck] at hrefused
  exact hrefused (List.cons_ne_nil _ _)

end StorageUpgrade
