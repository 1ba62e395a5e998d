import Mathlib.Data.List.Basic
import StorageUpgrade.Upgrade.Check

/-!
# Judging layouts that resolve

Once both layouts are resolved, a judgement can fail only where the policy has to read identifiers
to decide about an edit. If it can decide about every edit, the edits that it decides against are
rejected, in their order.
-/

namespace StorageUpgrade

/-- A policy that can decide about every edit rejects those that it decides against. -/
theorem Policy.rejected_of_forall {policy : Policy} {edits : List StorageEdit}
    {isRejected : StorageEdit → Bool}
    (h : ∀ edit ∈ edits, policy.rejects edit = .ok (isRejected edit)) :
    policy.rejected edits = .ok (edits.filter isRejected) := by
  induction edits with
  | nil => rfl
  | cons edit edits ih =>
    rw [List.forall_mem_cons] at h
    rw [rejected, h.1, ok_bind, ih h.2, ok_bind, List.filter_cons]
    rfl

variable {policy : Policy} {before after : Layout} {old new : ResolvedLayout}
  {rejected : List StorageEdit}

theorem judge_of_resolve (hold : before.resolve = .ok old) (hnew : after.resolve = .ok new)
    (hrejected : policy.rejected (old.editsTo new) = .ok rejected) :
    judge policy before after = .ok {
      before := old
      after := new
      edits := old.editsTo new
      incompatibilities := rejected } := by
  simp only [judge, hold, hnew, Except.mapError, ok_bind, hrejected]
  rfl

theorem check_of_resolve (hold : before.resolve = .ok old) (hnew : after.resolve = .ok new)
    (hrejected : policy.rejected (old.editsTo new) = .ok rejected) :
    check policy before after = .ok rejected := by
  rw [check, judge_of_resolve hold hnew hrejected]
  rfl

end StorageUpgrade
