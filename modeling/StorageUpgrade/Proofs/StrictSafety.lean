import StorageUpgrade.Proofs.Judgement
import StorageUpgrade.Proofs.PoolUnfolding
import StorageUpgrade.Proofs.SafeAlignment
import StorageUpgrade.Proofs.ShapeEquality

/-!
# Strict safety

Without tolerance, an upgrade is safe exactly if the variables that were there stay where they are,
with their names and with types of the same shape. Variables behind them are free. The theorem is
about layouts that resolve; the others are refused before their variables are compared.
-/

namespace StorageUpgrade

/-! ## Equal variables -/

/-- Two identifiers that stand for types of the same shape. -/
def Layout.SameShape (before after : Layout) (id id' : String) : Prop :=
  ∃ shape, before.HasShape id shape ∧ after.HasShape id' shape

/-- The shapes in a pool are those that the layout gives. -/
theorem TypePool.Mirrors.exists_shapes {layout : Layout} {pool : TypePool} {pending : List String}
    (h : pool.Mirrors layout pending) :
    ∃ shapes, pool.ShapedBy shapes ∧
      ∀ k id, pool.id? k = some id → layout.HasShape id (shapes k) := by
  obtain ⟨shapes, hshapes⟩ := exists_expansions TypeNode.shape fun k hk => h.descends hk
  refine ⟨shapes, fun k hk => ?_, fun k id hid => ?_⟩
  · obtain ⟨node, hnode, hlt⟩ := h.descends hk
    refine ⟨node, hnode, hlt, (hshapes k hk).unique (.of_node hnode fun r hr => ?_)⟩
    exact hshapes r ((hlt r hr).trans hk)
  · exact (h.expands_iff hid).1 (hshapes k (TypePool.lt_size_of_id? hid))

theorem ofAgreement_eq_equal_iff {sameName sameType : Bool} :
    Alignment.Verdict.ofAgreement sameName sameType = .equal ↔
      sameName = true ∧ sameType = true := by
  cases sameName <;> cases sameType <;> simp [Alignment.Verdict.ofAgreement]

section

variable {before after : Layout} {old new : ResolvedLayout}

theorem ResolvedLayout.Mirrors.type_lt (h : old.Mirrors before) {v : ResolvedVariable}
    (hv : v ∈ old.stored) : v.type < old.types.size := by
  obtain ⟨i, hi, rfl⟩ := List.getElem_of_mem hv
  exact TypePool.lt_size_of_id? (h.stored.get (h.stored.length_eq ▸ hi) hi).id

/-- The verdict on resolved variables is about the variables of the layouts. -/
theorem exists_given_classify_eq (hold : old.Mirrors before) (hnew : new.Mirrors after) {i j : Nat}
    (hi : i < before.stored.length) (hj : j < after.stored.length) :
    ∃ sameType, Alignment.given EqualityTable.classify old.stored new.stored
        (.ofPools old.types new.types) i j =
          .ofAgreement (before.stored[i].label = after.stored[j].label) sameType ∧
      (sameType = true ↔
        before.SameShape after before.stored[i].typeId after.stored[j].typeId) := by
  obtain ⟨shapes, hshaped, hshapes⟩ := hold.pool.exists_shapes
  obtain ⟨shapes', hshaped', hshapes'⟩ := hnew.pool.exists_shapes
  have hi' : i < old.stored.length := hold.stored.length_eq ▸ hi
  have hj' : j < new.stored.length := hnew.stored.length_eq ▸ hj
  obtain ⟨sameType, hverdict, hsame⟩ := Alignment.given_of_forall EqualityTable.classify
    (EqualityTable.Sound old.types new.types shapes shapes')
    (fun v w verdict => ∃ sameType, verdict = .ofAgreement (v.info.label = w.info.label) sameType ∧
      (sameType = true ↔ shapes v.type = shapes' w.type))
    (fun v hv w hw table htable => EqualityTable.exists_classify_eq hshaped hshaped'
      (hold.type_lt hv) (hnew.type_lt hw) htable)
    (EqualityTable.sound_ofPools old.types new.types shapes shapes') hi' hj'
  have hv := hold.stored.get hi hi'
  have hw := hnew.stored.get hj hj'
  have hx := hshapes _ _ hv.id
  have hy := hshapes' _ _ hw.id
  obtain ⟨_, -, hvinfo⟩ := hv.info
  obtain ⟨_, -, hwinfo⟩ := hw.info
  simp only [List.get_eq_getElem] at hx hy hvinfo hwinfo
  rw [hvinfo, hwinfo] at hverdict
  refine ⟨sameType, hverdict, hsame.trans ⟨fun heq => ⟨_, hx, heq ▸ hy⟩, ?_⟩⟩
  rintro ⟨shape, hx', hy'⟩
  rw [hx.unique hx', hy.unique hy']

theorem given_eq_equal_iff (hold : old.Mirrors before) (hnew : new.Mirrors after) {i j : Nat}
    (hi : i < before.stored.length) (hj : j < after.stored.length) :
    Alignment.given EqualityTable.classify old.stored new.stored
        (.ofPools old.types new.types) i j = .equal ↔
      before.stored[i].label = after.stored[j].label ∧
        before.SameShape after before.stored[i].typeId after.stored[j].typeId := by
  obtain ⟨sameType, hverdict, hsame⟩ := exists_given_classify_eq hold hnew hi hj
  rw [hverdict, ofAgreement_eq_equal_iff, decide_eq_true_iff, hsame]

theorem positional_given_iff (hold : old.Mirrors before) (hnew : new.Mirrors after) :
    Alignment.Positional (Alignment.given EqualityTable.classify old.stored new.stored
        (.ofPools old.types new.types)) old.stored.length new.stored.length ↔
      before.stored.length ≤ after.stored.length ∧
        ∀ (i : Nat) (x y : StoredVariable), before.stored[i]? = some x →
          after.stored[i]? = some y → x.label = y.label ∧
            before.SameShape after x.typeId y.typeId := by
  rw [← hold.stored.length_eq, ← hnew.stored.length_eq]
  constructor
  · rintro ⟨hle, hequal⟩
    refine ⟨hle, fun i x y hx hy => ?_⟩
    obtain ⟨hi, rfl⟩ := List.getElem?_eq_some_iff.1 hx
    obtain ⟨hj, rfl⟩ := List.getElem?_eq_some_iff.1 hy
    exact (given_eq_equal_iff hold hnew hi hj).1 (hequal i hi)
  · rintro ⟨hle, hsame⟩
    refine ⟨hle, fun i hi => ?_⟩
    have hj : i < after.stored.length := Nat.lt_of_lt_of_le hi hle
    exact (given_eq_equal_iff hold hnew hi hj).2
      (hsame i _ _ (List.getElem?_eq_getElem hi) (List.getElem?_eq_getElem hj))

end

/-! ## What a policy without tolerance rejects -/

theorem Policy.rejects_default (edit : StorageEdit) :
    Policy.rejects {} edit = .ok !edit.isSafe := by
  cases edit <;> rfl

/-- Without tolerance all edits are rejected that are not safe, and no identifier is read. -/
theorem Policy.rejected_default (edits : List StorageEdit) :
    Policy.rejected {} edits = .ok (edits.filter fun edit => !edit.isSafe) :=
  rejected_of_forall fun edit _ => rejects_default edit

theorem check_default {before after : Layout} {old new : ResolvedLayout}
    (hold : before.resolve = .ok old) (hnew : after.resolve = .ok new) :
    check {} before after = .ok ((old.editsTo new).filter fun edit => !edit.isSafe) :=
  check_of_resolve hold hnew (Policy.rejected_default (old.editsTo new))

/-- A check without tolerance comes to an end for layouts that resolve. It rejects nothing exactly
if every variable of the first layout has its equal at the same place of the second. -/
theorem check_default_eq_nil_iff {before after : Layout}
    (hbefore : ∃ resolved, before.resolve = .ok resolved)
    (hafter : ∃ resolved, after.resolve = .ok resolved) :
    ∃ edits, check {} before after = .ok edits ∧
      (edits = [] ↔ before.stored.length ≤ after.stored.length ∧
        ∀ (i : Nat) (x y : StoredVariable), before.stored[i]? = some x → after.stored[i]? = some y →
          x.label = y.label ∧
            ∃ shape, before.HasShape x.typeId shape ∧ after.HasShape y.typeId shape) := by
  obtain ⟨old, hold⟩ := hbefore
  obtain ⟨new, hnew⟩ := hafter
  refine ⟨_, check_default hold hnew, ?_⟩
  refine Iff.trans ?_ (positional_given_iff (mirrors_of_resolve hold) (mirrors_of_resolve hnew))
  rw [← Alignment.isSafe_align_iff]
  simp [ResolvedLayout.editsTo]

/-- Renumbered declarations and an added variable are no matter. -/
theorem check_default_eq_nil_iff_points :
    (Layout.points "3").stored.length ≤ ((Layout.points "4").addVariable
      ⟨"Box", "count", "t_uint256", "Box.sol:6:6"⟩).stored.length ∧
    ∀ (i : Nat) (x y : StoredVariable), (Layout.points "3").stored[i]? = some x →
      ((Layout.points "4").addVariable
        ⟨"Box", "count", "t_uint256", "Box.sol:6:6"⟩).stored[i]? = some y →
      x.label = y.label ∧ ∃ shape, (Layout.points "3").HasShape x.typeId shape ∧
        ((Layout.points "4").addVariable
          ⟨"Box", "count", "t_uint256", "Box.sol:6:6"⟩).HasShape y.typeId shape := by
  obtain ⟨edits, hcheck, hiff⟩ := check_default_eq_nil_iff
    (exists_ok_of_isOk (show (Layout.points "3").resolve.isOk = true by decide +kernel))
    (exists_ok_of_isOk (show ((Layout.points "4").addVariable
      ⟨"Box", "count", "t_uint256", "Box.sol:6:6"⟩).resolve.isOk = true by decide +kernel))
  have hempty : check {} (Layout.points "3") ((Layout.points "4").addVariable
      ⟨"Box", "count", "t_uint256", "Box.sol:6:6"⟩) = .ok [] := by
    decide +kernel
  rw [hempty] at hcheck
  cases hcheck
  exact hiff.1 rfl

end StorageUpgrade
