import StorageUpgrade.Proofs.StrictSafety

/-!
# Successive upgrades

What a check without tolerance finds safe is a relation between layouts: the second one continues
the first. It holds of a layout and itself, and it passes through a release in between, so each
release needs to be checked against the one before it only.
-/

namespace StorageUpgrade

/-! ## Types of the same shape -/

namespace Layout

variable {first second third : Layout} {x y z : String}

theorem SameShape.symm (h : first.SameShape second x y) : second.SameShape first y x := by
  obtain ⟨shape, hx, hy⟩ := h
  exact ⟨shape, hy, hx⟩

theorem SameShape.trans (h : first.SameShape second x y) (h' : second.SameShape third y z) :
    first.SameShape third x z := by
  obtain ⟨shape, hx, hy⟩ := h
  obtain ⟨shape', hy', hz⟩ := h'
  obtain rfl : shape = shape' := hy.unique hy'
  exact ⟨shape, hx, hz⟩

/-- The variables of a layout are those at the beginning of another, with their names and with
types of the same shapes. -/
structure ContinuedBy (before after : Layout) : Prop where
  le : before.stored.length ≤ after.stored.length
  same : ∀ (k : Nat) (x y : StoredVariable), before.stored[k]? = some x →
    after.stored[k]? = some y → x.label = y.label ∧ before.SameShape after x.typeId y.typeId

theorem ContinuedBy.symm (h : first.ContinuedBy second)
    (hle : second.stored.length ≤ first.stored.length) : second.ContinuedBy first where
  le := hle
  same := fun k x y hx hy => (h.same k y x hy hx).imp Eq.symm SameShape.symm

theorem ContinuedBy.trans (h : first.ContinuedBy second) (h' : second.ContinuedBy third) :
    first.ContinuedBy third where
  le := Nat.le_trans h.le h'.le
  same := by
    intro k x z hx hz
    obtain ⟨hk, -⟩ := List.getElem?_eq_some_iff.1 hx
    have hk' : k < second.stored.length := Nat.lt_of_lt_of_le hk h.le
    have hy : second.stored[k]? = some second.stored[k] := List.getElem?_eq_getElem hk'
    obtain ⟨hlabel, hshape⟩ := h.same k x _ hx hy
    obtain ⟨hlabel', hshape'⟩ := h'.same k _ z hy hz
    exact ⟨hlabel.trans hlabel', hshape.trans hshape'⟩

end Layout

section

variable {before after : Layout} {old new : ResolvedLayout}

theorem ResolvedLayout.Mirrors.continuedBy_self (h : old.Mirrors before) :
    before.ContinuedBy before where
  le := Nat.le_refl _
  same := by
    intro k x y hx hy
    rw [hx] at hy
    cases hy
    obtain ⟨hk, rfl⟩ := List.getElem?_eq_some_iff.1 hx
    have hk' : k < old.stored.length := h.stored.length_eq ▸ hk
    have hexpands : ∃ shape, Expands old.types.node? TypeNode.shape old.stored[k].type shape ∧
        before.HasShape before.stored[k].typeId shape :=
      h.pool.exists_expands (h.stored.get hk hk').id
    obtain ⟨shape, -, hshape⟩ := hexpands
    exact ⟨rfl, shape, hshape, hshape⟩

/-! ## The edits of a continuation -/

theorem positional_iff_continuedBy (hold : old.Mirrors before) (hnew : new.Mirrors after) :
    Alignment.Positional (Alignment.given EqualityTable.classify old.stored new.stored
        (.ofPools old.types new.types)) old.stored.length new.stored.length ↔
      before.ContinuedBy after :=
  (positional_given_iff hold hnew).trans ⟨fun h => ⟨h.1, h.2⟩, fun h => ⟨h.le, h.same⟩⟩

/-- A continuation keeps all variables that there were, and appends the others. -/
theorem editsTo_of_continuedBy (hold : old.Mirrors before) (hnew : new.Mirrors after)
    (h : before.ContinuedBy after) :
    old.editsTo new = List.replicate before.stored.length .equal ++
      (new.stored.drop before.stored.length).map fun v => .append v.info := by
  have hscript := Alignment.align_of_positional ((positional_iff_continuedBy hold hnew).2 h)
  rw [ResolvedLayout.editsTo, hscript, List.map_append, List.map_replicate, List.map_map,
    hold.stored.length_eq]
  rfl

theorem check_default_eq_ok_nil_iff (hold : before.resolve = .ok old)
    (hnew : after.resolve = .ok new) :
    check {} before after = .ok [] ↔ before.ContinuedBy after := by
  rw [check_default hold hnew, Except.ok.injEq,
    ← positional_iff_continuedBy (mirrors_of_resolve hold) (mirrors_of_resolve hnew),
    ← Alignment.isSafe_align_iff]
  simp [ResolvedLayout.editsTo]

/-- Between layouts that continue each other nothing is edited. -/
theorem editsTo_of_continuedBy_each_other (hold : old.Mirrors before) (hnew : new.Mirrors after)
    (h : before.ContinuedBy after) (h' : after.ContinuedBy before) :
    old.editsTo new = List.replicate before.stored.length .equal := by
  have hlength : new.stored.length = before.stored.length := by
    rw [← hnew.stored.length_eq]
    exact Nat.le_antisymm h'.le h.le
  rw [editsTo_of_continuedBy hold hnew h, ← hlength, List.drop_length, List.map_nil,
    List.append_nil]

end

/-- A layout can take the place of itself; what is safe from release to release is safe from the
first to the last; and if either of two layouts can take the place of the other, they have as many
variables and no edit in either direction changes one. -/
theorem check_default_preorder {first second third : Layout} {a b c : ResolvedLayout}
    (ha : first.resolve = .ok a) (hb : second.resolve = .ok b) (hc : third.resolve = .ok c) :
    check {} first first = .ok [] ∧
    (check {} first second = .ok [] → check {} second third = .ok [] →
      check {} first third = .ok []) ∧
    (check {} first second = .ok [] → check {} second first = .ok [] →
      first.stored.length = second.stored.length ∧
      (∀ edit ∈ a.editsTo b, edit = .equal) ∧ ∀ edit ∈ b.editsTo a, edit = .equal) := by
  have hmirrors := mirrors_of_resolve ha
  have hmirrors' := mirrors_of_resolve hb
  rw [check_default_eq_ok_nil_iff ha ha, check_default_eq_ok_nil_iff ha hb,
    check_default_eq_ok_nil_iff hb hc, check_default_eq_ok_nil_iff ha hc,
    check_default_eq_ok_nil_iff hb ha]
  refine ⟨hmirrors.continuedBy_self, fun h h' => h.trans h', fun h h' => ?_⟩
  have hedits := editsTo_of_continuedBy_each_other hmirrors hmirrors' h h'
  have hedits' := editsTo_of_continuedBy_each_other hmirrors' hmirrors h' h
  rw [hedits, hedits']
  exact ⟨Nat.le_antisymm h.le h'.le, fun edit hedit => List.eq_of_mem_replicate hedit,
    fun edit hedit => List.eq_of_mem_replicate hedit⟩

/-- A layout with a variable behind the two points. -/
def Layout.countedPoints (number : String) : Layout :=
  (Layout.points number).addVariable ⟨"Box", "count", "t_uint256", "Box.sol:6:6"⟩

/-- Three releases: the declarations get other numbers each time, and the last adds a variable. -/
theorem check_default_preorder_points :
    check {} (Layout.points "3") (Layout.points "5") = .ok [] ∧
    check {} (Layout.points "5") (Layout.points "3") = .ok [] ∧
    check {} (Layout.points "5") (Layout.countedPoints "8") = .ok [] ∧
    check {} (Layout.points "3") (Layout.countedPoints "8") = .ok [] ∧
    (Layout.points "3").stored.length = (Layout.points "5").stored.length := by
  obtain ⟨a, ha⟩ := exists_ok_of_isOk
    (show (Layout.points "3").resolve.isOk = true by decide +kernel)
  obtain ⟨b, hb⟩ := exists_ok_of_isOk
    (show (Layout.points "5").resolve.isOk = true by decide +kernel)
  obtain ⟨c, hc⟩ := exists_ok_of_isOk
    (show (Layout.countedPoints "8").resolve.isOk = true by decide +kernel)
  have hsafe : check {} (Layout.points "3") (Layout.points "5") = .ok [] := by decide +kernel
  have hback : check {} (Layout.points "5") (Layout.points "3") = .ok [] := by decide +kernel
  have hlast : check {} (Layout.points "5") (Layout.countedPoints "8") = .ok [] := by
    decide +kernel
  obtain ⟨-, htrans, hboth⟩ := check_default_preorder ha hb hc
  exact ⟨hsafe, hback, hlast, htrans hsafe hlast, (hboth hsafe hback).1⟩

end StorageUpgrade
