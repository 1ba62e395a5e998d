import StorageUpgrade.Proofs.Expansion
import StorageUpgrade.Proofs.ResolutionOutcome

/-!
# Unfolding a pool

The pool of a resolved layout holds one type for every identifier that can be reached, each after
the types that it refers to. Sharing costs nothing: a type unfolded from the pool is the type
written out from the dictionary without sharing.
-/

namespace StorageUpgrade

section

variable {layout : Layout} {pool : TypePool} {pending : List String} {β : Type}
  {build : TypeNode β → β}

namespace TypePool.Mirrors

/-- Every number below the size of the pool is that of a type made of earlier ones. -/
theorem descends (h : pool.Mirrors layout pending) {k : Nat} (hk : k < pool.size) :
    ∃ node, pool.node? k = some node ∧ ∀ r ∈ node.references, r < k := by
  obtain ⟨id, hid⟩ := exists_id? hk
  obtain ⟨node, source, hnode, -, -, hlt⟩ := h.of_id? hid
  exact ⟨node, hnode, hlt⟩

/-- With numbers replaced by identifiers, a type in the pool is the one in the layout. -/
theorem node?_id? (h : pool.Mirrors layout pending) {k : Nat} (hk : k < pool.size) :
    layout.node? ((pool.id? k).getD "") =
      (pool.node? k).map (TypeNode.map fun r => (pool.id? r).getD "") := by
  obtain ⟨id, hid⟩ := exists_id? hk
  obtain ⟨node, source, hnode, hsource, hparts, -⟩ := h.of_id? hid
  have hmap := TypeNode.map_getD_of_map_eq_map_some hparts ""
  rw [hid, hnode, Option.map_some, hmap, Option.getD_some, Layout.node?, hsource]
  rfl

/-- Unfolding from the pool and expanding from the layout give the same. -/
theorem expands_iff (h : pool.Mirrors layout pending) {k : Nat} {id : String}
    (hid : pool.id? k = some id) {full : β} :
    Expands pool.node? build k full ↔ Expands layout.node? build id full := by
  have hlook := fun r (hr : r < pool.size) => h.node?_id? hr
  have hknown : ∀ r node, r < pool.size → pool.node? r = some node →
      ∀ s ∈ node.references, s < pool.size := by
    intro r node hr hnode s hs
    obtain ⟨node', hnode', hlt⟩ := h.descends hr
    rw [hnode] at hnode'
    cases hnode'
    exact (hlt s hs).trans hr
  have hexpand : ∀ levels, expandWithin layout.node? build levels id =
      expandWithin pool.node? build levels k := by
    intro levels
    have hk : expandWithin layout.node? build levels ((pool.id? k).getD "") =
        expandWithin pool.node? build levels k :=
      expandWithin_map hlook hknown levels (TypePool.lt_size_of_id? hid)
    rwa [hid, Option.getD_some] at hk
  simp only [Expands, hexpand]

/-- A type in the pool can be written out, and is what its identifier stands for in the layout. -/
theorem exists_expands (h : pool.Mirrors layout pending) {k : Nat} {id : String}
    (hid : pool.id? k = some id) :
    ∃ full, Expands pool.node? build k full ∧ Expands layout.node? build id full := by
  obtain ⟨full, hfull⟩ := exists_expansions build fun k hk => h.descends hk
  have hk := hfull k (lt_size_of_id? hid)
  exact ⟨full k, hk, (h.expands_iff hid).1 hk⟩

end TypePool.Mirrors

end

/-- In a resolved layout every type refers to earlier types, every identifier that can be reached
has one type and there are no others, the variables are those of the layout, and every type
unfolds from the pool to the tree that the dictionary gives. -/
theorem resolve_unfolds {layout : Layout} {resolved : ResolvedLayout}
    (h : layout.resolve = .ok resolved) :
    (∀ k node, resolved.types.node? k = some node → ∀ r ∈ node.references, r < k) ∧
    (∀ id, layout.Reachable id → ∃! k, resolved.types.id? k = some id) ∧
    (∀ k < resolved.types.size, ∃ id, layout.Reachable id ∧ resolved.types.id? k = some id) ∧
    (∀ k id, resolved.types.id? k = some id →
      ∃ tree, resolved.types.HasTree k tree ∧ layout.HasTree id tree) ∧
    List.Forall₂ (fun stored resolvedVariable =>
      resolvedVariable.info.contract = stored.contract ∧
      resolvedVariable.info.label = stored.label ∧
      resolvedVariable.info.typeId = stored.typeId ∧
      resolvedVariable.info.src = stored.src ∧
      (∃ expr entry, Identifier.parse stored.typeId = .ok expr ∧
        layout.type? expr.id = some entry ∧ resolvedVariable.info.typeLabel = entry.label) ∧
      resolvedVariable.type < resolved.types.size ∧
      ∃ tree, resolved.types.HasTree resolvedVariable.type tree ∧
        layout.HasTree stored.typeId tree)
      layout.stored resolved.stored := by
  have hmirrors := mirrors_of_resolve h
  refine ⟨?_, ?_, ?_, fun k id hid => hmirrors.pool.exists_expands hid, ?_⟩
  · intro k node hnode
    obtain ⟨entry, hentry, -⟩ := Option.map_eq_some_iff.1 hnode
    have hk : k < resolved.types.size := (Array.getElem?_eq_some_iff.1 hentry).1
    obtain ⟨node', hnode', hlt⟩ := hmirrors.pool.descends hk
    rw [hnode] at hnode'
    cases hnode'
    exact hlt
  · intro id hreachable
    obtain ⟨k, hk⟩ := hmirrors.exists_id? hreachable
    exact ⟨k, hk, fun j hj => TypePool.id?_inj hmirrors.pool.nodup hj hk⟩
  · intro k hk
    obtain ⟨id, hid⟩ := TypePool.exists_id? hk
    exact ⟨id, hmirrors.pool.reachable id (TypePool.mem_ids_iff.2 ⟨k, hid⟩), hid⟩
  · refine hmirrors.stored.imp fun stored resolvedVariable hresolves => ?_
    obtain ⟨hid, source, hsource, hinfo⟩ := hresolves
    obtain ⟨expr, entry, hparse, htype, rfl⟩ := Layout.describe_eq_ok_iff.1 hsource
    rw [hinfo]
    exact ⟨rfl, rfl, rfl, rfl, ⟨expr, entry, hparse, htype, rfl⟩, TypePool.lt_size_of_id? hid,
      hmirrors.pool.exists_expands hid⟩

/-- A layout with two variables of one struct type, whose declaration has a number. -/
def Layout.points (number : String) : Layout where
  stored := [
    ⟨"Box", "start", "t_struct(Point)" ++ number ++ "_storage", "Box.sol:4:4"⟩,
    ⟨"Box", "stop", "t_struct(Point)" ++ number ++ "_storage", "Box.sol:5:5"⟩]
  types := .ofList [
    ("t_struct(Point)" ++ number ++ "_storage",
      ⟨"struct Point", some (.struct [⟨"x", "t_uint256"⟩, ⟨"y", "t_uint256"⟩])⟩),
    ("t_uint256", ⟨"uint256", none⟩)]

theorem resolve_unfolds_points :
    ∃ resolved, (Layout.points "3").resolve = .ok resolved ∧ resolved.types.size = 2 ∧
      ∀ id, (Layout.points "3").Reachable id → ∃! k, resolved.types.id? k = some id := by
  have hsize : (Layout.points "3").resolve.map (·.types.size) = .ok 2 := by decide +kernel
  obtain ⟨resolved, hresolve, hsize⟩ := map_eq_ok_iff.1 hsize
  exact ⟨resolved, hresolve, hsize, (resolve_unfolds hresolve).2.1⟩

end StorageUpgrade
