import StorageUpgrade.Proofs.ScriptKinds
import StorageUpgrade.Proofs.SuccessiveUpgrades

/-!
# Renumbering declarations

The identifiers of a layout contain numbers that change whenever the sources are rearranged. They
are looked up and told apart while the layout is resolved, but what comes of it does not show them:
a layout with other identifiers, used in the same way, resolves too and compares with every layout
as before. Nothing is said of identifiers that are merged, or that are split up.
-/

namespace StorageUpgrade

def TypeEntry.rename (r : String → String) (entry : TypeEntry) : TypeEntry :=
  { entry with members := entry.members.map (Members.map r) }

namespace Layout

/-- The layout with other identifiers: of the variables, in the dictionary and of the fields. -/
def rename (r : String → String) (layout : Layout) : Layout where
  stored := layout.stored.map fun stored => { stored with typeId := r stored.typeId }
  types := .ofList (layout.types.entries.map fun (id, entry) => (r id, entry.rename r))

/-- A renaming that merges no identifiers that can be reached and no keys of the dictionary, and
that keeps the structure of identifiers: the word at the beginning, and the parts up to renaming. -/
structure Renumbers (layout : Layout) (r : String → String) : Prop where
  injective_reachable : ∀ x y, layout.Reachable x → layout.Reachable y → r x = r y → x = y
  injective_keys : ∀ x ∈ layout.types.keys, ∀ y ∈ layout.types.keys, r x = r y → x = y
  parse : ∀ x expr, layout.Reachable x → Identifier.parse x = .ok expr →
    ∃ expr', Identifier.parse (r x) = .ok expr' ∧
      expr'.head = expr.head ∧ expr'.id = r expr.id ∧
      expr'.args?.map (·.map (·.id)) = expr.args?.map (·.map fun arg => r arg.id) ∧
      expr'.rets?.map (·.map (·.id)) = expr.rets?.map (·.map fun ret => r ret.id)

variable {layout : Layout} {r : String → String} {x y : String}

namespace Renumbers

/-! ## One level of a type -/

theorem type?_rename (h : layout.Renumbers r) {entry : TypeEntry}
    (hentry : layout.type? x = some entry) :
    (layout.rename r).type? (r x) = some (entry.rename r) := by
  refine Dictionary.get?_ofList_of_mem ?_ (List.mem_map.2
    ⟨(x, entry), Dictionary.mem_of_lookup? hentry, rfl⟩)
  have hkeys : ((layout.types.entries.map fun (id, entry) => (r id, entry.rename r)).map (·.1)) =
      layout.types.keys.map r := by
    rw [List.map_map, Dictionary.keys, List.map_map]
    rfl
  rw [hkeys]
  exact (layout.types.nodup_keys).map_on h.injective_keys

theorem describe_rename (h : layout.Renumbers r) (hx : layout.Reachable x)
    {node : TypeNode String} (hnode : layout.describe x = .ok node) :
    (layout.rename r).describe (r x) = .ok { node.map r with id := r node.id } := by
  obtain ⟨expr, entry, hparse, hentry, rfl⟩ := describe_eq_ok_iff.1 hnode
  obtain ⟨expr', hparse', hhead, hid, hargs, hrets⟩ := h.parse x expr hx hparse
  have hentry' := h.type?_rename hentry
  rw [← hid] at hentry'
  refine describe_eq_ok_iff.2 ⟨expr', entry.rename r, hparse', hentry', ?_⟩
  rw [hhead, hid, hargs, hrets]
  simp [TypeNode.map, TypeEntry.rename, Function.comp_def]

/-! ## The reference graph -/

/-- References of the renamed layout come from references of the layout. -/
theorem exists_refersTo (h : layout.Renumbers r) (hx : layout.Reachable x)
    (hdescribed : ∃ node, layout.describe x = .ok node)
    (hxy : (layout.rename r).RefersTo (r x) y) : ∃ z, layout.RefersTo x z ∧ r z = y := by
  obtain ⟨node, hnode⟩ := hdescribed
  have hy : y ∈ (node.map r).references :=
    (refersTo_iff (h.describe_rename hx hnode)).1 hxy
  rw [TypeNode.references_map] at hy
  obtain ⟨z, hz, rfl⟩ := List.mem_map.1 hy
  exact ⟨z, (refersTo_iff hnode).2 hz, rfl⟩

end Renumbers

end Layout

section

variable {layout : Layout} {r : String → String} {old : ResolvedLayout} {x y : String}

/-- What can be reached in the renamed layout is what could be reached, renamed. -/
theorem exists_of_reachable_rename (h : layout.Renumbers r) (hold : old.Mirrors layout)
    (hy : (layout.rename r).Reachable y) : ∃ x, layout.Reachable x ∧ r x = y := by
  obtain ⟨renamed, hrenamed, hpath⟩ := hy
  obtain ⟨stored, hmem, rfl⟩ := List.mem_map.1 hrenamed
  induction hpath with
  | refl => exact ⟨stored.typeId, .of_mem hmem, rfl⟩
  | tail _ hyz ih =>
    obtain ⟨x, hx, rfl⟩ := ih
    obtain ⟨z, hxz, hz⟩ := h.exists_refersTo hx (hold.exists_describe hx) hyz
    exact ⟨z, hx.tail hxz, hz⟩

/-- A path through the renamed layout is a path through the layout, renamed. -/
theorem exists_of_transGen_rename (h : layout.Renumbers r) (hold : old.Mirrors layout)
    (hx : layout.Reachable x) (hxy : Relation.TransGen (layout.rename r).RefersTo (r x) y) :
    ∃ z, layout.Reachable z ∧ Relation.TransGen layout.RefersTo x z ∧ r z = y := by
  induction hxy with
  | single hxy =>
    obtain ⟨z, hxz, hz⟩ := h.exists_refersTo hx (hold.exists_describe hx) hxy
    exact ⟨z, hx.tail hxz, .single hxz, hz⟩
  | tail _ hyw ih =>
    obtain ⟨z, hz, hxz, rfl⟩ := ih
    obtain ⟨w, hzw, hw⟩ := h.exists_refersTo hz (hold.exists_describe hz) hyw
    exact ⟨w, hz.tail hzw, hxz.tail hzw, hw⟩

/-- Identifiers that are not merged make no new cycle, so the renamed layout resolves. -/
theorem exists_resolve_rename (h : layout.Renumbers r) (hold : old.Mirrors layout) :
    ∃ new, (layout.rename r).resolve = .ok new := by
  apply Layout.exists_resolve
  · intro y hy
    obtain ⟨x, hx, rfl⟩ := exists_of_reachable_rename h hold hy
    obtain ⟨node, hnode⟩ := hold.exists_describe hx
    exact Layout.described_of_describe (h.describe_rename hx hnode)
  · rintro ⟨y, hy, hcycle⟩
    obtain ⟨x, hx, rfl⟩ := exists_of_reachable_rename h hold hy
    obtain ⟨z, hz, hxz, heq⟩ := exists_of_transGen_rename h hold hx hcycle
    obtain rfl := h.injective_reachable z x hz hx heq
    obtain ⟨index, hid⟩ := hold.exists_id? hx
    exact hold.pool.acyclic hid hxz

/-! ## Shapes and verdicts -/

theorem hasShape_rename (h : layout.Renumbers r)
    (hx : layout.Reachable x) {shape : TypeShape} (hshape : layout.HasShape x shape) :
    (layout.rename r).HasShape (r x) shape := by
  refine Expands.relabel r layout.Reachable ?_ hx hshape
  intro x node hx hnode
  have hnode := Layout.node?_eq_some_iff.1 hnode
  refine ⟨⟨r node.id, Layout.node?_eq_some_iff.2 (h.describe_rename hx hnode)⟩, ?_⟩
  exact fun z hz => hx.tail ((Layout.refersTo_iff hnode).2 hz)

theorem continuedBy_rename (h : layout.Renumbers r) (hold : old.Mirrors layout) :
    layout.ContinuedBy (layout.rename r) where
  le := Nat.le_of_eq (List.length_map ..).symm
  same := by
    intro k v w hv hw
    rw [Layout.rename, List.getElem?_map, hv] at hw
    cases hw
    have hreachable : layout.Reachable v.typeId := .of_mem (List.mem_of_getElem? hv)
    obtain ⟨-, shape, hshape, -⟩ := hold.continuedBy_self.same k v v hv hv
    exact ⟨rfl, shape, hshape, hasShape_rename h hreachable hshape⟩

end

/-! ## The edits of renamed layouts -/

section

variable {before after before' after' : Layout} {old new old' new' : ResolvedLayout}

/-- Layouts that continue each other get the same verdicts. -/
theorem given_congr (hold : old.Mirrors before) (hnew : new.Mirrors after)
    (hold' : old'.Mirrors before') (hnew' : new'.Mirrors after')
    (hbefore : before.ContinuedBy before') (hafter : after.ContinuedBy after') {i j : Nat}
    (hi : i < before.stored.length) (hj : j < after.stored.length) :
    Alignment.given EqualityTable.classify old.stored new.stored
        (.ofPools old.types new.types) i j =
      Alignment.given EqualityTable.classify old'.stored new'.stored
        (.ofPools old'.types new'.types) i j := by
  have hi' : i < before'.stored.length := Nat.lt_of_lt_of_le hi hbefore.le
  have hj' : j < after'.stored.length := Nat.lt_of_lt_of_le hj hafter.le
  obtain ⟨hlabel, hshape⟩ := hbefore.same i _ _ (List.getElem?_eq_getElem hi)
    (List.getElem?_eq_getElem hi')
  obtain ⟨hlabel', hshape'⟩ := hafter.same j _ _ (List.getElem?_eq_getElem hj)
    (List.getElem?_eq_getElem hj')
  obtain ⟨sameType, hverdict, hsame⟩ := exists_given_classify_eq hold hnew hi hj
  obtain ⟨sameType', hverdict', hsame'⟩ := exists_given_classify_eq hold' hnew' hi' hj'
  have hiff : sameType = true ↔ sameType' = true := by
    rw [hsame, hsame']
    exact ⟨fun h => (hshape.symm.trans h).trans hshape',
      fun h => (hshape.trans h).trans hshape'.symm⟩
  rw [hverdict, hverdict', hlabel, hlabel', Bool.eq_iff_iff.2 hiff]

theorem map_kind_editsTo (old new : ResolvedLayout) :
    (old.editsTo new).map (·.kind) =
      (Alignment.align EqualityTable.classify old.stored new.stored
        (.ofPools old.types new.types)).1.map (·.kind) := by
  rw [ResolvedLayout.editsTo, List.map_map]
  exact List.map_congr_left fun edit _ => Alignment.Edit.kind_map _ edit

/-- Layouts that continue each other compare alike. -/
theorem map_kind_editsTo_congr (hold : old.Mirrors before) (hnew : new.Mirrors after)
    (hold' : old'.Mirrors before') (hnew' : new'.Mirrors after')
    (hbefore : before.ContinuedBy before') (hbefore' : before'.ContinuedBy before)
    (hafter : after.ContinuedBy after') (hafter' : after'.ContinuedBy after) :
    (old.editsTo new).map (·.kind) = (old'.editsTo new').map (·.kind) := by
  have hlength : old.stored.length = old'.stored.length := by
    rw [← hold.stored.length_eq, ← hold'.stored.length_eq]
    exact Nat.le_antisymm hbefore.le hbefore'.le
  have hlength' : new.stored.length = new'.stored.length := by
    rw [← hnew.stored.length_eq, ← hnew'.stored.length_eq]
    exact Nat.le_antisymm hafter.le hafter'.le
  rw [map_kind_editsTo, map_kind_editsTo]
  refine Alignment.map_kind_align hlength hlength' fun i hi j hj => ?_
  rw [← hold.stored.length_eq] at hi
  rw [← hnew.stored.length_eq] at hj
  exact given_congr hold hnew hold' hnew' hbefore hafter hi hj

end

/-- Other identifiers that are used in the same way are no matter: the renamed layout resolves, it
compares with every layout like the layout that it comes from, whichever of the two comes first,
and nothing is edited between the layout and the renamed one. -/
theorem editsTo_rename {layout : Layout} {r : String → String} {old : ResolvedLayout}
    (hold : layout.resolve = .ok old) (h : layout.Renumbers r) :
    ∃ new, (layout.rename r).resolve = .ok new ∧
      (∀ (other : Layout) (resolved : ResolvedLayout), other.resolve = .ok resolved →
        (new.editsTo resolved).map (·.kind) = (old.editsTo resolved).map (·.kind) ∧
        (resolved.editsTo new).map (·.kind) = (resolved.editsTo old).map (·.kind)) ∧
      old.editsTo new = List.replicate layout.stored.length .equal := by
  have hmirrors := mirrors_of_resolve hold
  obtain ⟨new, hnew⟩ := exists_resolve_rename h hmirrors
  have hmirrors' := mirrors_of_resolve hnew
  have hthere := continuedBy_rename h hmirrors
  have hback := hthere.symm (Nat.le_of_eq (List.length_map ..))
  refine ⟨new, hnew, fun other resolved hresolved => ?_, ?_⟩
  · have hother := mirrors_of_resolve hresolved
    have hself := hother.continuedBy_self
    exact ⟨map_kind_editsTo_congr hmirrors' hother hmirrors hother hback hthere hself hself,
      map_kind_editsTo_congr hother hmirrors' hother hmirrors hself hself hback hthere⟩
  · exact editsTo_of_continuedBy_each_other hmirrors hmirrors' hthere hback

/-- A layout with an array of an enum, whose declaration has a number. -/
def Layout.sides : Layout where
  stored := [
    ⟨"Board", "taken", "t_array(t_enum(Side)3)9_storage", "Board.sol:4:4"⟩,
    ⟨"Board", "turn", "t_enum(Side)3", "Board.sol:5:4"⟩]
  types := .ofList [
    ("t_array(t_enum(Side)3)9_storage", ⟨"enum Side[9]", none⟩),
    ("t_enum(Side)3", ⟨"enum Side", some (.enum ["None", "Left", "Right"])⟩)]

/-- Puts another number behind the name of the enum, wherever it stands in an identifier. -/
def renumberSide (id : String) : String :=
  String.ofList (Text.replace "(Side)3".toList "(Side)12".toList id.toList)

def sideIds : List String := ["t_array(t_enum(Side)3)9_storage", "t_enum(Side)3"]

theorem keys_sides : Layout.sides.types.keys = sideIds := by
  decide +kernel

theorem mem_sideIds_of_reachable {x : String} (hx : Layout.sides.Reachable x) : x ∈ sideIds := by
  have hsubset : Layout.sides.identifiers ⊆ sideIds := by decide +kernel
  exact hsubset hx.mem_identifiers

theorem renumberSide_injective :
    ∀ x ∈ sideIds, ∀ y ∈ sideIds, renumberSide x = renumberSide y → x = y := by
  decide +kernel

/-- What a renaming has to keep of an identifier: its head, itself and its parts, renamed. -/
def Identifier.outline (r : String → String) (expr : TypeExpr) :
    (String × String) × (Option (List String) × Option (List String)) :=
  ((expr.head, r expr.id), (expr.args?.map (·.map (r ·.id)), expr.rets?.map (·.map (r ·.id))))

theorem outline_renumberSide :
    ∀ x ∈ sideIds, (Identifier.parse (renumberSide x)).map (Identifier.outline id) =
      (Identifier.parse x).map (Identifier.outline renumberSide) := by
  decide +kernel

theorem renumbers_sides : Layout.sides.Renumbers renumberSide where
  injective_reachable := fun x y hx hy =>
    renumberSide_injective x (mem_sideIds_of_reachable hx) y (mem_sideIds_of_reachable hy)
  injective_keys := by
    rw [keys_sides]
    exact renumberSide_injective
  parse := by
    intro x expr hx hexpr
    have hsame := outline_renumberSide x (mem_sideIds_of_reachable hx)
    rw [hexpr] at hsame
    obtain ⟨expr', hexpr', heq⟩ := map_eq_ok_iff.1 hsame
    simp only [Identifier.outline, Prod.mk.injEq] at heq
    obtain ⟨⟨hhead, hid⟩, hargs, hrets⟩ := heq
    exact ⟨expr', hexpr', hhead, hid, hargs, hrets⟩

/-- The declaration of an enum gets another number, within the identifier of an array too. -/
theorem editsTo_rename_sides :
    ∃ old new, Layout.sides.resolve = .ok old ∧
      (Layout.sides.rename renumberSide).resolve = .ok new ∧
      old.editsTo new = [.equal, .equal] := by
  obtain ⟨old, hold⟩ := exists_ok_of_isOk
    (show Layout.sides.resolve.isOk = true by decide +kernel)
  obtain ⟨new, hnew, -, hedits⟩ := editsTo_rename hold renumbers_sides
  exact ⟨old, new, hold, hnew, hedits⟩

end StorageUpgrade
