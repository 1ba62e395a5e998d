import Mathlib.Data.List.Chain
import Mathlib.Data.List.Nodup
import StorageUpgrade.Resolution.Reference

/-!
# The reference graph of a layout

An identifier refers to the types in and behind its brackets, and to the types of the fields if the
dictionary has a struct under it. The finite list that resolving starts with holds every identifier
that can be reached from a stored variable.
-/

namespace StorageUpgrade

namespace Layout

/-- The parts of an identifier, and the fields of the struct that it stands for. -/
def RefersTo (layout : Layout) (x y : String) : Prop :=
  ∃ expr, Identifier.parse x = .ok expr ∧
    (y ∈ expr.parts.map (·.id) ∨
      ∃ entry fields, layout.type? expr.id = some entry ∧ entry.members = some (.struct fields) ∧
        y ∈ fields.map (·.type))

/-- What can be reached by references from the type of a stored variable. -/
def Reachable (layout : Layout) (x : String) : Prop :=
  ∃ stored ∈ layout.stored, Relation.ReflTransGen layout.RefersTo stored.typeId x

variable {layout : Layout} {x y : String}

theorem Reachable.of_mem {stored : StoredVariable} (h : stored ∈ layout.stored) :
    layout.Reachable stored.typeId :=
  ⟨stored, h, .refl⟩

theorem Reachable.tail (h : layout.Reachable x) (hxy : layout.RefersTo x y) :
    layout.Reachable y := by
  obtain ⟨stored, hmem, hpath⟩ := h
  exact ⟨stored, hmem, hpath.tail hxy⟩

/-- The references of a described type are those of the graph. -/
theorem refersTo_iff {node : TypeNode String} (h : layout.describe x = .ok node) :
    layout.RefersTo x y ↔ y ∈ node.references := by
  obtain ⟨expr, entry, hparse, htype, rfl⟩ := describe_eq_ok_iff.1 h
  have hmap : ∀ es? : Option (List Identifier.TypeExpr),
      (es?.map (·.map (·.id))).getD [] = (es?.getD []).map (·.id) := by
    rintro (_ | es) <;> rfl
  have hparts : expr.parts.map (·.id) =
      (expr.args?.map (·.map (·.id))).getD [] ++ (expr.rets?.map (·.map (·.id))).getD [] := by
    rw [hmap, hmap, Identifier.TypeExpr.parts, List.map_append]
  have hfields : (∃ entry' fields, layout.type? expr.id = some entry' ∧
      entry'.members = some (.struct fields) ∧ y ∈ fields.map (·.type)) ↔
        y ∈ (entry.members.map Members.types).getD [] := by
    rcases hmembers : entry.members with _ | (fields | names) <;>
      simp [htype, hmembers, Members.types]
  rw [TypeNode.references, List.mem_append, ← hparts, ← hfields]
  constructor
  · rintro ⟨expr', hparse', hrefers⟩
    rw [hparse] at hparse'
    cases hparse'
    exact hrefers
  · exact fun hrefers => ⟨expr, hparse, hrefers⟩

/-! ## Paths and errors -/

/-- The identifiers on the way to another one, which need not differ from all of them. -/
structure PathTo (layout : Layout) (path : List String) (id : String) : Prop where
  reachable : layout.Reachable id
  start : ∃ stored ∈ layout.stored, (path ++ [id]).head? = some stored.typeId
  chain : (path ++ [id]).IsChain layout.RefersTo
  nodup : path.Nodup

theorem PathTo.of_mem {stored : StoredVariable} (h : stored ∈ layout.stored) :
    layout.PathTo [] stored.typeId where
  reachable := .of_mem h
  start := ⟨stored, h, rfl⟩
  chain := .singleton _
  nodup := List.nodup_nil

theorem PathTo.step {path : List String} (h : layout.PathTo path x) (hx : x ∉ path)
    (hxy : layout.RefersTo x y) : layout.PathTo (path ++ [x]) y where
  reachable := h.reachable.tail hxy
  start := by
    obtain ⟨stored, hmem, hhead⟩ := h.start
    refine ⟨stored, hmem, ?_⟩
    rw [List.head?_append, hhead]
    rfl
  chain := by
    rw [List.append_assoc, List.singleton_append, List.isChain_append_cons_cons]
    exact ⟨h.chain, hxy, .singleton _⟩
  nodup := by
    rw [← List.concat_eq_append]
    exact (List.nodup_concat path x).2 ⟨hx, h.nodup⟩

/-- The errors that are true of a layout. A recursion is a path from the type of a stored variable
that comes back to where it has been, and nowhere before its end. -/
def Genuine (layout : Layout) : ResolutionError → Prop
  | .recursionDetected chain =>
    (∃ stored ∈ layout.stored, chain.head? = some stored.typeId) ∧
      chain.IsChain layout.RefersTo ∧ chain.dropLast.Nodup ∧
      ∃ last, chain.getLast? = some last ∧ last ∈ chain.dropLast
  | .unknownType id =>
    ∃ x expr, layout.Reachable x ∧ Identifier.parse x = .ok expr ∧ expr.id = id ∧
      layout.type? id = none
  | .identifier cause => ∃ x, layout.Reachable x ∧ Identifier.parse x = .error cause

theorem PathTo.genuine {path : List String} (h : layout.PathTo path x) (hx : x ∈ path) :
    layout.Genuine (.recursionDetected (path ++ [x])) := by
  refine ⟨h.start, h.chain, ?_, x, List.getLast?_concat, ?_⟩
  · rw [List.dropLast_concat]
    exact h.nodup
  · rwa [List.dropLast_concat]

theorem Reachable.genuine {error : ResolutionError} (h : layout.Reachable x)
    (hx : layout.describe x = .error error) : layout.Genuine error := by
  rcases describe_eq_error hx with ⟨cause, hparse, rfl⟩ | ⟨expr, hparse, htype, rfl⟩
  · exact ⟨x, h, hparse⟩
  · exact ⟨x, expr, h, hparse, rfl, htype⟩

/-! ## All that can come up -/

theorem mem_nestedIds_self (levels : Nat) (id : String) : id ∈ nestedIds levels id := by
  cases levels <;> simp [nestedIds]

/-- A part of an identifier is shorter. -/
theorem length_lt_of_mem_partIds {id part : String} (h : part ∈ partIds id) :
    part.length < id.length := by
  unfold partIds at h
  split at h
  next expr hparse =>
    obtain ⟨e, he, rfl⟩ := List.mem_map.1 h
    have hpart := Identifier.TypeExpr.length_text_of_mem_parts he
    have hid := Identifier.length_id_le_of_parse hparse
    simp only [Identifier.TypeExpr.id, String.length_ofList] at hid ⊢
    omega
  next => cases h

/-- With as many levels as characters, the parts of what is nested are nested. -/
theorem mem_nestedIds_of_mem_partIds {levels : Nat} {root : String} (hroot : root.length ≤ levels)
    (hx : x ∈ nestedIds levels root) (hy : y ∈ partIds x) : y ∈ nestedIds levels root := by
  induction levels generalizing root with
  | zero =>
    rw [nestedIds, List.mem_singleton] at hx
    subst hx
    have hlt := length_lt_of_mem_partIds hy
    omega
  | succ levels ih =>
    rw [nestedIds, List.mem_cons] at hx ⊢
    right
    rcases hx with rfl | hx
    · exact List.mem_flatMap.2 ⟨y, hy, mem_nestedIds_self levels y⟩
    · obtain ⟨part, hpart, hx⟩ := List.mem_flatMap.1 hx
      have hlt := length_lt_of_mem_partIds hpart
      exact List.mem_flatMap.2 ⟨part, hpart, ih (by omega) hx⟩

theorem mem_identifiers_iff : x ∈ layout.identifiers ↔
    ∃ root ∈ layout.stored.map (·.typeId) ++ layout.memberIds,
      x ∈ nestedIds root.length root :=
  List.mem_flatMap

theorem mem_identifiers_of_refersTo (hx : x ∈ layout.identifiers) (h : layout.RefersTo x y) :
    y ∈ layout.identifiers := by
  obtain ⟨expr, hparse, hpart | ⟨entry, fields, htype, hmembers, hfield⟩⟩ := h
  · obtain ⟨root, hroot, hx⟩ := mem_identifiers_iff.1 hx
    have hy : y ∈ partIds x := by rw [partIds, hparse]; exact hpart
    exact mem_identifiers_iff.2 ⟨root, hroot, mem_nestedIds_of_mem_partIds (Nat.le_refl _) hx hy⟩
  · have hy : y ∈ layout.memberIds := by
      refine List.mem_flatMap.2 ⟨(expr.id, entry), Dictionary.mem_of_lookup? htype, ?_⟩
      simpa [hmembers, Members.types] using hfield
    exact mem_identifiers_iff.2
      ⟨y, List.mem_append_right _ hy, mem_nestedIds_self _ y⟩

theorem Reachable.mem_identifiers (h : layout.Reachable x) : x ∈ layout.identifiers := by
  obtain ⟨stored, hmem, hpath⟩ := h
  induction hpath with
  | refl =>
    have hroot : stored.typeId ∈ layout.stored.map (·.typeId) := List.mem_map_of_mem hmem
    exact mem_identifiers_iff.2
      ⟨stored.typeId, List.mem_append_left _ hroot, mem_nestedIds_self _ _⟩
  | tail _ hxy ih => exact mem_identifiers_of_refersTo ih hxy

end Layout

end StorageUpgrade
