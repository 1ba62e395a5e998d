import StorageUpgrade.Proofs.ShapeEquality

/-!
# Agreement of trees

Two trees agree if they have the same heads and labels and the same numbers of parts, level by level,
and parts at the same places agree; identifiers do not count. Types in two pools unfold to trees that
agree exactly if they have the same shape.
-/

namespace StorageUpgrade

section

variable {α β : Type}

/-- Fields of one name whose types are related. -/
inductive Member.Rel (related : α → β → Prop) : Member α → Member β → Prop
  | mk {label : String} {x : α} {y : β} (h : related x y) :
      Member.Rel related ⟨label, x⟩ ⟨label, y⟩

inductive Members.Rel (related : α → β → Prop) : Members α → Members β → Prop
  | struct {fields : List (Member α)} {fields' : List (Member β)}
      (h : List.Forall₂ (Member.Rel related) fields fields') :
      Members.Rel related (.struct fields) (.struct fields')
  | enum (names : List String) : Members.Rel related (.enum names) (.enum names)

/-- Nodes that differ at most in their identifiers and whose references are related, place by
place. -/
inductive TypeNode.Rel (related : α → β → Prop) : TypeNode α → TypeNode β → Prop
  | mk {id id' head label : String} {args rets : Option (List α)} {args' rets' : Option (List β)}
      {members : Option (Members α)} {members' : Option (Members β)}
      (hargs : Option.Rel (List.Forall₂ related) args args')
      (hrets : Option.Rel (List.Forall₂ related) rets rets')
      (hmembers : Option.Rel (Members.Rel related) members members') :
      TypeNode.Rel related ⟨id, head, args, rets, label, members⟩
        ⟨id', head, args', rets', label, members'⟩

end

/-- Trees that differ at most in identifiers. -/
inductive TypeTree.Agrees : TypeTree → TypeTree → Prop
  | node {content content' : TypeNode TypeTree} (h : TypeNode.Rel TypeTree.Agrees content content') :
      TypeTree.Agrees (.node content) (.node content')

theorem TypeTree.agrees_node_iff {content content' : TypeNode TypeTree} :
    Agrees (.node content) (.node content') ↔ TypeNode.Rel Agrees content content' :=
  ⟨fun ⟨h⟩ => h, .node⟩

/-! ## Equality and relations, level by level -/

section

variable {α β γ δ ε : Type} {f : α → γ} {g : β → γ} {f' : α → δ} {g' : β → ε}
  {related : δ → ε → Prop}

theorem forall₂_map_iff_map_eq {xs : List α} {ys : List β}
    (h : ∀ x ∈ xs, ∀ y ∈ ys, related (f' x) (g' y) ↔ f x = g y) :
    List.Forall₂ related (xs.map f') (ys.map g') ↔ xs.map f = ys.map g := by
  induction xs generalizing ys with
  | nil => cases ys <;> simp
  | cons x xs ih =>
    cases ys with
    | nil => simp
    | cons y ys =>
      have hhead := h x List.mem_cons_self y List.mem_cons_self
      have htail := ih fun x' hx' y' hy' =>
        h x' (List.mem_cons_of_mem x hx') y' (List.mem_cons_of_mem y hy')
      simp only [List.map_cons, List.forall₂_cons, List.cons.injEq, hhead, htail]

theorem option_rel_map_iff_map_eq {x? : Option α} {y? : Option β}
    (h : ∀ x, x? = some x → ∀ y, y? = some y → (related (f' x) (g' y) ↔ f x = g y)) :
    Option.Rel related (x?.map f') (y?.map g') ↔ x?.map f = y?.map g := by
  cases x? with
  | none => cases y? <;> simp
  | some x =>
    cases y? with
    | none => simp
    | some y => simpa using h x rfl y rfl

theorem option_rel_lists_iff {xs? : Option (List α)} {ys? : Option (List β)}
    (h : ∀ x ∈ xs?.getD [], ∀ y ∈ ys?.getD [], related (f' x) (g' y) ↔ f x = g y) :
    Option.Rel (List.Forall₂ related) (xs?.map (List.map f')) (ys?.map (List.map g')) ↔
      xs?.map (List.map f) = ys?.map (List.map g) := by
  refine option_rel_map_iff_map_eq fun xs hxs ys hys => forall₂_map_iff_map_eq ?_
  rwa [hxs, hys] at h

theorem Member.rel_iff {member : Member δ} {member' : Member ε} :
    Member.Rel related member member' ↔
      member.label = member'.label ∧ related member.type member'.type := by
  obtain ⟨label, x⟩ := member
  obtain ⟨label', y⟩ := member'
  exact ⟨fun ⟨h⟩ => ⟨rfl, h⟩, fun ⟨hlabel, h⟩ => by cases hlabel; exact .mk h⟩

theorem Members.rel_map_iff_map_eq {members : Members α} {members' : Members β}
    (h : ∀ x ∈ members.types, ∀ y ∈ members'.types, related (f' x) (g' y) ↔ f x = g y) :
    Members.Rel related (members.map f') (members'.map g') ↔ members.map f = members'.map g := by
  cases members with
  | enum names =>
    cases members' with
    | struct fields' => exact iff_of_false nofun nofun
    | enum names' =>
      constructor
      · rintro ⟨⟩
        rfl
      · rintro ⟨⟩
        exact .enum names
  | struct fields =>
    cases members' with
    | enum names' => exact iff_of_false nofun nofun
    | struct fields' =>
      have hfields : List.Forall₂ (Member.Rel related) (fields.map (Member.map f'))
          (fields'.map (Member.map g')) ↔
            fields.map (Member.map f) = fields'.map (Member.map g) := by
        refine forall₂_map_iff_map_eq fun field hfield field' hfield' => ?_
        have htype := h field.type (List.mem_map_of_mem hfield)
          field'.type (List.mem_map_of_mem hfield')
        rw [Member.rel_iff, Member.map, Member.map, Member.map, Member.map, Member.mk.injEq, htype]
      rw [Members.map, Members.map, Members.map, Members.map, Members.struct.injEq, ← hfields]
      refine ⟨fun hrel => ?_, .struct⟩
      cases hrel with
      | struct hrel => exact hrel

theorem TypeNode.rel_iff {node : TypeNode δ} {node' : TypeNode ε} :
    TypeNode.Rel related node node' ↔ (node.head = node'.head ∧ node.label = node'.label) ∧
      Option.Rel (List.Forall₂ related) node.args node'.args ∧
      Option.Rel (List.Forall₂ related) node.rets node'.rets ∧
      Option.Rel (Members.Rel related) node.members node'.members := by
  obtain ⟨id, head, args, rets, label, members⟩ := node
  obtain ⟨id', head', args', rets', label', members'⟩ := node'
  constructor
  · rintro ⟨hargs, hrets, hmembers⟩
    exact ⟨⟨rfl, rfl⟩, hargs, hrets, hmembers⟩
  · rintro ⟨⟨hhead, hlabel⟩, hargs, hrets, hmembers⟩
    cases hhead
    cases hlabel
    exact .mk hargs hrets hmembers

/-- Nodes are related if they have the same shape, where related references have equal shapes. -/
theorem TypeNode.rel_map_iff_shape_eq {node : TypeNode α} {node' : TypeNode β}
    {f : α → TypeShape} {g : β → TypeShape}
    (h : ∀ r ∈ node.references, ∀ s ∈ node'.references, related (f' r) (g' s) ↔ f r = g s) :
    TypeNode.Rel related (node.map f') (node'.map g') ↔
      (node.map f).shape = (node'.map g).shape := by
  simp only [mem_references] at h
  have hargs := option_rel_lists_iff fun r hr s hs => h r (.inl hr) s (.inl hs)
  have hrets := option_rel_lists_iff fun r hr s hs => h r (.inr (.inl hr)) s (.inr (.inl hs))
  have hmembers : Option.Rel (Members.Rel related) (node.members.map (Members.map f'))
      (node'.members.map (Members.map g')) ↔
        node.members.map (Members.map f) = node'.members.map (Members.map g) := by
    refine option_rel_map_iff_map_eq fun members hmem members' hmem' =>
      Members.rel_map_iff_map_eq ?_
    intro r hr s hs
    refine h r (.inr (.inr ?_)) s (.inr (.inr ?_))
    · rwa [hmem]
    · rwa [hmem']
  rw [rel_iff, and_assoc, shape, shape, TypeShape.node.injEq]
  exact and_congr Iff.rfl (and_congr Iff.rfl (and_congr hargs (and_congr hrets hmembers)))

end

/-! ## Trees and shapes of the types of pools -/

/-- A type of a pool is the tree of its node, if the pool has trees for all its types. -/
theorem TypePool.tree_eq_node {pool : TypePool} {trees : Nat → TypeTree}
    (htrees : ∀ k < pool.size, pool.HasTree k (trees k)) {k : Nat} (hk : k < pool.size)
    {node : TypeNode Nat} (hnode : pool.node? k = some node) (hlt : ∀ r ∈ node.references, r < k) :
    trees k = .node (node.map trees) :=
  (htrees k hk).unique (.of_node hnode fun r hr => htrees r (Nat.lt_trans (hlt r hr) hk))

/-- Trees of two pools agree exactly where the shapes are equal. -/
theorem TypePool.agrees_iff_shape_eq {before after : TypePool} {trees trees' : Nat → TypeTree}
    {shapes shapes' : Nat → TypeShape} (htrees : ∀ k < before.size, before.HasTree k (trees k))
    (htrees' : ∀ k < after.size, after.HasTree k (trees' k)) (hshapes : before.ShapedBy shapes)
    (hshapes' : after.ShapedBy shapes') {i j : Nat} (hi : i < before.size) (hj : j < after.size) :
    (trees i).Agrees (trees' j) ↔ shapes i = shapes' j := by
  induction i using Nat.strongRecOn generalizing j with
  | ind i ih =>
    obtain ⟨node, hnode, hlt, hshape⟩ := hshapes i hi
    obtain ⟨node', hnode', hlt', hshape'⟩ := hshapes' j hj
    rw [tree_eq_node htrees hi hnode hlt, tree_eq_node htrees' hj hnode' hlt', hshape, hshape',
      TypeTree.agrees_node_iff]
    exact TypeNode.rel_map_iff_shape_eq fun r hr s hs =>
      ih r (hlt r hr) (Nat.lt_trans (hlt r hr) hi) (Nat.lt_trans (hlt' s hs) hj)

end StorageUpgrade
