import Mathlib.Tactic.Choose
import StorageUpgrade.Resolution.Resolve

/-!
# Types written out in full

A layout and a pool both give a type one level at a time, with references to the types that it is
made of. Following all references without sharing anything gives a tree. Expansion is stated with a
bound on the levels and no bound is part of the result: a type has a tree if some bound is enough.
-/

namespace StorageUpgrade

/-- A type with everything that it is made of in place of the references. -/
inductive TypeTree where
  | node (content : TypeNode TypeTree)

/-- A type with everything that it is made of, apart from identifiers. -/
inductive TypeShape where
  | node (head label : String) (args rets : Option (List TypeShape))
    (members : Option (Members TypeShape))

def TypeNode.shape (node : TypeNode TypeShape) : TypeShape :=
  .node node.head node.label node.args node.rets node.members

variable {ref ref' β : Type}

/-- Writes out a type down to a number of levels, if it ends there. `look` gives a type one level
deep, and `build` puts the parts together. -/
def expandWithin (look : ref → Option (TypeNode ref)) (build : TypeNode β → β) :
    Nat → ref → Option β
  | 0, _ => none
  | levels + 1, r => do
    let node ← look r
    let node ← node.mapM (expandWithin look build levels)
    return build node

/-- What a type is, written out in full. -/
def Expands (look : ref → Option (TypeNode ref)) (build : TypeNode β → β) (r : ref) (full : β) :
    Prop :=
  ∃ levels, expandWithin look build levels r = some full

section

variable {look : ref → Option (TypeNode ref)} {build : TypeNode β → β}

theorem expandWithin_succ_eq_some_iff {levels : Nat} {r : ref} {full : β} :
    expandWithin look build (levels + 1) r = some full ↔
      ∃ node parts, look r = some node ∧
        node.map (expandWithin look build levels) = parts.map some ∧ build parts = full := by
  simp only [expandWithin, Option.bind_eq_bind, Option.bind_eq_some_iff, Option.pure_def,
    Option.some.injEq, TypeNode.mapM_eq_some_iff]
  constructor
  · rintro ⟨node, hlook, parts, hparts, hbuild⟩
    exact ⟨node, parts, hlook, hparts, hbuild⟩
  · rintro ⟨node, parts, hlook, hparts, hbuild⟩
    exact ⟨node, hlook, parts, hparts, hbuild⟩

theorem expandWithin_stable {n m : Nat} {r : ref} {full : β}
    (h : expandWithin look build n r = some full) (hle : n ≤ m) :
    expandWithin look build m r = some full := by
  induction n generalizing r full m with
  | zero => cases h
  | succ n ih =>
    obtain ⟨m, rfl⟩ : ∃ k, m = k + 1 := ⟨m - 1, by omega⟩
    obtain ⟨node, parts, hlook, hparts, hbuild⟩ := expandWithin_succ_eq_some_iff.1 h
    have hparts' := TypeNode.map_eq_map_some_mono (fun s b hb => ih hb (show n ≤ m by omega)) hparts
    exact expandWithin_succ_eq_some_iff.2 ⟨node, parts, hlook, hparts', hbuild⟩

theorem Expands.unique {r : ref} {full full' : β} (h : Expands look build r full)
    (h' : Expands look build r full') : full = full' := by
  obtain ⟨n, hn⟩ := h
  obtain ⟨m, hm⟩ := h'
  have hn' := expandWithin_stable hn (Nat.le_max_left n m)
  have hm' := expandWithin_stable hm (Nat.le_max_right n m)
  rw [hn'] at hm'
  exact Option.some.inj hm'

theorem exists_levels {refs : List ref} {full : ref → β}
    (h : ∀ s ∈ refs, Expands look build s (full s)) :
    ∃ levels, ∀ s ∈ refs, expandWithin look build levels s = some (full s) := by
  induction refs with
  | nil => exact ⟨0, fun s hs => nomatch hs⟩
  | cons s refs ih =>
    rw [List.forall_mem_cons] at h
    obtain ⟨n, hn⟩ := h.1
    obtain ⟨m, hm⟩ := ih h.2
    refine ⟨max n m, List.forall_mem_cons.2 ⟨expandWithin_stable hn (Nat.le_max_left n m), ?_⟩⟩
    exact fun t ht => expandWithin_stable (hm t ht) (Nat.le_max_right n m)

theorem Expands.of_node {r : ref} {node : TypeNode ref} {full : ref → β}
    (hlook : look r = some node) (h : ∀ s ∈ node.references, Expands look build s (full s)) :
    Expands look build r (build (node.map full)) := by
  obtain ⟨levels, hlevels⟩ := exists_levels h
  refine ⟨levels + 1, expandWithin_succ_eq_some_iff.2 ⟨node, node.map full, hlook, ?_, rfl⟩⟩
  rw [TypeNode.map_map, TypeNode.map_eq_map_iff]
  exact hlevels

/-- Types that refer to types before them are written out in one pass. -/
theorem exists_expansions (build : TypeNode β → β) {look : Nat → Option (TypeNode Nat)}
    {size : Nat} (h : ∀ k < size, ∃ node, look k = some node ∧ ∀ r ∈ node.references, r < k) :
    ∃ full : Nat → β, ∀ k < size, Expands look build k (full k) := by
  have hne : Nonempty β := ⟨build ⟨"", "", none, none, "", none⟩⟩
  have hexists : ∀ k, k < size → ∃ full, Expands look build k full := by
    intro k
    induction k using Nat.strongRecOn with
    | ind k ih =>
      intro hk
      obtain ⟨node, hnode, hlt⟩ := h k hk
      have hparts : ∀ r, r < k → ∃ full, Expands look build r full := fun r hr =>
        ih r hr (Nat.lt_trans hr hk)
      choose! full hfull using hparts
      exact ⟨_, .of_node hnode fun r hr => hfull r (hlt r hr)⟩
  choose! full hfull using hexists
  exact ⟨full, hfull⟩

/-- What refers to the same types in the same way is the same, written out in full: `f` takes the
references on one side to those on the other, and `known` holds of all that come up. -/
theorem expandWithin_map {look' : ref' → Option (TypeNode ref')} {f : ref → ref'}
    {known : ref → Prop}
    (hlook : ∀ r, known r → look' (f r) = (look r).map (TypeNode.map f))
    (hknown : ∀ r node, known r → look r = some node → ∀ s ∈ node.references, known s)
    (levels : Nat) {r : ref} (hr : known r) :
    expandWithin look' build levels (f r) = expandWithin look build levels r := by
  induction levels generalizing r with
  | zero => rfl
  | succ levels ih =>
    apply Option.ext
    intro full
    rw [expandWithin_succ_eq_some_iff, expandWithin_succ_eq_some_iff, hlook r hr]
    constructor
    · rintro ⟨_, parts, hmapped, hparts, hbuild⟩
      obtain ⟨node, hnode, rfl⟩ := Option.map_eq_some_iff.1 hmapped
      refine ⟨node, parts, hnode, ?_, hbuild⟩
      rw [← hparts, TypeNode.map_map, TypeNode.map_eq_map_iff]
      exact fun s hs => (ih (hknown r node hr hnode s hs)).symm
    · rintro ⟨node, parts, hnode, hparts, hbuild⟩
      refine ⟨node.map f, parts, by rw [hnode]; rfl, ?_, hbuild⟩
      rw [← hparts, TypeNode.map_map, TypeNode.map_eq_map_iff]
      exact fun s hs => ih (hknown r node hr hnode s hs)

/-- Types that are made of each other in the same way have the same shapes, whatever they are
called: `f` takes the references on one side to those on the other, and identifiers are free. -/
theorem Expands.relabel {look : ref → Option (TypeNode ref)}
    {look' : ref' → Option (TypeNode ref')} (f : ref → ref') (known : ref → Prop)
    (hlook : ∀ r node, known r → look r = some node →
      (∃ id, look' (f r) = some { node.map f with id }) ∧ ∀ s ∈ node.references, known s)
    {r : ref} (hr : known r) {shape : TypeShape} (h : Expands look TypeNode.shape r shape) :
    Expands look' TypeNode.shape (f r) shape := by
  obtain ⟨levels, h⟩ := h
  induction levels generalizing r shape with
  | zero => cases h
  | succ levels ih =>
    obtain ⟨node, parts, hnode, hparts, rfl⟩ := expandWithin_succ_eq_some_iff.1 h
    obtain ⟨⟨id, hnode'⟩, hknown⟩ := hlook r node hr hnode
    have hparts' := TypeNode.map_getD_of_map_eq_map_some hparts parts.shape
    have hpart : ∀ s ∈ node.references, Expands look' TypeNode.shape (f s)
        ((expandWithin look TypeNode.shape levels s).getD parts.shape) := by
      intro s hs
      obtain ⟨part, -, hpart⟩ := TypeNode.exists_of_map_eq_map_some hparts hs
      rw [hpart]
      exact ih (hknown s hs) hpart
    have hexists : ∀ s', s' ∈ (node.map f).references →
        ∃ full, Expands look' TypeNode.shape s' full := by
      intro s' hs'
      rw [TypeNode.references_map] at hs'
      obtain ⟨s, hs, rfl⟩ := List.mem_map.1 hs'
      exact ⟨_, hpart s hs⟩
    have hne : Nonempty TypeShape := ⟨parts.shape⟩
    choose! full hfull using hexists
    have hsame : node.map (full ∘ f) = parts := by
      rw [← hparts', TypeNode.map_eq_map_iff]
      intro s hs
      have hmem : f s ∈ (node.map f).references := by
        rw [TypeNode.references_map]
        exact List.mem_map_of_mem hs
      exact (hfull _ hmem).unique (hpart s hs)
    have hexpands := Expands.of_node hnode' hfull
    rw [← hsame, ← TypeNode.map_map]
    exact hexpands

end

namespace Layout

/-- The type that an identifier stands for in a layout, one level deep, if there is one. -/
def node? (layout : Layout) (id : String) : Option (TypeNode String) :=
  (layout.describe id).toOption

theorem node?_eq_some_iff {layout : Layout} {id : String} {node : TypeNode String} :
    layout.node? id = some node ↔ layout.describe id = .ok node := by
  unfold node?
  cases layout.describe id <;> simp [Except.toOption]

/-- The tree of a type, from the dictionary of a layout. -/
def HasTree (layout : Layout) (id : String) (tree : TypeTree) : Prop :=
  Expands layout.node? .node id tree

def HasShape (layout : Layout) (id : String) (shape : TypeShape) : Prop :=
  Expands layout.node? TypeNode.shape id shape

end Layout

namespace TypePool

/-- The tree of a type in a pool. -/
def HasTree (pool : TypePool) (index : Nat) (tree : TypeTree) : Prop :=
  Expands pool.node? .node index tree

def HasShape (pool : TypePool) (index : Nat) (shape : TypeShape) : Prop :=
  Expands pool.node? TypeNode.shape index shape

end TypePool

end StorageUpgrade
