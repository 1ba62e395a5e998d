import Mathlib.Data.Finset.Card
import StorageUpgrade.Proofs.BoundedRuns
import StorageUpgrade.Proofs.ResolutionOutcome

/-!
# How deep resolving goes

Resolving an identifier may lead to longer ones, through the fields of structs, so nothing about the
identifiers themselves gets smaller. What bounds the depth is that those which are being resolved
differ from each other, and that all lie in one finite set: that of the stored variables' types and
the fields' types, with what is in and behind their brackets.
-/

namespace StorageUpgrade

namespace Layout

/-- Sets that hold the types of all stored variables and of all fields of structs, and the parts of
every identifier in them. -/
structure Encloses (layout : Layout) (ids : Finset String) : Prop where
  stored : ∀ stored ∈ layout.stored, stored.typeId ∈ ids
  members : ∀ id ∈ layout.memberIds, id ∈ ids
  parts : ∀ id ∈ ids, ∀ part ∈ partIds id, part ∈ ids

variable {layout : Layout} {ids : Finset String} {x y : String}

theorem encloses_identifiers (layout : Layout) : layout.Encloses layout.identifiers.toFinset where
  stored stored hstored := by
    rw [List.mem_toFinset]
    exact (Reachable.of_mem hstored).mem_identifiers
  members id hid := by
    rw [List.mem_toFinset, mem_identifiers_iff]
    exact ⟨id, List.mem_append_right _ hid, mem_nestedIds_self _ id⟩
  parts id hid part hpart := by
    rw [List.mem_toFinset, mem_identifiers_iff] at hid ⊢
    obtain ⟨root, hroot, hid⟩ := hid
    exact ⟨root, hroot, mem_nestedIds_of_mem_partIds (Nat.le_refl _) hid hpart⟩

theorem Encloses.nestedIds (h : layout.Encloses ids) {levels : Nat} (hx : x ∈ ids)
    (hy : y ∈ nestedIds levels x) : y ∈ ids := by
  induction levels generalizing x with
  | zero =>
    rw [Layout.nestedIds, List.mem_singleton] at hy
    exact hy ▸ hx
  | succ levels ih =>
    rw [Layout.nestedIds, List.mem_cons] at hy
    rcases hy with rfl | hy
    · exact hx
    · obtain ⟨part, hpart, hy⟩ := List.mem_flatMap.1 hy
      exact ih (h.parts x hx part hpart) hy

/-- The identifiers that resolving starts with are the smallest set of the kind. -/
theorem Encloses.identifiers_subset (h : layout.Encloses ids) :
    layout.identifiers.toFinset ⊆ ids := by
  intro y hy
  rw [List.mem_toFinset, mem_identifiers_iff] at hy
  obtain ⟨root, hroot, hy⟩ := hy
  apply h.nestedIds _ hy
  rcases List.mem_append.1 hroot with hstored | hmember
  · obtain ⟨stored, hmem, rfl⟩ := List.mem_map.1 hstored
    exact h.stored stored hmem
  · exact h.members root hmember

theorem Encloses.mem_of_reachable (h : layout.Encloses ids) (hx : layout.Reachable x) : x ∈ ids :=
  h.identifiers_subset (List.mem_toFinset.2 hx.mem_identifiers)

end Layout

/-! ## Resolving with so many levels -/

/-- A question for the type of an identifier, and the identifiers that were being resolved when it
was asked. -/
structure Call where
  path : List String
  id : String
  deriving DecidableEq, Repr

/-- How deep a question is nested: those that it is asked within, and itself. -/
def Call.depth (call : Call) : Nat := call.path.length + 1

/-- A pool, and all questions asked so far. -/
structure Search where
  pool : TypePool
  calls : List Call

namespace Search

def enter (search : Search) (path : List String) (id : String) : Search :=
  { search with calls := search.calls ++ [⟨path, id⟩] }

def complete (search : Search) (id : String) (node : TypeNode Nat) : Search :=
  { search with pool := search.pool.push id node }

end Search

/-- Resolves an identifier with at most `levels` questions inside each other. It is refused if it
is among those being resolved; nothing else is known of what may come up below. -/
def internWithin (describe : String → Except ResolutionError (TypeNode String)) :
    Nat → List String → String → BoundedRun ResolutionError Search Nat
  | 0, _, _ => .exhausted
  | levels + 1, path, id => do
    modify (·.enter path id)
    if id ∈ path then throw (.recursionDetected (path ++ [id]))
    match (← get).pool.indexOf? id with
    | some index => return index
    | none =>
      let node ← describe id
      let node ← node.mapM (internWithin describe levels (path ++ [id]))
      modifyGet fun search => (search.pool.size, search.complete id node)

namespace Layout

def resolveVariableWithin (layout : Layout) (levels : Nat) (stored : StoredVariable) :
    BoundedRun ResolutionError Search ResolvedVariable := do
  let type ← internWithin layout.describe levels [] stored.typeId
  let typeLabel := (((← get).pool.node? type).map (·.label)).getD ""
  return {
    info := {
      contract := stored.contract
      label := stored.label
      typeId := stored.typeId
      typeLabel
      src := stored.src }
    type }

/-- Resolves a layout with at most `levels` questions inside each other, and tells all of them. -/
def resolveWithin (layout : Layout) (levels : Nat) :
    Option (Except ResolutionError ResolvedLayout × List Call) := do
  let (stored, search) ← layout.stored.mapM (layout.resolveVariableWithin levels) ⟨∅, []⟩
  return (stored.map (⟨·, search.pool⟩), search.calls)

end Layout

section

variable {describe : String → Except ResolutionError (TypeNode String)} {levels : Nat}
  {path : List String} {id : String} {search : Search}

theorem internWithin_of_mem (h : id ∈ path) :
    internWithin describe (levels + 1) path id search =
      some (.error (.recursionDetected (path ++ [id])), search.enter path id) := by
  rw [internWithin, if_pos h]
  rfl

theorem internWithin_of_indexOf? {index : Nat} (h : id ∉ path)
    (hindex : search.pool.indexOf? id = some index) :
    internWithin describe (levels + 1) path id search =
      some (.ok index, search.enter path id) := by
  rw [internWithin, if_neg h]
  change (match (search.enter path id).pool.indexOf? id with
    | some index => Pure.pure index
    | none => _ : BoundedRun ResolutionError Search Nat) (search.enter path id) = _
  rw [show (search.enter path id).pool = search.pool from rfl, hindex]
  rfl

theorem internWithin_of_new (h : id ∉ path) (hindex : search.pool.indexOf? id = none) :
    internWithin describe (levels + 1) path id search =
      (liftM (describe id) >>= fun node =>
        node.mapM (internWithin describe levels (path ++ [id])) >>= fun node =>
          modifyGet fun search => (search.pool.size, search.complete id node) :
        BoundedRun ResolutionError Search Nat) (search.enter path id) := by
  rw [internWithin, if_neg h]
  change (match (search.enter path id).pool.indexOf? id with
    | some index => Pure.pure index
    | none => _ : BoundedRun ResolutionError Search Nat) (search.enter path id) = _
  rw [show (search.enter path id).pool = search.pool from rfl, hindex]

end

/-! ## The levels suffice -/

/-- Questions about identifiers in a set, which are not asked within themselves. -/
structure Call.Within (call : Call) (ids : Finset String) : Prop where
  nodup : call.path.Nodup
  path_subset : ∀ x ∈ call.path, x ∈ ids
  id_mem : call.id ∈ ids

/-- Different identifiers of a set are no more than it has. -/
theorem length_le_card {path : List String} {ids : Finset String} (h : path.Nodup)
    (hsub : ∀ x ∈ path, x ∈ ids) : path.length ≤ ids.card := by
  rw [← List.toFinset_card_of_nodup h]
  apply Finset.card_le_card
  intro x hx
  exact hsub x (List.mem_toFinset.1 hx)

theorem Call.Within.depth_le {call : Call} {ids : Finset String} (h : call.Within ids) :
    call.depth ≤ ids.card + 1 :=
  Nat.succ_le_succ (length_le_card h.nodup h.path_subset)

/-- All questions so far are within a set. -/
def Search.Within (ids : Finset String) (search : Search) : Prop :=
  ∀ call ∈ search.calls, call.Within ids

section

variable {layout : Layout} {ids : Finset String} {path remaining : List String} {id : String}
  {levels : Nat}

theorem Search.Within.enter {search : Search} (h : search.Within ids)
    (hcall : (Call.mk path id).Within ids) : (search.enter path id).Within ids := by
  intro call hmem
  rcases List.mem_append.1 hmem with hmem | hmem
  · exact h call hmem
  · rw [List.mem_singleton] at hmem
    exact hmem ▸ hcall

theorem follows_complete (id : String) (node : TypeNode Nat) :
    Follows (ε := ResolutionError) (Search.Within ids) Search.pool
      (modifyGet fun search => (search.pool.size, search.complete id node))
      (modifyGet fun pool => (pool.size, pool.push id node)) :=
  fun search h => ⟨search.complete id node, h, .inl ⟨search.pool.size, rfl, rfl⟩⟩

/-- The levels that are left, together with the identifiers being resolved, are more than the set
has. Each question takes a level and adds an identifier, and there is always one left to add. -/
theorem follows_internWithin (hids : layout.Encloses ids) (hpath : layout.PathTo path id)
    (hsub : ∀ x ∈ path, x ∈ ids)
    (hremaining : ∀ x, x ∈ remaining ↔ x ∈ layout.identifiers ∧ x ∉ path)
    (hlevels : ids.card < levels + path.length) :
    Follows (Search.Within ids) Search.pool (internWithin layout.describe levels path id)
      (intern layout.describe path remaining id) := by
  induction levels generalizing path remaining id with
  | zero =>
    have hlength := length_le_card hpath.nodup hsub
    omega
  | succ levels ih =>
    intro search hsearch
    have hid : id ∈ ids := hids.mem_of_reachable hpath.reachable
    have hentered := hsearch.enter ⟨hpath.nodup, hsub, hid⟩
    by_cases hmem : id ∈ path
    · have hnot : id ∉ remaining := fun h => ((hremaining id).1 h).2 hmem
      exact ⟨search.enter path id, hentered,
        .inr ⟨_, intern_eq_error hnot, internWithin_of_mem hmem⟩⟩
    · have hleft : id ∈ remaining :=
        (hremaining id).2 ⟨hpath.reachable.mem_identifiers, hmem⟩
      cases hindex : search.pool.indexOf? id with
      | some index =>
        exact ⟨search.enter path id, hentered,
          .inl ⟨index, intern_eq_of_indexOf? hleft hindex, internWithin_of_indexOf? hmem hindex⟩⟩
      | none =>
        rw [intern_eq_of_new hleft hindex, internWithin_of_new hmem hindex]
        have hparts : ∀ node, layout.describe id = .ok node →
            Follows (Search.Within ids) Search.pool
              (node.mapM (internWithin layout.describe levels (path ++ [id])))
              (node.mapM (intern layout.describe (path ++ [id]) (without id remaining))) := by
          intro node hnode
          apply Follows.mapM_node
          intro r hr
          apply ih (hpath.step hmem ((Layout.refersTo_iff hnode).2 hr))
          · intro x hx
            rcases List.mem_append.1 hx with hx | hx
            · exact hsub x hx
            · rw [List.mem_singleton] at hx
              exact hx ▸ hid
          · intro x
            rw [mem_without, hremaining, List.mem_append, List.mem_singleton, not_or, and_assoc]
          · rw [List.length_append, List.length_singleton]
            omega
        have hnew := Follows.lift_bind fun node hnode =>
          (hparts node hnode).bind fun parts => follows_complete id parts
        exact hnew (search.enter path id) hentered

theorem follows_resolveVariableWithin (hids : layout.Encloses ids) {stored : StoredVariable}
    (hstored : stored ∈ layout.stored) (hlevels : ids.card < levels) :
    Follows (Search.Within ids) Search.pool (layout.resolveVariableWithin levels stored)
      (layout.resolveVariable layout.identifiers stored) := by
  have hintern : Follows (Search.Within ids) Search.pool
      (internWithin layout.describe levels [] stored.typeId)
      (intern layout.describe [] layout.identifiers stored.typeId) := by
    apply follows_internWithin hids (.of_mem hstored)
    · intro x hx
      cases hx
    · intro x
      simp
    · rw [List.length_nil]
      omega
  apply hintern.bind
  intro type search hsearch
  exact ⟨search, hsearch, .inl ⟨_, rfl, rfl⟩⟩

end

/-- Resolving ends on every layout. Questions for types are nested no deeper than one more than
there are identifiers in any set that is closed under what they hold, of which there is a smallest;
none is asked twice on the way to another, and the outcome is that of resolving. -/
theorem resolveWithin_ends (layout : Layout) :
    layout.Encloses layout.identifiers.toFinset ∧
      ∀ ids, layout.Encloses ids → layout.identifiers.toFinset ⊆ ids ∧
        ∀ levels, ids.card + 1 ≤ levels →
          ∃ calls, layout.resolveWithin levels = some (layout.resolve, calls) ∧
            ∀ call ∈ calls, call.depth ≤ ids.card + 1 ∧ call.path.Nodup ∧
              (∀ x ∈ call.path, x ∈ ids) ∧ call.id ∈ ids := by
  refine ⟨layout.encloses_identifiers, fun ids hids => ⟨hids.identifiers_subset, ?_⟩⟩
  intro levels hlevels
  have hstored : Follows (Search.Within ids) Search.pool
      (layout.stored.mapM (layout.resolveVariableWithin levels))
      (layout.stored.mapM (layout.resolveVariable layout.identifiers)) := by
    apply Follows.mapM_list
    intro stored hmem
    exact follows_resolveVariableWithin hids hmem hlevels
  have hbegin : Search.Within ids ⟨∅, []⟩ := by
    intro call hcall
    cases hcall
  obtain ⟨search, hsearch, houtcome⟩ := hstored ⟨∅, []⟩ hbegin
  refine ⟨search.calls, ?_, ?_⟩
  · unfold Layout.resolveWithin Layout.resolve
    rw [StateT.run]
    rcases houtcome with ⟨stored, hstep, hrun⟩ | ⟨error, hstep, hrun⟩
    · rw [hrun, hstep]
      rfl
    · rw [hrun, hstep]
      rfl
  · intro call hcall
    have hwithin := hsearch call hcall
    exact ⟨hwithin.depth_le, hwithin.nodup, hwithin.path_subset, hwithin.id_mem⟩

/-- A layout with a variable of a struct type that holds an array of its own type. -/
def Layout.treeOfNodes : Layout where
  stored := [⟨"Tree", "root", "t_struct(Node)2_storage", "Tree.sol:4:4"⟩]
  types := .ofList [
    ("t_struct(Node)2_storage", ⟨"struct Tree.Node", some (.struct [
      ⟨"children", "t_array(t_struct(Node)2_storage)dyn_storage"⟩])⟩),
    ("t_array(t_struct(Node)2_storage)dyn_storage", ⟨"struct Tree.Node[]", none⟩)]

/-- The bound is reached: with two identifiers, three levels are needed. -/
theorem resolveWithin_ends_treeOfNodes :
    Layout.treeOfNodes.resolveWithin 2 = none ∧
      ∃ calls, Layout.treeOfNodes.resolveWithin 3 = some (Layout.treeOfNodes.resolve, calls) ∧
        ∀ call ∈ calls, call.depth ≤ 3 ∧ call.path.Nodup := by
  have hshort : (Layout.treeOfNodes.resolveWithin 2).isNone = true := by decide +kernel
  have hids : Layout.treeOfNodes.Encloses
      {"t_struct(Node)2_storage", "t_array(t_struct(Node)2_storage)dyn_storage"} :=
    ⟨by decide +kernel, by decide +kernel, by decide +kernel⟩
  obtain ⟨calls, hresolve, hcalls⟩ := ((resolveWithin_ends Layout.treeOfNodes).2 _ hids).2 3
    (by decide)
  refine ⟨Option.isNone_iff_eq_none.1 hshort, calls, hresolve, fun call hcall => ?_⟩
  obtain ⟨hdepth, hnodup, -⟩ := hcalls call hcall
  exact ⟨hdepth, hnodup⟩

end StorageUpgrade
