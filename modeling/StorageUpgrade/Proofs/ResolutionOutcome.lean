import StorageUpgrade.Proofs.Interning

/-!
# When a layout resolves

A layout resolves exactly if every identifier that can be reached is described and none of them
refers back to itself. Types that several others share are no obstacle. If a layout does not
resolve, the error points at a true cause; which of several causes it points at is not said here.
-/

namespace StorageUpgrade

variable {layout : Layout} {x y : String}

/-! ## Pools have no cycles -/

section

variable {pool : TypePool} {pending : List String}

/-- What a type in the pool refers to is in the pool, before it. -/
theorem TypePool.Mirrors.refersTo (h : pool.Mirrors layout pending) {index : Nat}
    (hx : pool.id? index = some x) (hxy : layout.RefersTo x y) :
    ∃ r < index, pool.id? r = some y := by
  obtain ⟨node, source, -, hsource, hnode, hlt⟩ := h.of_id? hx
  have hy : some y ∈ (source.map some).references := by
    rw [TypeNode.references_map]
    exact List.mem_map_of_mem ((Layout.refersTo_iff hsource).1 hxy)
  rw [← hnode, TypeNode.references_map] at hy
  obtain ⟨r, hr, hid⟩ := List.mem_map.1 hy
  exact ⟨r, hlt r hr, hid⟩

theorem TypePool.Mirrors.transGen (h : pool.Mirrors layout pending) {index : Nat}
    (hx : pool.id? index = some x) (hxy : Relation.TransGen layout.RefersTo x y) :
    ∃ r < index, pool.id? r = some y := by
  induction hxy with
  | single hxy => exact h.refersTo hx hxy
  | tail _ hyz ih =>
    obtain ⟨r, hr, hy⟩ := ih
    obtain ⟨s, hs, hz⟩ := h.refersTo hy hyz
    exact ⟨s, hs.trans hr, hz⟩

/-- Of types that refer back to themselves there would be no first one. -/
theorem TypePool.Mirrors.acyclic (h : pool.Mirrors layout pending) {index : Nat}
    (hx : pool.id? index = some x) : ¬ Relation.TransGen layout.RefersTo x x := by
  intro hcycle
  induction index using Nat.strongRecOn with
  | ind index ih =>
    obtain ⟨r, hr, hr'⟩ := h.transGen hx hcycle
    exact ih r hr hr'

/-- All that can be reached is in the pool. -/
theorem ResolvedLayout.Mirrors.exists_id? {resolved : ResolvedLayout}
    (h : resolved.Mirrors layout) (hx : layout.Reachable x) :
    ∃ index, resolved.types.id? index = some x := by
  obtain ⟨stored, hmem, hpath⟩ := hx
  induction hpath with
  | refl =>
    obtain ⟨i, hi, rfl⟩ := List.getElem_of_mem hmem
    have hi' : i < resolved.stored.length := h.stored.length_eq ▸ hi
    exact ⟨_, (h.stored.get hi hi').id⟩
  | tail _ hyz ih =>
    obtain ⟨index, hy⟩ := ih
    obtain ⟨r, -, hz⟩ := h.pool.refersTo hy hyz
    exact ⟨r, hz⟩

theorem ResolvedLayout.Mirrors.exists_describe {resolved : ResolvedLayout}
    (h : resolved.Mirrors layout) (hx : layout.Reachable x) :
    ∃ source, layout.describe x = .ok source := by
  obtain ⟨index, hid⟩ := h.exists_id? hx
  obtain ⟨node, source, -, hsource, -⟩ := h.pool.of_id? hid
  exact ⟨source, hsource⟩

end

/-! ## Errors have a cause -/

namespace Layout

/-- An identifier that a layout says all about that resolving needs. -/
def Described (layout : Layout) (x : String) : Prop :=
  ∃ expr, Identifier.parse x = .ok expr ∧ (layout.type? expr.id).isSome

theorem described_of_describe {source : TypeNode String} (h : layout.describe x = .ok source) :
    layout.Described x := by
  obtain ⟨expr, entry, hparse, htype, -⟩ := describe_eq_ok_iff.1 h
  exact ⟨expr, hparse, by rw [htype]; rfl⟩

theorem Reachable.of_mem_chain {chain : List String} (hchain : chain.IsChain layout.RefersTo)
    (hhead : ∀ x ∈ chain.head?, layout.Reachable x) : ∀ x ∈ chain, layout.Reachable x := by
  induction hchain with
  | nil => exact fun x hx => nomatch hx
  | singleton a =>
    intro x hx
    rw [List.mem_singleton] at hx
    exact hx ▸ hhead a rfl
  | @cons_cons a b rest hab _ ih =>
    intro x hx
    have ha : layout.Reachable a := hhead a rfl
    rcases List.mem_cons.1 hx with rfl | hx
    · exact ha
    · refine ih ?_ x hx
      rintro _ ⟨⟩
      exact ha.tail hab

theorem transGen_of_isChain {chain : List String} {last : String}
    (hchain : chain.IsChain layout.RefersTo) (hlast : chain.getLast? = some last)
    (hx : x ∈ chain.dropLast) : Relation.TransGen layout.RefersTo x last := by
  have hsplit := List.dropLast_append_getLast? last hlast
  have hpairs : chain.Pairwise (Relation.TransGen layout.RefersTo) :=
    List.isChain_iff_pairwise.1 (hchain.imp fun _ _ => .single)
  rw [← hsplit, List.pairwise_append] at hpairs
  exact hpairs.2.2 x hx last List.mem_cons_self

/-- Where all that can be reached is described, a cycle is the only error. -/
theorem Genuine.exists_chain {error : ResolutionError} (h : layout.Genuine error)
    (hdescribed : ∀ x, layout.Reachable x → layout.Described x) :
    ∃ chain, error = .recursionDetected chain := by
  cases error with
  | recursionDetected chain => exact ⟨chain, rfl⟩
  | unknownType id =>
    obtain ⟨x, expr, hx, hparse, rfl, htype⟩ := h
    obtain ⟨expr', hparse', hsome⟩ := hdescribed x hx
    rw [hparse] at hparse'
    cases hparse'
    rw [htype] at hsome
    exact absurd hsome (by decide)
  | identifier cause =>
    obtain ⟨x, hx, hparse⟩ := h
    obtain ⟨expr, hparse', -⟩ := hdescribed x hx
    rw [hparse] at hparse'
    cases hparse'

/-- Nothing is wrong with a layout whose identifiers are described and free of cycles. -/
theorem not_genuine (hdescribed : ∀ x, layout.Reachable x → layout.Described x)
    (hacyclic : ¬ ∃ x, layout.Reachable x ∧ Relation.TransGen layout.RefersTo x x)
    (error : ResolutionError) : ¬ layout.Genuine error := by
  intro herror
  obtain ⟨chain, rfl⟩ := herror.exists_chain hdescribed
  obtain ⟨⟨stored, hmem, hhead⟩, hchain, -, last, hlast, hrepeat⟩ := herror
  refine hacyclic ⟨last, ?_, transGen_of_isChain hchain hlast hrepeat⟩
  refine Reachable.of_mem_chain hchain ?_ last (List.dropLast_subset chain hrepeat)
  intro x hx
  rw [hhead] at hx
  exact Option.some.inj hx ▸ .of_mem hmem

theorem exists_resolve (hdescribed : ∀ x, layout.Reachable x → layout.Described x)
    (hacyclic : ¬ ∃ x, layout.Reachable x ∧ Relation.TransGen layout.RefersTo x x) :
    ∃ resolved, layout.resolve = .ok resolved := by
  cases hresolve : layout.resolve with
  | ok resolved => exact ⟨resolved, rfl⟩
  | error error =>
    exact absurd (genuine_of_resolve hresolve) (not_genuine hdescribed hacyclic error)

end Layout

/-! ## The outcome -/

/-- A layout resolves exactly if what can be reached is described and has no cycle; otherwise it
fails with an error that is true of it. -/
theorem resolve_outcome (layout : Layout) :
    ((∃ resolved, layout.resolve = .ok resolved) ↔
      (∀ x, layout.Reachable x →
        ∃ expr, Identifier.parse x = .ok expr ∧ (layout.type? expr.id).isSome) ∧
      ¬ ∃ x, layout.Reachable x ∧ Relation.TransGen layout.RefersTo x x) ∧
    ∀ error, layout.resolve = .error error → layout.Genuine error := by
  refine ⟨⟨?_, ?_⟩, fun error => genuine_of_resolve⟩
  · rintro ⟨resolved, hresolve⟩
    have hmirrors := mirrors_of_resolve hresolve
    constructor
    · intro x hx
      obtain ⟨index, hid⟩ := hmirrors.exists_id? hx
      obtain ⟨node, source, -, hsource, -⟩ := hmirrors.pool.of_id? hid
      exact Layout.described_of_describe hsource
    · rintro ⟨x, hx, hcycle⟩
      obtain ⟨index, hid⟩ := hmirrors.exists_id? hx
      exact hmirrors.pool.acyclic hid hcycle
  · rintro ⟨hdescribed, hacyclic⟩
    cases hresolve : layout.resolve with
    | ok resolved => exact ⟨resolved, rfl⟩
    | error error =>
      exact absurd (genuine_of_resolve hresolve) (Layout.not_genuine hdescribed hacyclic error)

/-- A layout with a variable of a struct type that holds itself, through a mapping. -/
def Layout.selfContained : Layout where
  stored := [⟨"List", "head", "t_struct(Node)2_storage", "List.sol:5:5"⟩]
  types := .ofList [
    ("t_struct(Node)2_storage", ⟨"struct Node", some (.struct [
      ⟨"value", "t_uint256"⟩, ⟨"next", "t_mapping(t_uint256,t_struct(Node)2_storage)"⟩])⟩),
    ("t_mapping(t_uint256,t_struct(Node)2_storage)", ⟨"mapping(uint256 => Node)", none⟩),
    ("t_uint256", ⟨"uint256", none⟩)]

theorem resolve_outcome_selfContained :
    (¬ ∃ resolved, Layout.selfContained.resolve = .ok resolved) ∧
      Layout.selfContained.Genuine (.recursionDetected ["t_struct(Node)2_storage",
        "t_mapping(t_uint256,t_struct(Node)2_storage)", "t_struct(Node)2_storage"]) := by
  have hresolve : Layout.selfContained.resolve = .error (.recursionDetected
      ["t_struct(Node)2_storage", "t_mapping(t_uint256,t_struct(Node)2_storage)",
        "t_struct(Node)2_storage"]) := by
    decide +kernel
  refine ⟨?_, (resolve_outcome Layout.selfContained).2 _ hresolve⟩
  rintro ⟨resolved, hok⟩
  rw [hresolve] at hok
  cases hok

end StorageUpgrade
