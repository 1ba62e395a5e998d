import StorageUpgrade.Proofs.PoolMirror

/-!
# Interning

One identifier is interned by a search in depth. The search keeps what the pool mirrors, it ends
with the number that the identifier has in the pool, and it fails only with an error that is true
of the layout. Nothing is said here of when it fails.
-/

namespace StorageUpgrade

/-! ## Replacing the references of a node -/

theorem map_eq_map_of_forall₂ {α β γ : Type} {g : β → γ} {h : α → γ} {as : List α} {bs : List β}
    (hab : List.Forall₂ (fun a b => g b = h a) as bs) : bs.map g = as.map h := by
  rw [← List.forall₂_eq_eq_eq, List.forall₂_map_left_iff, List.forall₂_map_right_iff]
  exact hab.flip

section

variable {layout : Layout} {pending : List String} {f : String → ResolveM Nat}

/-- A function that interns what it is given, with the number as the result. -/
def InternsEach (layout : Layout) (pending : List String) (f : String → ResolveM Nat)
    (ids : List String) : Prop :=
  ∀ id ∈ ids, Interns layout pending (fun _ => True) (f id)
    (fun index pool => pool.id? index = some id)

theorem InternsEach.mapM {ids : List String} (h : InternsEach layout pending f ids) :
    Interns layout pending (fun _ => True) (ids.mapM f)
      (fun indices pool => indices.map pool.id? = ids.map some) :=
  (Interns.mapM_list (fun id index pool => pool.id? index = some id)
    (fun hgrows hid => hgrows.id? hid) h).mono fun _ _ hids => map_eq_map_of_forall₂ hids

theorem InternsEach.mapM_option {ids? : Option (List String)}
    (h : InternsEach layout pending f (ids?.getD [])) :
    Interns layout pending (fun _ => True) (ids?.mapM (List.mapM f))
      (fun indices? pool => indices?.map (List.map pool.id?) = ids?.map (List.map some)) := by
  cases ids? with
  | none => exact .pure fun _ _ => rfl
  | some ids =>
    rw [Option.mapM_some, ← bind_pure_comp]
    refine (InternsEach.mapM h).bind fun indices => .pure fun pool hids => ?_
    exact congrArg some hids

theorem map_id?_option_mono {pool pool' : TypePool} (hgrows : pool.Extends pool')
    {indices? : Option (List Nat)} {ids? : Option (List String)}
    (h : indices?.map (List.map pool.id?) = ids?.map (List.map some)) :
    indices?.map (List.map pool'.id?) = ids?.map (List.map some) := by
  rw [← h]
  cases indices? with
  | none => rfl
  | some indices =>
    cases ids? with
    | none => cases h
    | some ids =>
      refine congrArg some (List.map_congr_left fun index hindex => ?_)
      have hmem : pool.id? index ∈ ids.map some := by
        rw [← Option.some.inj h]
        exact List.mem_map_of_mem hindex
      obtain ⟨id, -, hid⟩ := List.mem_map.1 hmem
      rw [← hid]
      exact hgrows.id? hid.symm

theorem InternsEach.mapM_member {field : Member String}
    (h : InternsEach layout pending f [field.type]) :
    Interns layout pending (fun _ => True) (field.mapM f)
      (fun field' pool => field'.map pool.id? = field.map some) := by
  refine (h field.type List.mem_cons_self).bind fun index => .pure fun pool hid => ?_
  rw [Member.map, hid]
  rfl

theorem InternsEach.mapM_members {members? : Option (Members String)}
    (h : InternsEach layout pending f ((members?.map Members.types).getD [])) :
    Interns layout pending (fun _ => True) (members?.mapM (Members.mapM f))
      (fun members?' pool => members?'.map (Members.map pool.id?) =
        members?.map (Members.map some)) := by
  match members? with
  | none => exact .pure fun _ _ => rfl
  | some (.enum names) => exact .pure fun _ _ => rfl
  | some (.struct fields) =>
    rw [Option.mapM_some, ← bind_pure_comp]
    have hfields : ∀ field ∈ fields, Interns layout pending (fun _ => True) (field.mapM f)
        (fun field' pool => field'.map pool.id? = field.map some) := by
      intro field hfield
      apply InternsEach.mapM_member
      intro id hid
      rw [List.mem_singleton] at hid
      exact h id (hid ▸ List.mem_map_of_mem hfield)
    have hkept : ∀ {field : Member String} {field' : Member Nat} {pool pool' : TypePool},
        pool.Extends pool' → field'.map pool.id? = field.map some →
          field'.map pool'.id? = field.map some := by
      intro field field' pool pool' hgrows hfield
      simp only [Member.map, Member.mk.injEq] at hfield ⊢
      exact ⟨hfield.1, hgrows.id? hfield.2⟩
    have hstruct : Interns layout pending (fun _ => True) (Members.mapM f (.struct fields))
        (fun members' pool => members'.map pool.id? = (Members.struct fields).map some) := by
      refine (Interns.mapM_list (fun field field' pool =>
        field'.map pool.id? = field.map some) hkept hfields).bind fun fields' => .pure ?_
      intro pool hfields'
      exact congrArg Members.struct (map_eq_map_of_forall₂ hfields')
    exact hstruct.bind fun members' => .pure fun pool hmembers => congrArg some hmembers

theorem InternsEach.mapM_node {node : TypeNode String}
    (h : InternsEach layout pending f node.references) :
    Interns layout pending (fun _ => True) (node.mapM f)
      (fun node' pool => node'.map pool.id? = node.map some) := by
  have hargs : InternsEach layout pending f (node.args.getD []) := fun id hid =>
    h id (TypeNode.mem_references.2 (.inl hid))
  have hrets : InternsEach layout pending f (node.rets.getD []) := fun id hid =>
    h id (TypeNode.mem_references.2 (.inr (.inl hid)))
  have hmembers : InternsEach layout pending f ((node.members.map Members.types).getD []) :=
    fun id hid => h id (TypeNode.mem_references.2 (.inr (.inr hid)))
  refine hargs.mapM_option.bind fun args => ?_
  refine (hrets.mapM_option.frame (map_id?_option_mono · ·)).bind fun rets => ?_
  have hkept : ∀ {pool pool' : TypePool}, pool.Extends pool' →
      rets.map (List.map pool.id?) = node.rets.map (List.map some) ∧
        args.map (List.map pool.id?) = node.args.map (List.map some) →
      rets.map (List.map pool'.id?) = node.rets.map (List.map some) ∧
        args.map (List.map pool'.id?) = node.args.map (List.map some) := by
    intro pool pool' hgrows ⟨hrets, hargs⟩
    exact ⟨map_id?_option_mono hgrows hrets, map_id?_option_mono hgrows hargs⟩
  refine (hmembers.mapM_members.frame hkept).bind fun members => .pure ?_
  rintro pool ⟨hmembers, hrets, hargs⟩
  rw [TypeNode.map, TypeNode.map, hargs, hrets, hmembers]

end

/-! ## Interning an identifier -/

section

variable {describe : String → Except ResolutionError (TypeNode String)}
  {path remaining : List String} {id : String} {pool : TypePool}

theorem intern_eq_error (h : id ∉ remaining) :
    intern describe path remaining id pool = .error (.recursionDetected (path ++ [id])) := by
  rw [intern, if_neg h]
  rfl

theorem intern_eq_of_indexOf? {index : Nat} (h : id ∈ remaining)
    (hindex : pool.indexOf? id = some index) :
    intern describe path remaining id pool = .ok (index, pool) := by
  rw [intern, if_pos h, get_bind_apply, hindex]
  rfl

theorem intern_eq_of_new (h : id ∈ remaining) (hindex : pool.indexOf? id = none) :
    intern describe path remaining id pool =
      (do
        let node ← describe id
        let (node', pool') ←
          node.mapM (intern describe (path ++ [id]) (without id remaining)) pool
        return (pool'.size, pool'.push id node')) := by
  rw [intern, if_pos h, get_bind_apply, hindex]
  cases describe id <;> rfl

end

theorem interns_intern {layout : Layout} {path remaining : List String} {id : String}
    (hpath : layout.PathTo path id)
    (hremaining : ∀ x, x ∈ remaining ↔ x ∈ layout.identifiers ∧ x ∉ path) :
    Interns layout path (fun _ => True) (intern layout.describe path remaining id)
      (fun index pool => pool.id? index = some id) := by
  intro pool hpool _
  by_cases hmem : id ∈ remaining
  · have hid : id ∉ path := ((hremaining id).1 hmem).2
    cases hindex : pool.indexOf? id with
    | some index =>
      have hknown := TypePool.id?_of_indexOf? hindex
      exact .inl ⟨index, pool, intern_eq_of_indexOf? hmem hindex, .refl pool, hpool, hknown⟩
    | none =>
      rw [intern_eq_of_new hmem hindex]
      cases hnode : layout.describe id with
      | error error => exact .inr ⟨error, rfl, hpath.reachable.genuine hnode⟩
      | ok node =>
        have hbegin := hpool.begin (TypePool.not_mem_ids_of_indexOf? hindex)
        have hrefs : InternsEach layout (path ++ [id])
            (intern layout.describe (path ++ [id]) (without id remaining)) node.references := by
          intro r hr
          have hstep := hpath.step hid ((Layout.refersTo_iff hnode).2 hr)
          refine interns_intern hstep fun x => ?_
          rw [mem_without, hremaining, List.mem_append, List.mem_singleton, not_or, and_assoc]
        rcases hrefs.mapM_node pool hbegin trivial with
          ⟨node', pool', hok, hgrows, hpool', hnode'⟩ | ⟨error, herror, hgenuine⟩
        · rw [ok_bind, hok]
          exact .inl ⟨pool'.size, pool'.push id node', rfl,
            hgrows.trans (pool'.extends_push id node'),
            hpool'.push hid hpath.reachable hnode hnode', pool'.id?_push_size id node'⟩
        · rw [ok_bind, herror]
          exact .inr ⟨error, rfl, hgenuine⟩
  · -- All that can be reached is in the list, so what has been taken out lies on the path.
    have hid : id ∈ path := by
      by_contra hid
      exact hmem ((hremaining id).2 ⟨hpath.reachable.mem_identifiers, hid⟩)
    exact .inr ⟨_, intern_eq_error hmem, hpath.genuine hid⟩
termination_by remaining.length
decreasing_by exact length_without_lt hmem

/-! ## Resolving a layout -/

/-- A stored variable and what it is resolved to. -/
structure ResolvesTo (layout : Layout) (pool : TypePool) (stored : StoredVariable)
    (resolved : ResolvedVariable) : Prop where
  id : pool.id? resolved.type = some stored.typeId
  info : ∃ source, layout.describe stored.typeId = .ok source ∧
    resolved.info = {
      contract := stored.contract
      label := stored.label
      typeId := stored.typeId
      typeLabel := source.label
      src := stored.src }

/-- What resolving a layout gives: variables in their order over a pool that is complete. -/
structure ResolvedLayout.Mirrors (resolved : ResolvedLayout) (layout : Layout) : Prop where
  pool : resolved.types.Mirrors layout []
  stored : List.Forall₂ (ResolvesTo layout resolved.types) layout.stored resolved.stored

variable {layout : Layout}

theorem interns_resolveVariable {stored : StoredVariable} (h : stored ∈ layout.stored) :
    Interns layout [] (fun _ => True) (layout.resolveVariable layout.identifiers stored)
      (fun resolved pool => ResolvesTo layout pool stored resolved) := by
  have hintern : Interns layout [] (fun _ => True)
      (intern layout.describe [] layout.identifiers stored.typeId)
      (fun index pool => pool.id? index = some stored.typeId) :=
    interns_intern (.of_mem h) fun x => by simp
  refine hintern.bind fun index => ?_
  intro pool hpool hid
  obtain ⟨node, source, hnode, hsource, hparts, -⟩ := hpool.of_id? hid
  refine .inl ⟨_, pool, rfl, .refl pool, hpool, hid, source, hsource, ?_⟩
  have hlabel : node.label = source.label := congrArg TypeNode.label hparts
  rw [← hlabel]
  change VariableInfo.mk _ _ _ (((pool.node? index).map (·.label)).getD "") _ = _
  rw [hnode]
  rfl

/-- Resolving either mirrors the layout, or fails with an error that is true of it. -/
theorem resolve_mirrors (layout : Layout) :
    (∃ resolved, layout.resolve = .ok resolved ∧ resolved.Mirrors layout) ∨
      ∃ error, layout.resolve = .error error ∧ layout.Genuine error := by
  have hstored := Interns.mapM_list (fun stored resolved pool =>
      ResolvesTo layout pool stored resolved)
    (fun hgrows h => ⟨hgrows.id? h.id, h.info⟩)
    (fun (stored : StoredVariable) (hmem : stored ∈ layout.stored) =>
      interns_resolveVariable hmem)
  unfold Layout.resolve
  rw [StateT.run]
  rcases hstored ∅ (.empty layout []) trivial with
    ⟨stored, types, hok, -, hpool, hresolved⟩ | ⟨error, herror, hgenuine⟩
  · rw [hok]
    exact .inl ⟨⟨stored, types⟩, rfl, hpool, hresolved⟩
  · rw [herror]
    exact .inr ⟨error, rfl, hgenuine⟩

theorem mirrors_of_resolve {resolved : ResolvedLayout} (h : layout.resolve = .ok resolved) :
    resolved.Mirrors layout := by
  rcases resolve_mirrors layout with ⟨resolved', hok, hmirrors⟩ | ⟨error, herror, -⟩
  · rw [h] at hok
    cases hok
    exact hmirrors
  · rw [h] at herror
    cases herror

theorem genuine_of_resolve {error : ResolutionError} (h : layout.resolve = .error error) :
    layout.Genuine error := by
  rcases resolve_mirrors layout with ⟨resolved, hok, -⟩ | ⟨error', herror, hgenuine⟩
  · rw [h] at hok
    cases hok
  · rw [h] at herror
    cases herror
    exact hgenuine

end StorageUpgrade
