import Mathlib.Data.List.Forall2
import StorageUpgrade.Proofs.ReferenceGraph
import StorageUpgrade.Resolution.Resolve

/-!
# What a pool mirrors

While a layout is resolved, the pool holds types that are complete: each entry says what the layout
says about its identifier, with references to entries before it. Identifiers that are still being
resolved have no entry. This invariant is carried through every step of resolving, and where a step
fails the error is one that the layout deserves.
-/

namespace StorageUpgrade

namespace TypePool

/-- The identifier that a type was asked for with. -/
def id? (pool : TypePool) (index : Nat) : Option String := pool.entries[index]?.map (·.1)

def ids (pool : TypePool) : List String := pool.entries.toList.map (·.1)

def Extends (pool pool' : TypePool) : Prop :=
  ∀ (index : Nat) (entry : String × TypeNode Nat), pool.entries[index]? = some entry →
    pool'.entries[index]? = some entry

theorem Extends.refl (pool : TypePool) : pool.Extends pool :=
  fun _ _ h => h

theorem Extends.trans {pool pool' pool'' : TypePool} (h : pool.Extends pool')
    (h' : pool'.Extends pool'') : pool.Extends pool'' :=
  fun index entry he => h' index entry (h index entry he)

theorem extends_push (pool : TypePool) (id : String) (node : TypeNode Nat) :
    pool.Extends (pool.push id node) := by
  intro index entry h
  obtain ⟨hlt, rfl⟩ := Array.getElem?_eq_some_iff.1 h
  exact Array.getElem?_push_lt hlt

theorem Extends.id? {pool pool' : TypePool} (h : pool.Extends pool') {index : Nat} {id : String}
    (hid : pool.id? index = some id) : pool'.id? index = some id := by
  obtain ⟨entry, hentry, rfl⟩ := Option.map_eq_some_iff.1 hid
  rw [TypePool.id?, h index entry hentry]
  rfl

theorem id?_of_indexOf? {pool : TypePool} {id : String} {index : Nat}
    (h : pool.indexOf? id = some index) : pool.id? index = some id := by
  obtain ⟨hlt, hid, -⟩ := Array.findIdx?_eq_some_iff_getElem.1 h
  rw [id?, Array.getElem?_eq_getElem hlt, Option.map_some, of_decide_eq_true hid]

theorem not_mem_ids_of_indexOf? {pool : TypePool} {id : String}
    (h : pool.indexOf? id = none) : id ∉ pool.ids := by
  intro hmem
  obtain ⟨entry, hentry, rfl⟩ := List.mem_map.1 hmem
  have hne := Array.findIdx?_eq_none_iff.1 h entry (Array.mem_toList_iff.1 hentry)
  exact of_decide_eq_false hne rfl

theorem mem_ids_iff {pool : TypePool} {id : String} :
    id ∈ pool.ids ↔ ∃ index, pool.id? index = some id := by
  simp [ids, id?, List.mem_iff_getElem?]

@[simp]
theorem ids_push (pool : TypePool) (id : String) (node : TypeNode Nat) :
    (pool.push id node).ids = pool.ids ++ [id] := by
  simp [ids, push]

theorem id?_push_size (pool : TypePool) (id : String) (node : TypeNode Nat) :
    (pool.push id node).id? pool.size = some id := by
  simp [id?, push, size]

theorem lt_size_of_id? {pool : TypePool} {index : Nat} {id : String}
    (h : pool.id? index = some id) : index < pool.size := by
  obtain ⟨entry, hentry, -⟩ := Option.map_eq_some_iff.1 h
  exact (Array.getElem?_eq_some_iff.1 hentry).1

theorem exists_id? {pool : TypePool} {index : Nat} (h : index < pool.size) :
    ∃ id, pool.id? index = some id := by
  rw [id?, Array.getElem?_eq_getElem h]
  exact ⟨_, rfl⟩

theorem id?_inj {pool : TypePool} (h : pool.ids.Nodup) {i j : Nat} {id : String}
    (hi : pool.id? i = some id) (hj : pool.id? j = some id) : i = j := by
  have hget : ∀ k, pool.ids[k]? = pool.id? k := fun k => by simp [ids, id?]
  have hlt : i < pool.ids.length := by
    rw [ids, List.length_map]
    exact lt_size_of_id? hi
  exact (List.getElem?_inj hlt h).1 (by rw [hget, hget, hi, hj])

theorem entry_of_id? {pool : TypePool} {index : Nat} {id : String} (h : pool.id? index = some id) :
    ∃ node, pool.entries[index]? = some (id, node) := by
  obtain ⟨⟨id', node⟩, hentry, rfl⟩ := Option.map_eq_some_iff.1 h
  exact ⟨node, hentry⟩

end TypePool

/-- The pool of a layout while the identifiers `pending` are being resolved. -/
structure TypePool.Mirrors (pool : TypePool) (layout : Layout) (pending : List String) : Prop where
  nodup : pool.ids.Nodup
  reachable : ∀ id ∈ pool.ids, layout.Reachable id
  complete : ∀ id ∈ pool.ids, id ∉ pending
  described : ∀ (index : Nat) (id : String) (node : TypeNode Nat),
    pool.entries[index]? = some (id, node) →
      ∃ source, layout.describe id = .ok source ∧ node.map pool.id? = source.map some ∧
        ∀ r ∈ node.references, r < index

namespace TypePool.Mirrors

variable {layout : Layout} {pool : TypePool} {pending : List String}

theorem empty (layout : Layout) (pending : List String) :
    TypePool.Mirrors ∅ layout pending where
  nodup := List.nodup_nil
  reachable := by rintro id ⟨⟩
  complete := by rintro id ⟨⟩
  described := by
    intro index id node h
    cases h

/-- What is known of references stays known when a pool grows. -/
theorem map_id?_of_extends {pool' : TypePool} {node : TypeNode Nat} {source : TypeNode String}
    (h : pool.Extends pool') (hnode : node.map pool.id? = source.map some) :
    node.map pool'.id? = source.map some :=
  TypeNode.map_eq_map_some_mono (fun _ _ hid => h.id? hid) hnode

theorem lt_size_of_map_id? {node : TypeNode Nat} {source : TypeNode String}
    (h : node.map pool.id? = source.map some) {r : Nat} (hr : r ∈ node.references) :
    r < pool.size := by
  obtain ⟨id, -, hid⟩ := TypeNode.exists_of_map_eq_map_some h hr
  exact lt_size_of_id? hid

/-- A type in the pool is what the layout says about its identifier. -/
theorem of_id? (h : pool.Mirrors layout pending) {index : Nat} {id : String}
    (hid : pool.id? index = some id) :
    ∃ node source, pool.node? index = some node ∧ layout.describe id = .ok source ∧
      node.map pool.id? = source.map some ∧ ∀ r ∈ node.references, r < index := by
  obtain ⟨node, hentry⟩ := entry_of_id? hid
  obtain ⟨source, hsource, hnode, hlt⟩ := h.described index id node hentry
  refine ⟨node, source, ?_, hsource, hnode, hlt⟩
  rw [node?, hentry]
  rfl

theorem begin (h : pool.Mirrors layout pending) {id : String} (hid : id ∉ pool.ids) :
    pool.Mirrors layout (pending ++ [id]) where
  nodup := h.nodup
  reachable := h.reachable
  complete := by
    intro x hx hpending
    rcases List.mem_append.1 hpending with hold | hnew
    · exact h.complete x hx hold
    · rw [List.mem_singleton] at hnew
      exact hid (hnew ▸ hx)
  described := h.described

theorem push {id : String} (h : pool.Mirrors layout (pending ++ [id])) (hid : id ∉ pending)
    (hreachable : layout.Reachable id) {source : TypeNode String} {node : TypeNode Nat}
    (hsource : layout.describe id = .ok source) (hnode : node.map pool.id? = source.map some) :
    (pool.push id node).Mirrors layout pending where
  nodup := by
    have hfresh : id ∉ pool.ids := fun hmem =>
      h.complete id hmem (List.mem_append_right _ List.mem_cons_self)
    rw [ids_push, ← List.concat_eq_append]
    exact (List.nodup_concat pool.ids id).2 ⟨hfresh, h.nodup⟩
  reachable := by
    intro x hx
    rw [ids_push, List.mem_append, List.mem_singleton] at hx
    rcases hx with hx | rfl
    · exact h.reachable x hx
    · exact hreachable
  complete := by
    intro x hx hpending
    rw [ids_push, List.mem_append, List.mem_singleton] at hx
    rcases hx with hx | rfl
    · exact h.complete x hx (List.mem_append_left _ hpending)
    · exact hid hpending
  described := by
    intro index x node' hentry
    have hgrows := pool.extends_push id node
    rw [TypePool.push, Array.getElem?_push] at hentry
    split at hentry
    next hsize =>
      cases hentry
      refine ⟨source, hsource, map_id?_of_extends hgrows hnode, ?_⟩
      intro r hr
      rw [hsize]
      exact lt_size_of_map_id? hnode hr
    next =>
      obtain ⟨source', hsource', hnode', hlt⟩ := h.described index x node' hentry
      exact ⟨source', hsource', map_id?_of_extends hgrows hnode', hlt⟩

end TypePool.Mirrors

/-! ## Steps that keep the invariant -/

section

variable {α β : Type} {layout : Layout} {pending : List String} {pre : TypePool → Prop}

/-- A step that, from a pool with `pre` on, extends the pool and returns what has `post`, or fails
with an error that is true of the layout. -/
def Interns (layout : Layout) (pending : List String) (pre : TypePool → Prop) (step : ResolveM β)
    (post : β → TypePool → Prop) : Prop :=
  ∀ pool : TypePool, pool.Mirrors layout pending → pre pool →
    (∃ value pool', step pool = .ok (value, pool') ∧ pool.Extends pool' ∧
      pool'.Mirrors layout pending ∧ post value pool') ∨
    ∃ error, step pool = .error error ∧ layout.Genuine error

theorem Interns.pure {value : β} {post : β → TypePool → Prop}
    (h : ∀ pool, pre pool → post value pool) :
    Interns layout pending pre (pure value) post :=
  fun pool hpool hpre => .inl ⟨value, pool, rfl, .refl pool, hpool, h pool hpre⟩

theorem Interns.bind {step : ResolveM α} {next : α → ResolveM β} {mid : α → TypePool → Prop}
    {post : β → TypePool → Prop} (hstep : Interns layout pending pre step mid)
    (hnext : ∀ value, Interns layout pending (mid value) (next value) post) :
    Interns layout pending pre (step >>= next) post := by
  intro pool hpool hpre
  have hrun : (step >>= next) pool = step pool >>= fun (value, pool') => next value pool' := rfl
  rcases hstep pool hpool hpre with
    ⟨value, pool', hok, hgrows, hpool', hmid⟩ | ⟨error, herror, hgenuine⟩
  · rw [hok] at hrun
    rcases hnext value pool' hpool' hmid with
      ⟨value', pool'', hok', hgrows', hpool'', hpost⟩ | ⟨error, herror, hgenuine⟩
    · exact .inl ⟨value', pool'', hrun.trans hok', hgrows.trans hgrows', hpool'', hpost⟩
    · exact .inr ⟨error, hrun.trans herror, hgenuine⟩
  · rw [herror] at hrun
    exact .inr ⟨error, hrun, hgenuine⟩

theorem Interns.mono {step : ResolveM β} {post post' : β → TypePool → Prop}
    (h : Interns layout pending pre step post)
    (hpost : ∀ value pool, post value pool → post' value pool) :
    Interns layout pending pre step post' := by
  intro pool hpool hpre
  rcases h pool hpool hpre with ⟨value, pool', hok, hgrows, hpool', hvalue⟩ | herror
  · exact .inl ⟨value, pool', hok, hgrows, hpool', hpost value pool' hvalue⟩
  · exact .inr herror

/-- What a growing pool keeps holds behind a step if it held before. -/
theorem Interns.frame {step : ResolveM β} {post : β → TypePool → Prop} {kept : TypePool → Prop}
    (h : Interns layout pending (fun _ => True) step post)
    (hkept : ∀ {pool pool' : TypePool}, pool.Extends pool' → kept pool → kept pool') :
    Interns layout pending kept step (fun value pool => post value pool ∧ kept pool) := by
  intro pool hpool hpre
  rcases h pool hpool trivial with ⟨value, pool', hok, hgrows, hpool', hvalue⟩ | herror
  · exact .inl ⟨value, pool', hok, hgrows, hpool', hvalue, hkept hgrows hpre⟩
  · exact .inr herror

/-- The items of a list are taken one after the other; what is known of the first ones must stay
known while the pool grows. -/
theorem Interns.mapM_list {f : α → ResolveM β} (post : α → β → TypePool → Prop)
    (hkept : ∀ {a b} {pool pool' : TypePool}, pool.Extends pool' → post a b pool → post a b pool')
    {items : List α}
    (h : ∀ a ∈ items, Interns layout pending (fun _ => True) (f a) (post a)) :
    Interns layout pending (fun _ => True) (items.mapM f)
      (fun values pool => List.Forall₂ (fun a b => post a b pool) items values) := by
  induction items with
  | nil =>
    rw [List.mapM_nil]
    exact .pure fun _ _ => .nil
  | cons a items ih =>
    rw [List.mapM_cons]
    have hrest := ih fun a' ha' => h a' (List.mem_cons_of_mem _ ha')
    refine (h a List.mem_cons_self).bind fun b => ?_
    exact (hrest.frame hkept).bind fun values => .pure fun pool ⟨hvalues, hb⟩ => .cons hb hvalues

end

end StorageUpgrade
