import StorageUpgrade.Proofs.ShapeEquality

/-!
# Questions within questions

To answer whether two types are equal, the table asks itself about their parts, then about the parts
of these, and so on. Nothing but the numbers of the types keeps this from going on forever, and
nothing but their size keeps it inside the pools. Asked with as many levels as the first pool has
types, no question runs out of levels or into a missing entry: it has the same answer and leaves the
same table.
-/

namespace StorageUpgrade

/-! ## Steps side by side -/

section

variable {α β γ σ τ : Type} {rel : σ → τ → Prop}

/-- From related states on, two steps have the same answer and leave related states. -/
def Simulates (rel : σ → τ → Prop) (step : StateM σ Bool) (step' : StateM τ Bool) : Prop :=
  ∀ s t, rel s t → (step s).1 = (step' t).1 ∧ rel (step s).2 (step' t).2

theorem Simulates.pure (b : Bool) : Simulates rel (pure b) (pure b) :=
  fun _ _ h => ⟨rfl, h⟩

theorem Simulates.and {first second : StateM σ Bool} {first' second' : StateM τ Bool}
    (h : Simulates rel first first') (h' : Simulates rel second second') :
    Simulates rel (first <&&> second) (first' <&&> second') := by
  intro s t hst
  obtain ⟨hanswer, hrel⟩ := h s t hst
  rw [andM_apply, andM_apply, hanswer]
  by_cases htrue : (first' t).1 = true
  · rw [if_pos htrue, if_pos htrue]
    exact h' _ _ hrel
  · rw [if_neg htrue, if_neg htrue]
    exact ⟨rfl, hrel⟩

theorem Simulates.allM {f : γ → StateM σ Bool} {f' : γ → StateM τ Bool} {items : List γ}
    (h : ∀ item ∈ items, Simulates rel (f item) (f' item)) :
    Simulates rel (items.allM f) (items.allM f') := by
  induction items with
  | nil => exact .pure true
  | cons item items ih =>
    rw [List.forall_mem_cons] at h
    rw [allM_cons, allM_cons]
    exact h.1.and (ih h.2)

variable {agree : α → β → StateM σ Bool} {agree' : α → β → StateM τ Bool}

theorem simulates_agreeAll {xs : List α} {ys : List β}
    (h : ∀ x ∈ xs, ∀ y ∈ ys, Simulates rel (agree x y) (agree' x y)) :
    Simulates rel (agreeAll agree xs ys) (agreeAll agree' xs ys) := by
  unfold agreeAll
  split
  next =>
    apply Simulates.allM
    rintro ⟨x, y⟩ hpair
    obtain ⟨hx, hy⟩ := List.of_mem_zip hpair
    exact h x hx y hy
  next => exact .pure false

theorem simulates_agreeOption {x? : Option α} {y? : Option β}
    (h : ∀ x, x? = some x → ∀ y, y? = some y → Simulates rel (agree x y) (agree' x y)) :
    Simulates rel (agreeOption agree x? y?) (agreeOption agree' x? y?) := by
  cases x? with
  | none => cases y? <;> exact .pure _
  | some x =>
    cases y? with
    | none => exact .pure false
    | some y => exact h x rfl y rfl

theorem Members.simulates_agree {members : Members α} {members' : Members β}
    (h : ∀ x ∈ members.types, ∀ y ∈ members'.types, Simulates rel (agree x y) (agree' x y)) :
    Simulates rel (members.agree agree members') (members.agree agree' members') := by
  cases members with
  | enum names => cases members' <;> exact .pure _
  | struct fields =>
    cases members' with
    | enum names => exact .pure false
    | struct fields' =>
      apply simulates_agreeAll
      intro field hfield field' hfield'
      exact (Simulates.pure _).and
        (h _ (List.mem_map_of_mem hfield) _ (List.mem_map_of_mem hfield'))

theorem TypeNode.simulates_agree {node : TypeNode α} {node' : TypeNode β}
    (h : ∀ r ∈ node.references, ∀ s ∈ node'.references, Simulates rel (agree r s) (agree' r s)) :
    Simulates rel (node.agree agree node') (node.agree agree' node') := by
  simp only [mem_references] at h
  have hargs : Simulates rel (agreeOption (agreeAll agree) node.args node'.args)
      (agreeOption (agreeAll agree') node.args node'.args) := by
    refine simulates_agreeOption fun xs hxs ys hys => simulates_agreeAll fun r hr s hs => ?_
    exact h r (.inl (by rwa [hxs])) s (.inl (by rwa [hys]))
  have hrets : Simulates rel (agreeOption (agreeAll agree) node.rets node'.rets)
      (agreeOption (agreeAll agree') node.rets node'.rets) := by
    refine simulates_agreeOption fun xs hxs ys hys => simulates_agreeAll fun r hr s hs => ?_
    exact h r (.inr (.inl (by rwa [hxs]))) s (.inr (.inl (by rwa [hys])))
  have hmembers : Simulates rel (agreeOption (Members.agree agree) node.members node'.members)
      (agreeOption (Members.agree agree') node.members node'.members) := by
    refine simulates_agreeOption fun members hmem members' hmem' =>
      Members.simulates_agree fun r hr s hs => ?_
    exact h r (.inr (.inr (by rwa [hmem]))) s (.inr (.inr (by rwa [hmem'])))
  exact (Simulates.pure _).and (hargs.and (hrets.and hmembers))

end

/-! ## Levels of questions -/

namespace EqualityTable

/-- Whether two types are equal, with at most `levels` questions inside each other. There is no
table afterwards if the levels do not suffice or a type has no entry. -/
def askWithin : Nat → Nat → Nat → StateM (Option EqualityTable) Bool
  | 0, _, _ => do
    set (none : Option EqualityTable)
    return false
  | levels + 1, i, j => do
    let some table ← get | return false
    match table.outcome? i j with
    | some equal => return equal
    | none =>
      match table.before.node? i, table.after.node? j with
      | some node, some node' =>
        let equal ← node.agree (askWithin levels) node'
        modify (·.map (·.record i j equal))
        return equal
      | _, _ =>
        set (none : Option EqualityTable)
        return false

/-- A state that is the given table, which is about two pools. -/
structure Carries (before after : TypePool) (state : Option EqualityTable) (table : EqualityTable) :
    Prop where
  state_eq : state = some table
  before_eq : table.before = before
  after_eq : table.after = after

theorem askWithin_of_outcome {levels i j : Nat} {table : EqualityTable} {equal : Bool}
    (h : table.outcome? i j = some equal) :
    askWithin (levels + 1) i j (some table) = (equal, some table) := by
  rw [askWithin, get_bind_apply]
  simp only [h]
  rfl

theorem askWithin_of_new {levels i j : Nat} {table : EqualityTable} {node node' : TypeNode Nat}
    (h : table.outcome? i j = none) (hnode : table.before.node? i = some node)
    (hnode' : table.after.node? j = some node') :
    askWithin (levels + 1) i j (some table) =
      (fun result => (result.1, result.2.map (·.record i j result.1)))
        (node.agree (askWithin levels) node' (some table)) := by
  rw [askWithin, get_bind_apply]
  simp only [h, hnode, hnode']
  rfl

section

variable {before after : TypePool}
  (hbefore : ∀ k < before.size, ∃ node, before.node? k = some node ∧ ∀ r ∈ node.references, r < k)
  (hafter : ∀ k < after.size, ∃ node, after.node? k = some node ∧ ∀ r ∈ node.references, r < k)
include hbefore hafter

/-- Since types refer to types before them, the number of the first type bounds the levels. -/
theorem simulates_askWithin {levels i j : Nat} (hlevels : i < levels) (hi : i < before.size)
    (hj : j < after.size) : Simulates (Carries before after) (askWithin levels i j) (ask i j) := by
  induction levels generalizing i j with
  | zero => exact absurd hlevels (Nat.not_lt_zero i)
  | succ levels ih =>
    obtain ⟨node, hnode, hlt⟩ := hbefore i hi
    obtain ⟨node', hnode', hlt'⟩ := hafter j hj
    have hparts : Simulates (Carries before after) (node.agree (askWithin levels) node')
        (node.agree (fun r s => if r < i then ask r s else pure false) node') := by
      apply TypeNode.simulates_agree
      intro r hr s hs
      have hri : r < i := hlt r hr
      rw [if_pos hri]
      exact ih (by omega) (Nat.lt_trans hri hi) (Nat.lt_trans (hlt' s hs) hj)
    rintro _ table ⟨rfl, htable, htable'⟩
    cases houtcome : table.outcome? i j with
    | some equal =>
      rw [askWithin_of_outcome houtcome, ask_of_outcome houtcome]
      exact ⟨rfl, rfl, htable, htable'⟩
    | none =>
      obtain ⟨hanswer, hstate, hbefore_eq, hafter_eq⟩ :=
        hparts (some table) table ⟨rfl, htable, htable'⟩
      rw [← htable] at hnode
      rw [← htable'] at hnode'
      rw [askWithin_of_new houtcome hnode hnode', ask_of_new houtcome hnode hnode']
      refine ⟨hanswer, ?_, hbefore_eq, hafter_eq⟩
      simp only [hstate, hanswer]
      rfl

/-- A number of levels as large as the first pool is enough for every question. -/
theorem askWithin_eq {table : EqualityTable} (htable : table.before = before)
    (htable' : table.after = after) {i j : Nat} (hi : i < before.size) (hj : j < after.size) :
    askWithin before.size i j (some table) = ((ask i j table).1, some (ask i j table).2) := by
  obtain ⟨hanswer, hcarries⟩ :=
    simulates_askWithin hbefore hafter hi hi hj (some table) table ⟨rfl, htable, htable'⟩
  exact Prod.ext hanswer hcarries.state_eq

end

end EqualityTable

end StorageUpgrade
