import Mathlib.Data.List.Forall2
import StorageUpgrade.Proofs.Expansion
import StorageUpgrade.Upgrade.Comparison

/-!
# Equality of shapes

The table of two pools says of two types that they are equal exactly if they have the same shape:
the same types written out in full, apart from identifiers. What it has been asked before does not
matter, since it only remembers outcomes that are right.
-/

namespace StorageUpgrade

/-! ## Steps that decide -/

section

variable {α β γ σ : Type} {sound : σ → Prop} {p q : Prop} {step step' : StateM σ Bool}

/-- A step that, from a sound state on, decides whether something is true and keeps the state
sound. -/
def Decides (sound : σ → Prop) (step : StateM σ Bool) (p : Prop) : Prop :=
  ∀ s, sound s → ((step s).1 = true ↔ p) ∧ sound (step s).2

theorem Decides.pure {b : Bool} (h : b = true ↔ p) : Decides sound (pure b) p :=
  fun _ hs => ⟨h, hs⟩

theorem Decides.congr (h : Decides sound step p) (hpq : p ↔ q) : Decides sound step q :=
  fun s hs => ⟨(h s hs).1.trans hpq, (h s hs).2⟩

/-- The second step is taken only if the first is true. -/
theorem andM_apply (step step' : StateM σ Bool) (s : σ) : (step <&&> step') s =
    if (step s).1 = true then step' (step s).2 else (false, (step s).2) := by
  change (match (step s).1 with
    | true => step'
    | false => pure (step s).1) (step s).2 = _
  cases (step s).1 <;> rfl

theorem allM_cons (f : α → StateM σ Bool) (item : α) (items : List α) :
    (item :: items).allM f = (f item <&&> items.allM f) := by
  funext s
  rw [andM_apply]
  change (match (f item s).1 with
    | true => items.allM f
    | false => pure false) (f item s).2 = _
  cases (f item s).1 <;> rfl

theorem Decides.and (h : Decides sound step p) (h' : Decides sound step' q) :
    Decides sound (step <&&> step') (p ∧ q) := by
  intro s hs
  obtain ⟨hp, hs'⟩ := h s hs
  rw [andM_apply]
  by_cases hstep : (step s).1 = true
  · obtain ⟨hq, hs''⟩ := h' (step s).2 hs'
    rw [if_pos hstep, hq]
    exact ⟨(and_iff_right (hp.1 hstep)).symm, hs''⟩
  · rw [if_neg hstep]
    exact ⟨iff_of_false Bool.false_ne_true fun hpq => hstep (hp.2 hpq.1), hs'⟩

theorem Decides.allM {f : α → StateM σ Bool} {p : α → Prop} {items : List α}
    (h : ∀ item ∈ items, Decides sound (f item) (p item)) :
    Decides sound (items.allM f) (∀ item ∈ items, p item) := by
  induction items with
  | nil => exact .pure (by simp)
  | cons item items ih =>
    rw [List.forall_mem_cons] at h
    rw [allM_cons, List.forall_mem_cons]
    exact h.1.and (ih h.2)

variable {agree : α → β → StateM σ Bool} {f : α → γ} {g : β → γ}

theorem decides_agreeAll {xs : List α} {ys : List β}
    (h : ∀ x ∈ xs, ∀ y ∈ ys, Decides sound (agree x y) (f x = g y)) :
    Decides sound (agreeAll agree xs ys) (xs.map f = ys.map g) := by
  unfold agreeAll
  split
  next hlength =>
    refine (Decides.allM (p := fun pair => f pair.1 = g pair.2) fun pair hpair => ?_).congr ?_
    · obtain ⟨hx, hy⟩ := List.of_mem_zip hpair
      exact h pair.1 hx pair.2 hy
    · rw [← List.forall₂_eq_eq_eq, List.forall₂_map_left_iff, List.forall₂_map_right_iff,
        List.forall₂_iff_zip]
      exact ⟨fun hpairs => ⟨hlength, fun {x y} hxy => hpairs (x, y) hxy⟩,
        fun hpairs pair hpair => hpairs.2 hpair⟩
  next hlength =>
    refine .pure (iff_of_false Bool.false_ne_true fun heq => hlength ?_)
    simpa using congrArg List.length heq

theorem decides_agreeOption {x? : Option α} {y? : Option β}
    (h : ∀ x, x? = some x → ∀ y, y? = some y → Decides sound (agree x y) (f x = g y)) :
    Decides sound (agreeOption agree x? y?) (x?.map f = y?.map g) := by
  cases x? with
  | none => cases y? <;> exact .pure (by simp)
  | some x =>
    cases y? with
    | none => exact .pure (by simp)
    | some y => exact (h x rfl y rfl).congr (by simp)

theorem decides_agreeLists {xs? : Option (List α)} {ys? : Option (List β)}
    (h : ∀ x ∈ xs?.getD [], ∀ y ∈ ys?.getD [], Decides sound (agree x y) (f x = g y)) :
    Decides sound (agreeOption (agreeAll agree) xs? ys?)
      (xs?.map (List.map f) = ys?.map (List.map g)) := by
  refine decides_agreeOption fun xs hxs ys hys => decides_agreeAll ?_
  rwa [hxs, hys] at h

theorem Members.decides_agree {members : Members α} {members' : Members β}
    (h : ∀ x ∈ members.types, ∀ y ∈ members'.types, Decides sound (agree x y) (f x = g y)) :
    Decides sound (members.agree agree members') (members.map f = members'.map g) := by
  cases members with
  | enum names => cases members' <;> exact .pure (by simp [Members.map])
  | struct fields =>
    cases members' with
    | enum names => exact .pure (by simp [Members.map])
    | struct fields' =>
      have hfields : Decides sound (Members.agree agree (.struct fields) (.struct fields'))
          (fields.map (Member.map f) = fields'.map (Member.map g)) := by
        apply decides_agreeAll
        intro field hfield field' hfield'
        have htype := h field.type (List.mem_map_of_mem hfield)
          field'.type (List.mem_map_of_mem hfield')
        refine (Decides.and (.pure decide_eq_true_iff) htype).congr ?_
        rw [Member.map, Member.map, Member.mk.injEq]
      exact hfields.congr (by rw [Members.map, Members.map, Members.struct.injEq])

/-- Nodes agree if they have the same shape once their references are written out. -/
theorem TypeNode.decides_agree {node : TypeNode α} {node' : TypeNode β} {f : α → TypeShape}
    {g : β → TypeShape}
    (h : ∀ r ∈ node.references, ∀ s ∈ node'.references, Decides sound (agree r s) (f r = g s)) :
    Decides sound (node.agree agree node') ((node.map f).shape = (node'.map g).shape) := by
  simp only [mem_references] at h
  have hargs := decides_agreeLists fun r hr s hs => h r (.inl hr) s (.inl hs)
  have hrets := decides_agreeLists fun r hr s hs => h r (.inr (.inl hr)) s (.inr (.inl hs))
  have hmembers : Decides sound (agreeOption (Members.agree agree) node.members node'.members)
      (node.members.map (Members.map f) = node'.members.map (Members.map g)) := by
    refine decides_agreeOption fun members hmem members' hmem' => Members.decides_agree ?_
    intro r hr s hs
    refine h r (.inr (.inr ?_)) s (.inr (.inr ?_))
    · rwa [hmem]
    · rwa [hmem']
  have hwords : Decides sound (pure (node.head = node'.head && node.label = node'.label))
      (node.head = node'.head ∧ node.label = node'.label) := .pure (by simp)
  refine (hwords.and (hargs.and (hrets.and hmembers))).congr ?_
  rw [shape, shape, TypeShape.node.injEq, and_assoc]
  rfl

end

/-! ## The table of two pools -/

/-- The shapes of the types of a pool, by their numbers. -/
def TypePool.ShapedBy (pool : TypePool) (shapes : Nat → TypeShape) : Prop :=
  ∀ k < pool.size, ∃ node, pool.node? k = some node ∧ (∀ r ∈ node.references, r < k) ∧
    shapes k = (node.map shapes).shape

namespace EqualityTable

/-- A table of two pools that remembers nothing wrong. -/
structure Sound (before after : TypePool) (shapes shapes' : Nat → TypeShape)
    (table : EqualityTable) : Prop where
  before_eq : table.before = before
  after_eq : table.after = after
  outcome : ∀ {i j : Nat} {equal : Bool}, table.outcome? i j = some equal →
    (equal = true ↔ shapes i = shapes' j)

variable {before after : TypePool} {shapes shapes' : Nat → TypeShape}

theorem sound_ofPools (before after : TypePool) (shapes shapes' : Nat → TypeShape) :
    Sound before after shapes shapes' (ofPools before after) where
  before_eq := rfl
  after_eq := rfl
  outcome h := nomatch h

/-- An outcome that is right may be remembered. -/
theorem Sound.record {table : EqualityTable} (h : Sound before after shapes shapes' table)
    {i j : Nat} {equal : Bool} (hequal : equal = true ↔ shapes i = shapes' j) :
    Sound before after shapes shapes' (table.record i j equal) where
  before_eq := h.before_eq
  after_eq := h.after_eq
  outcome := by
    intro i' j' equal' houtcome
    rw [outcome?, EqualityTable.record, List.lookup_cons] at houtcome
    split at houtcome
    next heq =>
      obtain ⟨rfl, rfl⟩ := Prod.mk.inj (eq_of_beq heq)
      exact Option.some.inj houtcome ▸ hequal
    next => exact h.outcome houtcome

theorem ask_of_outcome {table : EqualityTable} {i j : Nat} {equal : Bool}
    (h : table.outcome? i j = some equal) : ask i j table = (equal, table) := by
  rw [ask, get_bind_apply, h]
  rfl

theorem ask_of_new {table : EqualityTable} {i j : Nat} {node node' : TypeNode Nat}
    (h : table.outcome? i j = none) (hnode : table.before.node? i = some node)
    (hnode' : table.after.node? j = some node') :
    ask i j table =
      (fun result => (result.1, result.2.record i j result.1))
        (node.agree (fun r s => if r < i then ask r s else pure false) node' table) := by
  rw [ask, get_bind_apply, h, hnode, hnode']
  rfl

/-- The table decides whether two types have the same shape. -/
theorem decides_ask (hbefore : before.ShapedBy shapes) (hafter : after.ShapedBy shapes')
    {i j : Nat} (hi : i < before.size) (hj : j < after.size) :
    Decides (Sound before after shapes shapes') (ask i j) (shapes i = shapes' j) := by
  induction i using Nat.strongRecOn generalizing j with
  | ind i ih =>
    obtain ⟨node, hnode, hlt, hshape⟩ := hbefore i hi
    obtain ⟨node', hnode', hlt', hshape'⟩ := hafter j hj
    have hparts : Decides (Sound before after shapes shapes')
        (node.agree (fun r s => if r < i then ask r s else pure false) node')
        (shapes i = shapes' j) := by
      rw [hshape, hshape']
      apply TypeNode.decides_agree
      intro r hr s hs
      rw [if_pos (hlt r hr)]
      exact ih r (hlt r hr) (Nat.lt_trans (hlt r hr) hi) (Nat.lt_trans (hlt' s hs) hj)
    intro table htable
    cases houtcome : table.outcome? i j with
    | some equal =>
      rw [ask_of_outcome houtcome]
      exact ⟨htable.outcome houtcome, htable⟩
    | none =>
      rw [← htable.before_eq] at hnode
      rw [← htable.after_eq] at hnode'
      obtain ⟨hequal, hsound⟩ := hparts table htable
      rw [ask_of_new houtcome hnode hnode']
      exact ⟨hequal, hsound.record hequal⟩

/-- A verdict is made of the comparison of names and an answer of the table. -/
theorem exists_classify_eq (hbefore : before.ShapedBy shapes) (hafter : after.ShapedBy shapes')
    {v w : ResolvedVariable} (hv : v.type < before.size) (hw : w.type < after.size)
    {table : EqualityTable} (htable : Sound before after shapes shapes' table) :
    (∃ sameType, (classify v w table).1 = .ofAgreement (v.info.label = w.info.label) sameType ∧
      (sameType = true ↔ shapes v.type = shapes' w.type)) ∧
    Sound before after shapes shapes' (classify v w table).2 := by
  obtain ⟨hequal, hsound⟩ := decides_ask hbefore hafter hv hw table htable
  exact ⟨⟨(ask v.type w.type table).1, rfl, hequal⟩, hsound⟩

end EqualityTable

end StorageUpgrade
