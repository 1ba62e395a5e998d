import StorageUpgrade.Layout.Basic

/-!
# Type nodes

All that one identifier says about its type: the word it begins with, the types in its brackets
and behind them, and what the dictionary has under it. `ref` says how the types that it is made of
are referred to: by identifiers in a layout, by numbers once the layout is resolved.
-/

namespace StorageUpgrade

/-- One level of a type. -/
structure TypeNode (ref : Type) where
  id : String
  head : String
  args : Option (List ref)
  rets : Option (List ref)
  label : String
  members : Option (Members ref)
  deriving DecidableEq, Repr

variable {α β γ ref : Type}

def Member.map (f : α → β) (member : Member α) : Member β where
  label := member.label
  type := f member.type

def Members.map (f : α → β) : Members α → Members β
  | struct fields => .struct (fields.map (Member.map f))
  | enum names => .enum names

def Member.mapM [Monad m] (f : α → m β) (member : Member α) : m (Member β) := do
  return { label := member.label, type := ← f member.type }

def Members.mapM [Monad m] (f : α → m β) : Members α → m (Members β)
  | struct fields => return .struct (← fields.mapM (Member.mapM f))
  | enum names => return .enum names

namespace TypeNode

def map (f : α → β) (node : TypeNode α) : TypeNode β :=
  { node with
    args := node.args.map (List.map f)
    rets := node.rets.map (List.map f)
    members := node.members.map (Members.map f) }

/-- Replaces all references in a monad: arguments, then results, then members. -/
def mapM [Monad m] (f : α → m β) (node : TypeNode α) : m (TypeNode β) := do
  let args ← node.args.mapM (List.mapM f)
  let rets ← node.rets.mapM (List.mapM f)
  let members ← node.members.mapM (Members.mapM f)
  return { node with args, rets, members }

/-- The references of a node, in the order in which they are replaced. -/
def references (node : TypeNode ref) : List ref :=
  node.args.getD [] ++ node.rets.getD [] ++ (node.members.map Members.types).getD []

end TypeNode

@[simp]
theorem Members.types_map (f : α → β) (members : Members α) :
    (members.map f).types = members.types.map f := by
  cases members with
  | struct fields => simp [Members.map, Members.types, Member.map]
  | enum names => rfl

@[simp]
theorem Members.map_id (members : Members α) : members.map (fun r => r) = members := by
  cases members with
  | struct fields => exact congrArg struct (List.map_id' fields)
  | enum names => rfl

theorem Members.map_map (f : α → β) (g : β → γ) (members : Members α) :
    (members.map f).map g = members.map (g ∘ f) := by
  cases members with
  | struct fields => simp [Members.map, Member.map, Function.comp_def]
  | enum names => rfl

theorem Members.map_eq_map_iff {f g : α → β} {members : Members α} :
    members.map f = members.map g ↔ ∀ r ∈ members.types, f r = g r := by
  cases members with
  | struct fields => simp [Members.map, Members.types, Member.map]
  | enum names => simp [Members.map, Members.types]

/-! ## Replacing references that may be missing -/

section

variable {f : α → Option β} {g : α → γ} {h : β → γ}

theorem mapM_list_eq_some_iff (hf : ∀ a b, f a = some b ↔ g a = h b) {as : List α}
    {bs : List β} : as.mapM f = some bs ↔ as.map g = bs.map h := by
  induction as generalizing bs with
  | nil => cases bs <;> simp
  | cons a as ih => cases bs <;> simp [← ih, ← hf, Option.bind_eq_some_iff]

theorem mapM_option_eq_some_iff (hf : ∀ a b, f a = some b ↔ g a = h b) {a? : Option α}
    {b? : Option β} : a?.mapM f = some b? ↔ a?.map g = b?.map h := by
  cases a? <;> cases b? <;> simp [← hf]

end

theorem Member.mapM_eq_some_iff {f : α → Option β} (member : Member α) (member' : Member β) :
    member.mapM f = some member' ↔ member.map f = member'.map some := by
  obtain ⟨label, type⟩ := member
  obtain ⟨label', type'⟩ := member'
  simp only [Member.mapM, Member.map, Option.bind_eq_bind, Option.bind_eq_some_iff, Option.pure_def,
    Option.some.injEq, Member.mk.injEq]
  constructor
  · rintro ⟨a, ha, rfl, rfl⟩
    exact ⟨rfl, ha⟩
  · rintro ⟨rfl, ha⟩
    exact ⟨type', ha, rfl, rfl⟩

theorem Members.mapM_eq_some_iff {f : α → Option β} (members : Members α)
    (members' : Members β) :
    members.mapM f = some members' ↔ members.map f = members'.map some := by
  cases members with
  | struct fields =>
    have hfields : ∀ fields', fields.mapM (Member.mapM f) = some fields' ↔
        fields.map (Member.map f) = fields'.map (Member.map some) :=
      fun _ => mapM_list_eq_some_iff Member.mapM_eq_some_iff
    cases members' <;> simp [Members.mapM, Members.map, Option.bind_eq_some_iff, hfields]
  | enum names => cases members' <;> simp [Members.mapM, Members.map]

namespace TypeNode

theorem mem_references {node : TypeNode ref} {r : ref} : r ∈ node.references ↔
    r ∈ node.args.getD [] ∨ r ∈ node.rets.getD [] ∨
      r ∈ (node.members.map Members.types).getD [] := by
  rw [references, List.mem_append, List.mem_append, or_assoc]

@[simp]
theorem references_map (f : α → β) (node : TypeNode α) :
    (node.map f).references = node.references.map f := by
  obtain ⟨id, head, args, rets, label, members⟩ := node
  cases args <;> cases rets <;> cases members <;> simp [references, map]

@[simp]
theorem map_id (node : TypeNode α) : node.map (fun r => r) = node := by
  obtain ⟨id, head, args, rets, label, members⟩ := node
  cases args <;> cases rets <;> cases members <;> simp [map]

theorem map_map (f : α → β) (g : β → γ) (node : TypeNode α) :
    (node.map f).map g = node.map (g ∘ f) := by
  simp [map, Members.map_map, Function.comp_def]

theorem map_eq_map_iff {f g : α → β} {node : TypeNode α} :
    node.map f = node.map g ↔ ∀ r ∈ node.references, f r = g r := by
  obtain ⟨id, head, args, rets, label, members⟩ := node
  cases args <;> cases rets <;> cases members <;>
    simp [references, map, Members.map_eq_map_iff, or_imp, forall_and]

theorem mapM_eq_some_iff {f : α → Option β} {node : TypeNode α} {node' : TypeNode β} :
    node.mapM f = some node' ↔ node.map f = node'.map some := by
  obtain ⟨id, head, args, rets, label, members⟩ := node
  obtain ⟨id', head', args', rets', label', members'⟩ := node'
  have hlist : ∀ refs? refs'?, Option.mapM (List.mapM f) refs? = some refs'? ↔
      refs?.map (List.map f) = refs'?.map (List.map some) :=
    fun _ _ => mapM_option_eq_some_iff fun _ _ => mapM_list_eq_some_iff fun _ _ => Iff.rfl
  have hmembers : ∀ members? members'?, Option.mapM (Members.mapM f) members? = some members'? ↔
      members?.map (Members.map f) = members'?.map (Members.map some) :=
    fun _ _ => mapM_option_eq_some_iff Members.mapM_eq_some_iff
  simp only [mapM, map, ← hlist, ← hmembers, Option.bind_eq_bind, Option.bind_eq_some_iff,
    Option.pure_def, Option.some.injEq, mk.injEq]
  constructor
  · rintro ⟨_, hargs, _, hrets, _, hmembers, rfl, rfl, rfl, rfl, rfl, rfl⟩
    exact ⟨rfl, rfl, hargs, hrets, rfl, hmembers⟩
  · rintro ⟨rfl, rfl, hargs, hrets, rfl, hmembers⟩
    exact ⟨_, hargs, _, hrets, _, hmembers, rfl, rfl, rfl, rfl, rfl, rfl⟩

theorem exists_of_map_eq_map_some {f : α → Option β} {node : TypeNode α} {parts : TypeNode β}
    (h : node.map f = parts.map some) {r : α} (hr : r ∈ node.references) :
    ∃ b ∈ parts.references, f r = some b := by
  have hmem : f r ∈ (parts.map some).references := by
    rw [← h, references_map]
    exact List.mem_map_of_mem hr
  rw [references_map] at hmem
  obtain ⟨b, hb, heq⟩ := List.mem_map.1 hmem
  exact ⟨b, hb, heq.symm⟩

theorem map_getD_of_map_eq_map_some {f : α → Option β} {node : TypeNode α} {parts : TypeNode β}
    (h : node.map f = parts.map some) (default : β) :
    node.map (fun r => (f r).getD default) = parts := by
  have hmap := congrArg (TypeNode.map fun b? => b?.getD default) h
  rw [map_map, map_map] at hmap
  exact hmap.trans parts.map_id

/-- References that have values keep them when more references get values. -/
theorem map_eq_map_some_mono {f g : α → Option β} {node : TypeNode α} {parts : TypeNode β}
    (hfg : ∀ r b, f r = some b → g r = some b) (h : node.map f = parts.map some) :
    node.map g = parts.map some := by
  rw [← h, map_eq_map_iff]
  intro r hr
  obtain ⟨b, -, hb⟩ := exists_of_map_eq_map_some h hr
  rw [hb]
  exact hfg r b hb

end TypeNode

end StorageUpgrade
