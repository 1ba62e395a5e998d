import StorageUpgrade.Source.Tree

/-!
# Type names within type names

Type names hold variables, as the parameters and results of functions, and variables type names.
Proofs about them need not follow both: they go from a type name to its children, wherever these
stand. The numbers in a type name are those in its children, and its own.
-/

namespace StorageUpgrade.Source

/-! ## Numbers of declarations -/

mutual

/-- All numbers in a type name: those of the declarations that it refers to, and those of the
parameters of functions. -/
def TypeName.ids : TypeName → List Int
  | .elementary _ => []
  | .userDefined declaration _ => [declaration]
  | .array base _ => base.ids
  | .mapping key value _ => key.ids ++ value.ids
  | .function parameters returns _ => variablesIds parameters ++ variablesIds returns

def Variable.ids : Variable → List Int
  | { id, typeName := none, .. } => [id]
  | { id, typeName := some name, .. } => id :: name.ids

def variablesIds : List Variable → List Int
  | [] => []
  | v :: vs => v.ids ++ variablesIds vs

end

theorem Variable.id_mem_ids (declared : Variable) : declared.id ∈ declared.ids := by
  obtain ⟨id, name, constant, mutability, src, _ | typeName, descriptions⟩ := declared <;>
    exact List.mem_cons_self

theorem Variable.ids_subset {declared : Variable} {name : TypeName}
    (h : declared.typeName = some name) : name.ids ⊆ declared.ids := by
  obtain ⟨id, label, constant, mutability, src, typeName, descriptions⟩ := declared
  cases h
  exact List.subset_cons_self id name.ids

theorem mem_variablesIds_iff {vs : List Variable} {id : Int} :
    id ∈ variablesIds vs ↔ ∃ v ∈ vs, id ∈ v.ids := by
  induction vs with
  | nil => simp [variablesIds]
  | cons v vs ih => simp [variablesIds, ih]

/-! ## Children -/

namespace TypeName

@[simp]
theorem totalSize_singleton (name : TypeName) : totalSize [name] = name.size := by
  rw [totalSize_cons, totalSize, Nat.add_zero]

@[simp]
theorem totalSize_reverse (names : List TypeName) : totalSize names.reverse = totalSize names := by
  induction names with
  | nil => rfl
  | cons name names ih =>
    rw [List.reverse_cons, totalSize_append, totalSize_singleton, totalSize_cons, ih,
      Nat.add_comm]

theorem size_le_totalSize {name : TypeName} {names : List TypeName} (h : name ∈ names) :
    name.size ≤ totalSize names := by
  induction names with
  | nil => cases h
  | cons first names ih =>
    rw [totalSize_cons]
    rcases List.mem_cons.1 h with rfl | h
    · omega
    · have hle := ih h
      omega

/-- What holds of a type name if it holds of its children holds of all. -/
theorem induction_children {P : TypeName → Prop}
    (step : ∀ name, (∀ inner ∈ name.children, P inner) → P name) (name : TypeName) : P name :=
  step name fun inner _ => induction_children step inner
termination_by name.size
decreasing_by
  have hsize := totalSize_children name
  have hle := size_le_totalSize ‹inner ∈ name.children›
  omega

variable {name inner : TypeName}

section

variable {parameters returns : List Variable} {descriptions : TypeDescriptions} {v : Variable}

/-- The children of a function are the types of its parameters and results. -/
theorem mem_children_of_parameter (hv : v ∈ parameters ++ returns) (h : v.typeName = some inner) :
    inner ∈ (function parameters returns descriptions).children :=
  List.mem_filterMap.2 ⟨v, hv, h⟩

theorem ids_subset_of_parameter (hv : v ∈ parameters ++ returns) :
    v.ids ⊆ (function parameters returns descriptions).ids := by
  intro id hid
  rw [ids, List.mem_append, mem_variablesIds_iff, mem_variablesIds_iff]
  rcases List.mem_append.1 hv with hv | hv
  · exact .inl ⟨v, hv, hid⟩
  · exact .inr ⟨v, hv, hid⟩

end

theorem ids_subset_of_mem_children (h : inner ∈ name.children) : inner.ids ⊆ name.ids := by
  cases name with
  | elementary => cases h
  | userDefined => cases h
  | array base =>
    rw [List.mem_singleton.1 h]
    exact List.Subset.refl base.ids
  | mapping key value =>
    rw [ids]
    rcases List.mem_cons.1 h with rfl | h
    · exact List.subset_append_left _ _
    · rw [List.mem_singleton.1 h]
      exact List.subset_append_right _ _
  | function parameters returns =>
    obtain ⟨v, hv, hname⟩ := List.mem_filterMap.1 h
    exact List.Subset.trans (Variable.ids_subset hname) (ids_subset_of_parameter hv)

end TypeName

end StorageUpgrade.Source
