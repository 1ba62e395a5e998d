import Mathlib.Data.List.Basic
import StorageUpgrade.Extraction.Extract

/-!
# Type names that a layout has to describe

A contract reaches the type names in the declarations of its stored variables, and through the name
of a struct those in the declarations of its fields. This is about declarations only: nothing is
said here of the order in which type names are met, or of names that share an identifier.
-/

namespace StorageUpgrade

namespace Source

/-! ## Identifiers -/

/-- The normalized identifier, if there is one that can be read. -/
def TypeDescriptions.typeId? (descriptions : TypeDescriptions) : Option String :=
  descriptions.typeIdentifier.bind fun raw => (Identifier.normalize raw).toOption

def TypeName.typeId? (name : TypeName) : Option String := name.descriptions.typeId?

def Variable.typeId? (declared : Variable) : Option String := declared.descriptions.typeId?

/-- A declaration whose own identifier is that of the type name in it. -/
def Variable.Consistent (declared : Variable) : Prop :=
  ∃ name id, declared.typeName = some name ∧ declared.typeId? = some id ∧ name.typeId? = some id

theorem TypeDescriptions.typeId?_eq_some_iff {descriptions : TypeDescriptions} {id : String} :
    descriptions.typeId? = some id ↔
      ∃ raw, descriptions.typeIdentifier = some raw ∧ Identifier.normalize raw = .ok id := by
  unfold typeId?
  rw [Option.bind_eq_some_iff]
  refine exists_congr fun raw => and_congr_right fun _ => ?_
  cases Identifier.normalize raw <;> simp [Except.toOption]

/-! ## Type names within type names -/

namespace TypeName

theorem mem_listFrom_of_mem {name : TypeName} {pending : List TypeName} (h : name ∈ pending) :
    name ∈ listFrom pending := by
  fun_induction listFrom pending with
  | case1 => cases h
  | case2 first pending ih =>
    rcases List.mem_cons.1 h with rfl | h
    · exact List.mem_cons_self
    · exact List.mem_cons_of_mem _ (ih (List.mem_append_right _ h))

theorem child_mem_listFrom {name child : TypeName} {pending : List TypeName}
    (h : name ∈ listFrom pending) (hchild : child ∈ name.children) :
    child ∈ listFrom pending := by
  fun_induction listFrom pending with
  | case1 => cases h
  | case2 first pending ih =>
    refine List.mem_cons_of_mem _ ?_
    rcases List.mem_cons.1 h with rfl | h
    · exact mem_listFrom_of_mem (List.mem_append_left _ hchild)
    · exact ih h

theorem mem_descendants_self (name : TypeName) : name ∈ name.descendants :=
  mem_listFrom_of_mem List.mem_cons_self

theorem child_mem_descendants {root name child : TypeName} (h : name ∈ root.descendants)
    (hchild : child ∈ name.children) : child ∈ root.descendants :=
  child_mem_listFrom h hchild

end TypeName

end Source

namespace Extraction

open Source (ContractDefinition Declaration DeclarationIndex TypeName Variable)

/-! ## Declarations of members -/

/-- The struct or enum that a type name with a normalized identifier has its members from. -/
def memberDeclaration? (index : DeclarationIndex) (id : String) (name : TypeName) :
    Option Declaration :=
  match name.declaration? with
  | some declaration =>
    if isStructOrEnum id then index.declaration? [.struct, .enum] declaration else none
  | none => none

/-- The variables in the declaration of the struct that a type name refers to. -/
def fieldsOf (index : DeclarationIndex) (name : TypeName) : List Variable :=
  ((name.typeId?.bind (memberDeclaration? index · name)).map Declaration.fields).getD []

theorem mem_declarations_of_memberDeclaration? {index : DeclarationIndex} {id : String}
    {name : TypeName} {declaration : Declaration}
    (h : memberDeclaration? index id name = some declaration) :
    declaration ∈ index.declarations := by
  unfold memberDeclaration? at h
  split at h
  · split at h
    · obtain ⟨hfind, -⟩ := Option.filter_eq_some_iff.1 h
      exact List.mem_of_find?_eq_some hfind
    · cases h
  · cases h

/-! ## What a contract reaches -/

/-- The type names that occur in the declarations of some variables. -/
def namesIn (declared : List Variable) : List TypeName :=
  (declared.filterMap (·.typeName)).flatMap (·.descendants)

theorem mem_namesIn_iff {declared : List Variable} {name : TypeName} :
    name ∈ namesIn declared ↔
      ∃ v ∈ declared, ∃ root, v.typeName = some root ∧ name ∈ root.descendants := by
  simp only [namesIn, List.mem_flatMap, List.mem_filterMap]
  constructor
  · rintro ⟨root, ⟨v, hv, hroot⟩, hname⟩
    exact ⟨v, hv, root, hroot, hname⟩
  · rintro ⟨v, hv, root, hroot, hname⟩
    exact ⟨root, ⟨v, hv, hroot⟩, hname⟩

theorem child_mem_namesIn {declared : List Variable} {name child : TypeName}
    (h : name ∈ namesIn declared) (hchild : child ∈ name.children) : child ∈ namesIn declared := by
  obtain ⟨v, hv, root, hroot, hname⟩ := mem_namesIn_iff.1 h
  exact mem_namesIn_iff.2 ⟨v, hv, root, hroot, TypeName.child_mem_descendants hname hchild⟩

theorem namesIn_subset {declared declared' : List Variable} (h : declared ⊆ declared') :
    namesIn declared ⊆ namesIn declared' := by
  intro name hname
  obtain ⟨v, hv, hroot⟩ := mem_namesIn_iff.1 hname
  exact mem_namesIn_iff.2 ⟨v, h hv, hroot⟩

/-- The variables of a contract that have a place in storage. -/
def storedVariables (contract : ContractDefinition) : List Variable :=
  contract.variables.filter (·.isStored)

/-- The fields of all structs in an index. -/
def indexedFields (index : DeclarationIndex) : List Variable :=
  index.declarations.flatMap (·.fields)

/-- The type names that a contract reaches: those in the declarations of stored variables, and those
in the declarations of the fields of a struct that has been reached. -/
inductive Reached (index : DeclarationIndex) (contract : ContractDefinition) : TypeName → Prop where
  | stored {name : TypeName} : name ∈ namesIn (storedVariables contract) →
    Reached index contract name
  | field {owner name : TypeName} : Reached index contract owner →
    name ∈ namesIn (fieldsOf index owner) → Reached index contract name

section

variable {index : DeclarationIndex} {contract : ContractDefinition} {name part : TypeName}

theorem fieldsOf_subset (index : DeclarationIndex) (name : TypeName) :
    fieldsOf index name ⊆ indexedFields index := by
  intro field hfield
  unfold fieldsOf at hfield
  cases hdeclaration : name.typeId?.bind (memberDeclaration? index · name) with
  | none =>
    rw [hdeclaration] at hfield
    cases hfield
  | some declaration =>
    rw [hdeclaration] at hfield
    obtain ⟨id, -, hmember⟩ := Option.bind_eq_some_iff.1 hdeclaration
    have hindexed := mem_declarations_of_memberDeclaration? hmember
    exact List.mem_flatMap.2 ⟨declaration, hindexed, hfield⟩

/-- The variables that a layout of a contract may draw on: stored ones, and fields of structs. -/
def declaredVariables (index : DeclarationIndex) (contract : ContractDefinition) : List Variable :=
  storedVariables contract ++ indexedFields index

theorem Reached.mem_namesIn (h : Reached index contract name) :
    name ∈ namesIn (declaredVariables index contract) := by
  cases h with
  | stored hname => exact namesIn_subset (List.subset_append_left _ _) hname
  | @field owner _ _ hname =>
    have hfields : fieldsOf index owner ⊆ declaredVariables index contract :=
      List.Subset.trans (fieldsOf_subset index owner) (List.subset_append_right _ _)
    exact namesIn_subset hfields hname

end

end Extraction

end StorageUpgrade
