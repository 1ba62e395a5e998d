import StorageUpgrade.Proofs.Coverage

/-!
# The dictionary of an extracted layout

Every identifier that an extracted layout uses for the type of a variable or of a field has an
entry. This needs declarations that are consistent: the identifier in a layout is the declaration's
own, while entries are made for the type name in it. The identifiers in the brackets of others are
no matter here.
-/

namespace StorageUpgrade

theorem exists_of_mem_forall₂ {α β : Type} {R : α → β → Prop} {as : List α} {bs : List β}
    (h : List.Forall₂ R as bs) {b : β} (hb : b ∈ bs) : ∃ a ∈ as, R a b := by
  induction h with
  | nil => cases hb
  | cons hab _ ih =>
    rcases List.mem_cons.1 hb with rfl | hb
    · exact ⟨_, List.mem_cons_self, hab⟩
    · obtain ⟨a, ha, hab⟩ := ih hb
      exact ⟨a, List.mem_cons_of_mem _ ha, hab⟩

namespace Source

theorem Variable.consistent_iff {declared : Variable} :
    declared.Consistent ↔ declared.typeId?.isSome = true ∧
      declared.typeName.bind TypeName.typeId? = declared.typeId? := by
  unfold Consistent
  rw [Option.isSome_iff_exists]
  constructor
  · intro ⟨name, id, hname, hid, hnameId⟩
    rw [hname, hid]
    exact ⟨⟨id, rfl⟩, hnameId⟩
  · intro ⟨⟨id, hid⟩, heq⟩
    rw [hid, Option.bind_eq_some_iff] at heq
    obtain ⟨name, hname, hnameId⟩ := heq
    exact ⟨name, id, hname, hid, hnameId⟩

instance (declared : Variable) : Decidable declared.Consistent :=
  decidable_of_iff _ Variable.consistent_iff.symm

end Source

namespace Extraction

open Source (ContractDefinition DeclarationIndex Locator TypeName Variable)

section

variable {index : DeclarationIndex} {locate : Locator} {contract : ContractDefinition}
  {layout : Layout}

/-- The type of a consistent declaration has an entry as soon as its type name does. -/
theorem defines_of_consistent {declared : Variable} {id : String} (h : declared.Consistent)
    (hid : declared.typeId? = some id) (hhandled : ∀ name ∈ namesIn [declared],
      Handled layout [] name) : layout.defines id = true := by
  obtain ⟨root, id', hroot, hid', hrootId⟩ := h
  have hmem : root ∈ namesIn [declared] :=
    mem_namesIn_iff.2 ⟨declared, List.mem_cons_self, root, hroot, root.mem_descendants_self⟩
  obtain ⟨id'', hrootId', hdefines⟩ := handled_nil_iff.1 (hhandled root hmem)
  rw [hid] at hid'
  rw [hrootId] at hrootId'
  cases hid'
  cases hrootId'
  exact hdefines

/-- A field of a struct in a layout and its declaration. -/
theorem exists_field_of_describes {name : TypeName} {id : String} {entry : TypeEntry}
    {fields : List (Member String)} {field : Member String} (h : Describes index name id entry)
    (hfields : entry.members = some (.struct fields)) (hfield : field ∈ fields) :
    ∃ declared ∈ fieldsOf index name, MemberOf declared field := by
  have hmembers := h.members
  rw [hfields] at hmembers
  cases hdeclaration : memberDeclaration? index id name with
  | none =>
    rw [hdeclaration] at hmembers
    cases hmembers
  | some declaration =>
    rw [hdeclaration] at hmembers
    cases hmembers with
    | @struct definition _ hforall =>
      obtain ⟨declared, hdeclared, hmember⟩ := exists_of_mem_forall₂ hforall hfield
      refine ⟨declared, ?_, hmember⟩
      rw [fieldsOf, h.typeId, Option.bind_some, hdeclaration]
      exact hdeclared

/-- A stored variable in an extracted layout has an entry for its type. -/
theorem defines_of_stored (hextract : extract index locate contract = .ok layout)
    (hconsistent : ∀ declared ∈ declaredVariables index contract, declared.Consistent)
    {stored : StoredVariable} (hstored : stored ∈ layout.stored) :
    layout.defines stored.typeId = true := by
  obtain ⟨-, hforall⟩ := extract_spec hextract
  obtain ⟨declared, hdeclared, hvariable⟩ := exists_of_mem_forall₂ hforall hstored
  have hmem : declared ∈ declaredVariables index contract := List.mem_append_left _ hdeclared
  exact defines_of_consistent (hconsistent _ hmem) hvariable.typeId hvariable.handled

/-- So does a field of a struct, as soon as nothing waits. -/
theorem defines_of_field (hrecorded : Recorded index contract layout [])
    (hconsistent : ∀ declared ∈ declaredVariables index contract, declared.Consistent)
    {id : String} {entry : TypeEntry} {fields : List (Member String)} {field : Member String}
    (hentry : layout.type? id = some entry) (hfields : entry.members = some (.struct fields))
    (hfield : field ∈ fields) : layout.defines field.type = true := by
  obtain ⟨name, -, hdescribes, hsettled⟩ := hrecorded id entry hentry
  obtain ⟨declared, hdeclared, hmember⟩ := exists_field_of_describes hdescribes hfields hfield
  have hmem : declared ∈ declaredVariables index contract :=
    List.mem_append_right _ (fieldsOf_subset index name hdeclared)
  have hsub : [declared] ⊆ fieldsOf index name := by simpa using hdeclared
  exact defines_of_consistent (hconsistent _ hmem) hmember.type
    fun sub hname => hsettled.fields sub (namesIn_subset hsub hname)

/-- What is extracted from consistent declarations has an entry for the type of every variable and
of every field of a struct. -/
theorem extract_closed (hextract : extract index locate contract = .ok layout)
    (hconsistent : ∀ declared ∈ declaredVariables index contract, declared.Consistent) :
    (∀ stored ∈ layout.stored, layout.defines stored.typeId = true) ∧
      ∀ id entry fields, layout.type? id = some entry → entry.members = some (.struct fields) →
        ∀ field ∈ fields, layout.defines field.type = true := by
  obtain ⟨hrecorded, -⟩ := extract_spec hextract
  constructor
  · intro stored hstored
    exact defines_of_stored hextract hconsistent hstored
  · intro id entry fields hentry hfields field hfield
    exact defines_of_field hrecorded hconsistent hentry hfields hfield

end

/-! ## A list of nodes -/

section

open Source (ContractNode SourceUnit TypeDescriptions UnitNode)

/-- A contract with a struct that holds itself through a mapping, and two variables that share
it. -/
def nodes : ContractDefinition :=
  let number : TypeName := .elementary ⟨some "t_uint256", some "uint256"⟩
  let node : TypeName := .userDefined 2 ⟨some "t_struct$_Node_$2_storage_ptr", some "struct Node"⟩
  let declare := fun (id : Int) (name : String) (type : TypeName) (raw : String) =>
    (⟨id, name, false, some .mutable, "", some type, ⟨some raw, none⟩⟩ : Variable)
  let links := "t_mapping$_t_uint256_$_t_struct$_Node_$2_storage_$"
  let next : TypeName := .mapping number node ⟨some links, some "mapping(uint256 => struct Node)"⟩
  ⟨1, "Nodes", [
    .struct ⟨2, "Node", [declare 3 "value" number "t_uint256", declare 4 "next" next links]⟩,
    .stateVariable (declare 5 "first" node "t_struct$_Node_$2_storage"),
    .stateVariable (declare 6 "all" next links)]⟩

def nodesIndex : DeclarationIndex :=
  .ofUnits [⟨0, "Nodes.sol", [.contract nodes]⟩]

theorem extract_closed_nodes :
    (∀ declared ∈ declaredVariables nodesIndex nodes, declared.Consistent) ∧
      ∃ layout, extract nodesIndex Locator.raw nodes = .ok layout ∧
        (∀ stored ∈ layout.stored, layout.defines stored.typeId = true) ∧
          ∀ id entry fields, layout.type? id = some entry → entry.members = some (.struct fields) →
            ∀ field ∈ fields, layout.defines field.type = true := by
  have hconsistent : ∀ declared ∈ declaredVariables nodesIndex nodes, declared.Consistent := by
    decide +kernel
  have hok : (extract nodesIndex Locator.raw nodes).isOk = true := by decide +kernel
  obtain ⟨layout, hextract⟩ := exists_ok_of_isOk hok
  exact ⟨hconsistent, layout, hextract, extract_closed hextract hconsistent⟩

end

end Extraction

end StorageUpgrade
