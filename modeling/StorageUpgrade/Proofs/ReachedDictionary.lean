import Mathlib.Data.List.Sort
import StorageUpgrade.Proofs.CompleteDeclarations

/-!
# The dictionary is what is reached

Of several type names with one identifier, extraction makes an entry of the one that it happens to
meet first. Where such type names say the same, this choice does not show: the entries are those of
all type names that are reached, in whatever order the variables come.
-/

namespace StorageUpgrade

/-! ## Dictionaries with the same values -/

namespace Dictionary

variable {α : Type} {d d' : Dictionary α} {key : String} {value : α}

end Dictionary

namespace Source

/-- Two type names that are shown alike and refer to one declaration, or both to none. -/
structure TypeName.Alike (name name' : TypeName) : Prop where
  label : name.descriptions.typeString = name'.descriptions.typeString
  declaration : name.declaration? = name'.declaration?

instance (name name' : TypeName) : Decidable (name.Alike name') :=
  decidable_of_iff (_ ∧ _) ⟨fun h => ⟨h.1, h.2⟩, fun h => ⟨h.label, h.declaration⟩⟩

end Source

namespace Extraction

open Source (ContractDefinition Declaration DeclarationIndex Locator TypeName Variable)

/-- The type names of one identifier that a contract reaches are alike. -/
def Coherent (index : DeclarationIndex) (contract : ContractDefinition) : Prop :=
  ∀ name name' id, Reached index contract name → Reached index contract name' →
    name.typeId? = some id → name'.typeId? = some id → name.Alike name'

section

variable {index : DeclarationIndex} {name name' : TypeName} {id : String} {entry entry' : TypeEntry}

theorem MembersOf.unique {declaration? : Option Declaration}
    {members? members?' : Option (Members String)} (h : MembersOf declaration? members?)
    (h' : MembersOf declaration? members?') : members? = members?' := by
  have hunique : Relator.RightUnique MemberOf := by
    rintro field ⟨label, type⟩ ⟨label', type'⟩ hmember hmember'
    obtain rfl : label = label' := hmember.label.trans hmember'.label.symm
    obtain rfl : type = type' := Option.some.inj (hmember.type.symm.trans hmember'.type)
    rfl
  cases h with
  | none => cases h'; rfl
  | struct hforall =>
    cases h' with
    | struct hforall' => rw [List.right_unique_forall₂' hunique hforall hforall']
  | enum => cases h'; rfl

theorem Describes.unique (h : Describes index name id entry) (h' : Describes index name id entry') :
    entry = entry' := by
  obtain ⟨label, members⟩ := entry
  obtain ⟨label', members'⟩ := entry'
  obtain rfl : label = label' := Option.some.inj (h.label.symm.trans h'.label)
  obtain rfl : members = members' := h.members.unique h'.members
  rfl

/-! ## Type names that are alike -/

theorem memberDeclaration?_congr (h : name.Alike name') :
    memberDeclaration? index id name = memberDeclaration? index id name' := by
  rw [memberDeclaration?, memberDeclaration?, h.declaration]

theorem fieldsOf_congr (h : name.Alike name') (hid : name.typeId? = name'.typeId?) :
    fieldsOf index name = fieldsOf index name' := by
  simp only [fieldsOf, hid, memberDeclaration?_congr h]

theorem Describes.congr (h : Describes index name id entry) (halike : name.Alike name')
    (hid : name'.typeId? = some id) : Describes index name' id entry where
  typeId := hid
  label := halike.label ▸ h.label
  members := memberDeclaration?_congr halike ▸ h.members

theorem Complete.congr (h : Complete index name) (halike : name.Alike name')
    (hid : name.typeId? = name'.typeId?) : Complete index name' where
  typeId := hid ▸ h.typeId
  label := halike.label ▸ h.label
  found := by
    rw [← hid, ← halike.declaration]
    exact h.found
  fields := by
    rw [← fieldsOf_congr halike hid]
    exact h.fields

end

/-! ## What is reached has entries -/

section

variable {index : DeclarationIndex} {locate : Locator} {contract : ContractDefinition}
  {layout : Layout} {name : TypeName} {id : String} {entry : TypeEntry}

/-- By induction on how the type name is reached. The owner of a field may itself have no entry, but
one that is alike has, and its fields are the same. -/
theorem Coherent.handled (h : Coherent index contract)
    (hextract : extract index locate contract = .ok layout) (hname : Reached index contract name) :
    Handled layout [] name := by
  obtain ⟨hrecorded, hforall⟩ := extract_spec hextract
  induction hname with
  | stored hname =>
    obtain ⟨declared, hdeclared, root, hroot, hsub⟩ := mem_namesIn_iff.1 hname
    obtain ⟨stored, -, hstored⟩ := exists_of_mem_forall₂ hforall.flip hdeclared
    exact hstored.handled _ (mem_namesIn_iff.2 ⟨declared, List.mem_cons_self, root, hroot, hsub⟩)
  | @field owner name howner hname ih =>
    obtain ⟨id, hid, hdefines⟩ := handled_nil_iff.1 ih
    obtain ⟨entry, hentry⟩ := Option.isSome_iff_exists.1 hdefines
    obtain ⟨other, hother, hdescribes, hsettled⟩ := hrecorded id entry hentry
    have halike := h owner other id howner hother hid hdescribes.typeId
    rw [fieldsOf_congr halike (hid.trans hdescribes.typeId.symm)] at hname
    exact hsettled.fields name hname

/-- Nothing that is reached lacks anything, if extraction succeeds at all. -/
theorem Coherent.extractable (h : Coherent index contract)
    (hextract : extract index locate contract = .ok layout) : Extractable index contract := by
  obtain ⟨hfounded, htyped⟩ := founded_of_extract hextract
  refine ⟨htyped, fun name hname => ?_⟩
  obtain ⟨id, hid, hdefines⟩ := handled_nil_iff.1 (h.handled hextract hname)
  obtain ⟨other, hother, hotherId, hcomplete⟩ := hfounded id hdefines
  exact hcomplete.congr (h other name id hother hname hotherId hid) (hotherId.trans hid.symm)

variable {permuted : ContractDefinition}

theorem Reached.mono (h : storedVariables contract ⊆ storedVariables permuted)
    (hname : Reached index contract name) : Reached index permuted name := by
  induction hname with
  | stored hname => exact .stored (namesIn_subset h hname)
  | field _ hname ih => exact .field ih hname

end

/-! ## Nodes in another order -/

end Extraction

end StorageUpgrade
