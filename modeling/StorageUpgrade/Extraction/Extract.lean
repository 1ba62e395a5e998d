import StorageUpgrade.Extraction.Worklist
import StorageUpgrade.Layout.Basic
import StorageUpgrade.Source.Index
import StorageUpgrade.Source.Location

/-!
# Extracting layouts

The layout of a contract lists its stored variables in order of declaration, and describes every
type that can be reached from them: the types that a type name is made of, and those of the fields
of a struct that it refers to.
-/

namespace StorageUpgrade.Extraction

open Source (ContractDefinition DeclarationIndex Locator TypeName Variable)

def typeIdOf (declared : Variable) : Except ExtractionError String :=
  match declared.descriptions.typeIdentifier with
  | none => .error (.missingTypeIdentifier declared.name)
  | some raw => (Identifier.normalize raw).mapError .identifier

def typeNameOf (declared : Variable) : Except ExtractionError TypeName :=
  match declared.typeName with
  | none => .error (.missingTypeName declared.name)
  | some name => .ok name

def isStructOrEnum (id : String) : Bool :=
  [Identifier.NamedKind.struct, .enum].any fun kind =>
    (kind.head ++ ['(']).isPrefixOf id.toList

/-- The members of a struct with the given fields. The names of their types are queued. -/
def readFields (work : Worklist) :
    List Variable → Except ExtractionError (List (Member String) × Worklist)
  | [] => .ok ([], work)
  | field :: fields => do
    let type ← typeIdOf field
    let name ← typeNameOf field
    let work ← work.pushAll field.name name.descendants
    let (members, work) ← readFields work fields
    return (⟨field.name, type⟩ :: members, work)

/-- The members of the type with a normalized identifier. Only structs and enums have any. -/
def readMembers (index : DeclarationIndex) (work : Worklist) (owner id : String)
    (name : TypeName) : Except ExtractionError (Option (Members String) × Worklist) :=
  match name.declaration? with
  | none => .ok (none, work)
  | some declaration =>
    if isStructOrEnum id then
      match index.declaration? [.struct, .enum] declaration with
      | none => .error (.unresolvedReference owner declaration)
      | some (.struct definition) => do
        let (members, work) ← readFields work definition.members
        return (some (.struct members), work)
      | some (.enum definition) => .ok (some (.enum definition.members), work)
    else .ok (none, work)

/-- Describes the type that a name stands for, unless the layout does so already. -/
def record (index : DeclarationIndex) (work : Worklist) (owner : String) (name : TypeName)
    (layout : Layout) : Except ExtractionError (Layout × Worklist) := do
  let raw ← rawIdOf owner name
  let id ← (Identifier.normalize raw).mapError .identifier
  if layout.defines id then
    return (layout, work)
  else
    let label ← labelOf owner name
    let (members, work) ← readMembers index work owner id name
    return (layout.define id { label, members }, work)

theorem size_readFields_le {work work' : Worklist} {fields : List Variable}
    {members : List (Member String)} (h : readFields work fields = .ok (members, work')) :
    work'.size ≤ work.size := by
  induction fields generalizing work members with
  | nil =>
    cases h
    exact Nat.le_refl _
  | cons field fields ih =>
    obtain ⟨_, _, h⟩ := bind_eq_ok_iff.1 h
    obtain ⟨name, _, h⟩ := bind_eq_ok_iff.1 h
    obtain ⟨next, hp, h⟩ := bind_eq_ok_iff.1 h
    obtain ⟨⟨_, _⟩, hr, h⟩ := bind_eq_ok_iff.1 h
    cases pure_eq_ok_iff.1 h
    exact Nat.le_trans (ih hr) (Worklist.size_pushAll_le hp)

theorem size_readMembers_le {index : DeclarationIndex} {work work' : Worklist} {owner id : String}
    {name : TypeName} {members : Option (Members String)}
    (h : readMembers index work owner id name = .ok (members, work')) :
    work'.size ≤ work.size := by
  unfold readMembers at h
  split at h
  · cases h
    exact Nat.le_refl _
  · split at h
    · split at h
      · cases h
      · obtain ⟨⟨_, _⟩, hr, h⟩ := bind_eq_ok_iff.1 h
        cases pure_eq_ok_iff.1 h
        exact size_readFields_le hr
      · cases h
        exact Nat.le_refl _
    · cases h
      exact Nat.le_refl _

theorem size_record_le {index : DeclarationIndex} {work work' : Worklist} {owner : String}
    {name : TypeName} {layout layout' : Layout}
    (h : record index work owner name layout = .ok (layout', work')) :
    work'.size ≤ work.size := by
  unfold record at h
  obtain ⟨raw, _, h⟩ := bind_eq_ok_iff.1 h
  obtain ⟨id, _, h⟩ := bind_eq_ok_iff.1 h
  split at h
  · cases pure_eq_ok_iff.1 h
    exact Nat.le_refl _
  · obtain ⟨label, _, h⟩ := bind_eq_ok_iff.1 h
    obtain ⟨⟨_, _⟩, hm, h⟩ := bind_eq_ok_iff.1 h
    cases pure_eq_ok_iff.1 h
    exact size_readMembers_le hm

/-- Records the types that wait, and those that they lead to. -/
def recordAll (index : DeclarationIndex) (work : Worklist) (layout : Layout) :
    Except ExtractionError Layout :=
  match _hq : work.queue with
  | [] => .ok layout
  | (owner, name) :: queue =>
    match _hr : record index { work with queue } owner name layout with
    | .error cause => .error cause
    | .ok (layout, work) => recordAll index work layout
termination_by work.size
decreasing_by
  have := size_record_le _hr
  simp [Worklist.size, _hq] at this ⊢
  omega

def rawIds (names : List TypeName) : List String :=
  (names.flatMap (·.descendants)).filterMap (·.descriptions.typeIdentifier)

/-- The work for a variable before anything is queued: fresh are the identifiers in the name of its
type and in the fields of all structs. -/
def workFor (index : DeclarationIndex) (name : TypeName) : Worklist :=
  let fields := index.declarations.flatMap (·.fields)
  ⟨rawIds (name :: fields.filterMap (·.typeName)), []⟩

/-- Adds a variable to a layout, with the types that can be reached from it. -/
def addVariable (index : DeclarationIndex) (locate : Locator) (contract : String)
    (layout : Layout) (declared : Variable) : Except ExtractionError Layout := do
  let typeId ← typeIdOf declared
  let stored := { contract, label := declared.name, typeId, src := locate declared }
  let name ← typeNameOf declared
  let work ← (workFor index name).pushAll declared.name name.descendants
  recordAll index work (layout.addVariable stored)

def addVariables (index : DeclarationIndex) (locate : Locator) (contract : String)
    (layout : Layout) : List Variable → Except ExtractionError Layout
  | [] => .ok layout
  | declared :: rest => do
    let layout ← addVariable index locate contract layout declared
    addVariables index locate contract layout rest

def extract (index : DeclarationIndex) (locate : Locator) (contract : ContractDefinition) :
    Except ExtractionError Layout :=
  addVariables index locate contract.name ∅ (contract.variables.filter (·.isStored))

end StorageUpgrade.Extraction
