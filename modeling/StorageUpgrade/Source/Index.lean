import StorageUpgrade.Source.Tree

/-!
# Index of declarations

Structs and enums are found by the number that the compiler gives to their declaration, contracts
by name. Of two declarations with one number, or two contracts with one name, the later stands.
-/

namespace StorageUpgrade.Source

/-- The declaration of a type with members. -/
inductive Declaration where
  | struct (definition : StructDefinition)
  | enum (definition : EnumDefinition)

/-- The kinds of types with members. -/
inductive DeclarationKind where
  | struct
  | enum
  deriving DecidableEq, Repr

namespace Declaration

def kind : Declaration → DeclarationKind
  | struct _ => .struct
  | enum _ => .enum

def id : Declaration → Int
  | struct definition => definition.id
  | enum definition => definition.id

def name : Declaration → String
  | struct definition => definition.name
  | enum definition => definition.name

/-- The variables that a declaration consists of. -/
def fields : Declaration → List Variable
  | struct definition => definition.members
  | enum _ => []

end Declaration

/-- The declarations of a set of source units. -/
structure DeclarationIndex where
  declarations : List Declaration
  contracts : List ContractDefinition

namespace DeclarationIndex

def empty : DeclarationIndex := ⟨[], []⟩

instance : EmptyCollection DeclarationIndex := ⟨empty⟩

/-- Adds a struct or an enum, in place of one with the same number. -/
def add (index : DeclarationIndex) (added : Declaration) : DeclarationIndex :=
  { index with declarations := added :: index.declarations.filter (·.id ≠ added.id) }

/-- Adds a contract, in place of one with the same name, and the structs and enums in it. -/
def addContract (index : DeclarationIndex) (contract : ContractDefinition) : DeclarationIndex :=
  let index := contract.nodes.foldl (fun index node =>
    match node with
    | .struct definition => index.add (.struct definition)
    | .enum definition => index.add (.enum definition)
    | .stateVariable _ | .other => index) index
  { index with contracts := contract :: index.contracts.filter (·.name ≠ contract.name) }

/-- Adds all declarations of a source unit, in order. -/
def addUnit (index : DeclarationIndex) (unit : SourceUnit) : DeclarationIndex :=
  unit.nodes.foldl (fun index node =>
    match node with
    | .contract definition => index.addContract definition
    | .struct definition => index.add (.struct definition)
    | .enum definition => index.add (.enum definition)
    | .other => index) index

/-- The index of some source units, taken in order. -/
def ofUnits (units : List SourceUnit) : DeclarationIndex :=
  units.foldl addUnit ∅

/-- The contract with a name. -/
def contract? (index : DeclarationIndex) (name : String) : Option ContractDefinition :=
  index.contracts.find? (·.name = name)

/-- The struct or enum with a number, if it is of one of the kinds. -/
def declaration? (index : DeclarationIndex) (kinds : List DeclarationKind) (id : Int) :
    Option Declaration :=
  (index.declarations.find? (·.id = id)).filter (·.kind ∈ kinds)

end DeclarationIndex

end StorageUpgrade.Source
