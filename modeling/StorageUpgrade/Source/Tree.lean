/-!
# Source trees

The parts of a compiler's syntax tree that matter for storage: contracts with their variables, the
structs and enums that are declared in or beside them, and the names of types.
-/

namespace StorageUpgrade.Source

structure TypeDescriptions where
  typeIdentifier : Option String
  typeString : Option String
  deriving DecidableEq, Repr

/-- Whether a variable can change, and until when. -/
inductive Mutability where
  | mutable
  | immutable
  | constant
  deriving DecidableEq, Repr

mutual

/-- The name of a type as it is written in a declaration. -/
inductive TypeName where
  | elementary (descriptions : TypeDescriptions)
  | userDefined (declaration : Int) (descriptions : TypeDescriptions)
  | array (base : TypeName) (descriptions : TypeDescriptions)
  | mapping (key value : TypeName) (descriptions : TypeDescriptions)
  | function (parameters returns : List Variable) (descriptions : TypeDescriptions)

structure Variable where
  id : Int
  name : String
  constant : Bool
  mutability : Option Mutability
  src : String
  typeName : Option TypeName
  descriptions : TypeDescriptions

end

structure StructDefinition where
  id : Int
  name : String
  members : List Variable

structure EnumDefinition where
  id : Int
  name : String
  members : List String
  deriving DecidableEq, Repr

/-- A part of a contract; parts that do not matter for storage are `other`. -/
inductive ContractNode where
  | stateVariable (declaration : Variable)
  | struct (definition : StructDefinition)
  | enum (definition : EnumDefinition)
  | other

structure ContractDefinition where
  id : Int
  name : String
  nodes : List ContractNode

/-- A part of a source unit; parts that do not matter for storage are `other`. -/
inductive UnitNode where
  | contract (definition : ContractDefinition)
  | struct (definition : StructDefinition)
  | enum (definition : EnumDefinition)
  | other

structure SourceUnit where
  id : Int
  absolutePath : String
  nodes : List UnitNode

/-- The contracts of a unit, in order of declaration. -/
def SourceUnit.contracts (unit : SourceUnit) : List ContractDefinition :=
  unit.nodes.filterMap fun
    | .contract definition => some definition
    | _ => none

/-- The variables that a contract declares itself, in order of declaration. -/
def ContractDefinition.variables (contract : ContractDefinition) : List Variable :=
  contract.nodes.filterMap fun
    | .stateVariable declaration => some declaration
    | _ => none

/-- Whether a variable has a place in storage. -/
def Variable.isStored (declaration : Variable) : Bool :=
  !declaration.constant && declaration.mutability ≠ some .constant
    && declaration.mutability ≠ some .immutable

/-! ## Type names -/

mutual

/-- The number of type names within a type name, itself included. -/
def TypeName.size : TypeName → Nat
  | .elementary _ | .userDefined _ _ => 1
  | .array base _ => 1 + base.size
  | .mapping key value _ => 1 + key.size + value.size
  | .function parameters returns _ => 1 + variablesSize parameters + variablesSize returns

def Variable.size : Variable → Nat
  | { typeName := none, .. } => 0
  | { typeName := some name, .. } => name.size

def variablesSize : List Variable → Nat
  | [] => 0
  | v :: vs => v.size + variablesSize vs

end

namespace TypeName

def descriptions : TypeName → TypeDescriptions
  | elementary descriptions => descriptions
  | userDefined _ descriptions => descriptions
  | array _ descriptions => descriptions
  | mapping _ _ descriptions => descriptions
  | function _ _ descriptions => descriptions

/-- The declaration that the name of a declared type refers to. -/
def declaration? : TypeName → Option Int
  | userDefined declaration _ => some declaration
  | _ => none

/-- The type names directly within a type name. Those of a function are the types of its parameters
and then of its results. -/
def children : TypeName → List TypeName
  | elementary _ | userDefined _ _ => []
  | array base _ => [base]
  | mapping key value _ => [key, value]
  | function parameters returns _ => (parameters ++ returns).filterMap (·.typeName)

def totalSize : List TypeName → Nat
  | [] => 0
  | name :: names => name.size + totalSize names

@[simp]
theorem totalSize_cons (name : TypeName) (names : List TypeName) :
    totalSize (name :: names) = name.size + totalSize names :=
  rfl

@[simp]
theorem totalSize_append (names names' : List TypeName) :
    totalSize (names ++ names') = totalSize names + totalSize names' := by
  induction names with
  | nil => simp [totalSize]
  | cons name names ih => simp [ih, Nat.add_assoc]

theorem totalSize_filterMap_typeName (vs : List Variable) :
    totalSize (vs.filterMap (·.typeName)) = variablesSize vs := by
  induction vs with
  | nil => rfl
  | cons v vs ih =>
    obtain ⟨id, name, constant, mutability, src, typeName, descriptions⟩ := v
    cases typeName <;> simp [variablesSize, Variable.size, ih]

theorem totalSize_children (name : TypeName) : totalSize name.children + 1 = name.size := by
  cases name with
  | elementary => rfl
  | userDefined => rfl
  | array => simp [children, size, totalSize]; omega
  | mapping => simp [children, size, totalSize]; omega
  | function =>
    simp only [children, List.filterMap_append, totalSize_append, totalSize_filterMap_typeName,
      size]
    omega

/-- The type names within those of a list, each before what it is made of. The next one to be
listed is the first of the list, and its children take its place. -/
def listFrom : List TypeName → List TypeName
  | [] => []
  | name :: pending => name :: listFrom (name.children ++ pending)
termination_by pending => totalSize pending
decreasing_by
  have := totalSize_children name
  simp
  omega

/-- All type names within a type name, itself first. -/
def descendants (name : TypeName) : List TypeName :=
  listFrom [name]

end TypeName

end StorageUpgrade.Source
