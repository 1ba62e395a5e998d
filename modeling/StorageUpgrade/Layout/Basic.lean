import StorageUpgrade.Layout.Dictionary

/-!
# Storage layouts

A layout lists the stored variables of a contract in the order of their slots, and has a
dictionary of the types that they are made of. A type refers to others by their identifiers.
-/

namespace StorageUpgrade

/-- A field of a struct. `ref` says how the field refers to its type. -/
structure Member (ref : Type) where
  label : String
  type : ref
  deriving DecidableEq, Repr

/-- What a declared type consists of. -/
inductive Members (ref : Type) where
  | struct (fields : List (Member ref))
  | enum (names : List String)
  deriving DecidableEq, Repr

def Members.types : Members ref → List ref
  | struct fields => fields.map (·.type)
  | enum _ => []

structure TypeEntry where
  label : String
  members : Option (Members String)
  deriving DecidableEq, Repr

/-- A stored variable: the contract that declares it, its name, the identifier of its type and the
place of its declaration. -/
structure StoredVariable where
  contract : String
  label : String
  typeId : String
  src : String
  deriving DecidableEq, Repr

/-- The stored variables of a contract and the types that they are made of. -/
structure Layout where
  stored : List StoredVariable
  types : Dictionary TypeEntry
  deriving DecidableEq

namespace Layout

def empty : Layout := ⟨[], ∅⟩

instance : EmptyCollection Layout := ⟨empty⟩

def addVariable (layout : Layout) (added : StoredVariable) : Layout :=
  { layout with stored := layout.stored ++ [added] }

def defines (layout : Layout) (id : String) : Bool := layout.types.contains id

def type? (layout : Layout) (id : String) : Option TypeEntry := layout.types.get? id

/-- Describes a type that is not described yet. -/
def define (layout : Layout) (id : String) (entry : TypeEntry) : Layout :=
  { layout with types := layout.types.insertNew id entry }

theorem type?_define (layout : Layout) (id id' : String) (entry : TypeEntry) :
    (layout.define id entry).type? id' =
      (layout.type? id').or (if id' = id then some entry else none) :=
  layout.types.get?_insertNew id id' entry

end Layout

end StorageUpgrade
