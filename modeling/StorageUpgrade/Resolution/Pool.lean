import StorageUpgrade.Resolution.TypeNode

/-!
# Pools of types

The resolved types of a layout are numbered in the order in which they were completed, and refer
to each other by number. Each stands under the identifier that it was asked for with, and is found
by it when it is asked for again.
-/

namespace StorageUpgrade

/-- A growing table of resolved types. -/
structure TypePool where
  entries : Array (String × TypeNode Nat)
  deriving DecidableEq

namespace TypePool

def empty : TypePool := ⟨#[]⟩

instance : EmptyCollection TypePool := ⟨empty⟩

def size (pool : TypePool) : Nat := pool.entries.size

def nodes (pool : TypePool) : List (TypeNode Nat) := pool.entries.toList.map (·.2)

def node? (pool : TypePool) (index : Nat) : Option (TypeNode Nat) :=
  pool.entries[index]?.map (·.2)

def indexOf? (pool : TypePool) (id : String) : Option Nat :=
  pool.entries.findIdx? (·.1 = id)

/-- Adds a type under an identifier; its number is the size of the pool before. -/
def push (pool : TypePool) (id : String) (node : TypeNode Nat) : TypePool :=
  ⟨pool.entries.push (id, node)⟩

end TypePool

end StorageUpgrade
