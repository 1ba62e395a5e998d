import StorageUpgrade.Remaining
import StorageUpgrade.Resolution.Pool
import StorageUpgrade.Resolution.Reference

/-!
# Resolved layouts

In a resolved layout each variable refers to a type in a pool, and every type there to types that
were completed before it. An identifier is resolved once, wherever it comes up; one that comes up
while it is still being resolved is refused, as a type cannot contain itself.
-/

namespace StorageUpgrade

structure VariableInfo where
  contract : String
  label : String
  typeId : String
  typeLabel : String
  src : String
  deriving DecidableEq, Repr

structure ResolvedVariable where
  info : VariableInfo
  type : Nat
  deriving DecidableEq, Repr

/-- The stored variables of a contract with their types. -/
structure ResolvedLayout where
  stored : List ResolvedVariable
  types : TypePool
  deriving DecidableEq

/-- Resolving extends a pool, or fails. -/
abbrev ResolveM := StateT TypePool (Except ResolutionError)

/-- The number of the type that an identifier stands for. `path` holds the identifiers that are
being resolved, the outermost first; `remaining` holds those that may come up below, which are all
others. -/
def intern (describe : String → Except ResolutionError (TypeNode String))
    (path remaining : List String) (id : String) : ResolveM Nat :=
  if id ∈ remaining then do
    match (← get).indexOf? id with
    | some index => return index
    | none =>
      let node ← describe id
      let node ← node.mapM fun ref =>
        intern describe (path ++ [id]) (without id remaining) ref
      let pool ← get
      set (pool.push id node)
      return pool.size
  else throw (.recursionDetected (path ++ [id]))
termination_by remaining.length
decreasing_by exact length_without_lt ‹id ∈ remaining›

namespace Layout

def resolveVariable (layout : Layout) (remaining : List String) (stored : StoredVariable) :
    ResolveM ResolvedVariable := do
  let type ← intern layout.describe [] remaining stored.typeId
  let typeLabel := (((← get).node? type).map (·.label)).getD ""
  return {
    info := {
      contract := stored.contract
      label := stored.label
      typeId := stored.typeId
      typeLabel
      src := stored.src }
    type }

def resolve (layout : Layout) : Except ResolutionError ResolvedLayout := do
  let (stored, types) ←
    (layout.stored.mapM (layout.resolveVariable layout.identifiers)).run ∅
  return { stored, types }

end Layout

end StorageUpgrade
