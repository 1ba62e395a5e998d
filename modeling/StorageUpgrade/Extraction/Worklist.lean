import StorageUpgrade.Extraction.Error
import StorageUpgrade.Outcome
import StorageUpgrade.Remaining
import StorageUpgrade.Source.Tree

/-!
# Type names to be recorded

While the types of a variable are recorded, the type names met on the way wait in a queue. Each
identifier is queued once. The identifiers that may still be queued are a finite list that only
gets shorter, so together with the queue it bounds the work that is left.
-/

namespace StorageUpgrade.Extraction

open Source (TypeName Variable)

/-- The identifier of a type name, as the compiler writes it. -/
def rawIdOf (owner : String) (name : TypeName) : Except ExtractionError String :=
  match name.descriptions.typeIdentifier with
  | none => .error (.missingTypeIdentifier owner)
  | some raw => .ok raw

/-- How the type that a name stands for is shown. -/
def labelOf (owner : String) (name : TypeName) : Except ExtractionError String :=
  match name.descriptions.typeString with
  | none => .error (.missingTypeString owner)
  | some label => .ok label

/-- The type names that wait, each with the declaration that it was met in, and the identifiers
that have not been queued. -/
structure Worklist where
  fresh : List String
  queue : List (String × TypeName)

namespace Worklist

/-- A bound on the number of type names that will be taken from the queue. -/
def size (work : Worklist) : Nat := work.fresh.length + work.queue.length

def push (work : Worklist) (owner : String) (name : TypeName) :
    Except ExtractionError Worklist := do
  let raw ← rawIdOf owner name
  return if raw ∈ work.fresh then
    ⟨without raw work.fresh, work.queue ++ [(owner, name)]⟩
  else work

def pushAll (work : Worklist) (owner : String) :
    List TypeName → Except ExtractionError Worklist
  | [] => .ok work
  | name :: names => do
    let work ← work.push owner name
    work.pushAll owner names

theorem size_push_le {work work' : Worklist} {owner : String} {name : TypeName}
    (h : work.push owner name = .ok work') : work'.size ≤ work.size := by
  obtain ⟨raw, _, h⟩ := bind_eq_ok_iff.1 h
  cases pure_eq_ok_iff.1 h
  split
  next hm =>
    have := length_without_lt hm
    simp [size]
    omega
  next => exact Nat.le_refl _

theorem size_pushAll_le {work work' : Worklist} {owner : String} {names : List TypeName}
    (h : work.pushAll owner names = .ok work') : work'.size ≤ work.size := by
  induction names generalizing work with
  | nil =>
    cases h
    exact Nat.le_refl _
  | cons name names ih =>
    obtain ⟨next, hp, h⟩ := bind_eq_ok_iff.1 h
    exact Nat.le_trans (ih h) (size_push_le hp)

end Worklist

end StorageUpgrade.Extraction
