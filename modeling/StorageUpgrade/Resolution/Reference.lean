import StorageUpgrade.Identifier.Basic
import StorageUpgrade.Resolution.TypeNode

/-!
# References between types

What a layout says about an identifier, and to which identifiers that refers. All identifiers that
can be reached lie in a finite list: those of the variables and of the fields of structs, and what
these hold in their brackets.
-/

namespace StorageUpgrade

/-- Why the types of a layout cannot be resolved. -/
inductive ResolutionError where
  /-- Each identifier of the chain refers to the next, and the last one has come before. -/
  | recursionDetected (chain : List String)
  /-- The dictionary has nothing under an identifier. -/
  | unknownType (id : String)
  | identifier (cause : Identifier.Error)
  deriving DecidableEq, Repr

def ResolutionError.message : ResolutionError → String
  | recursionDetected chain =>
    "Recursion detected while resolving types: " ++ String.intercalate " -> " chain
  | unknownType id =>
    "Type " ++ Text.quote id ++ " is referenced but has no entry in the layout's types"
  | identifier cause => cause.message

namespace Layout

/-- The type that an identifier stands for in a layout, one level deep. -/
def describe (layout : Layout) (id : String) : Except ResolutionError (TypeNode String) :=
  match Identifier.parse id with
  | .error cause => .error (.identifier cause)
  | .ok expr =>
    match layout.type? expr.id with
    | none => .error (.unknownType expr.id)
    | some entry => .ok {
        id := expr.id
        head := expr.head
        args := expr.args?.map (·.map (·.id))
        rets := expr.rets?.map (·.map (·.id))
        label := entry.label
        members := entry.members }

theorem describe_eq_ok_iff {layout : Layout} {id : String} {node : TypeNode String} :
    layout.describe id = .ok node ↔
      ∃ expr entry, Identifier.parse id = .ok expr ∧ layout.type? expr.id = some entry ∧
        node = {
          id := expr.id
          head := expr.head
          args := expr.args?.map (·.map (·.id))
          rets := expr.rets?.map (·.map (·.id))
          label := entry.label
          members := entry.members } := by
  unfold describe
  cases hparse : Identifier.parse id with
  | error cause => simp
  | ok expr => cases htype : layout.type? expr.id <;> simp [htype, eq_comm]

theorem describe_eq_error {layout : Layout} {id : String} {error : ResolutionError}
    (h : layout.describe id = .error error) :
    (∃ cause, Identifier.parse id = .error cause ∧ error = .identifier cause) ∨
      ∃ expr, Identifier.parse id = .ok expr ∧ layout.type? expr.id = none ∧
        error = .unknownType expr.id := by
  unfold describe at h
  split at h
  next cause hparse => exact .inl ⟨cause, hparse, by cases h; rfl⟩
  next expr hparse =>
    split at h
    next htype => exact .inr ⟨expr, hparse, htype, by cases h; rfl⟩
    next => cases h

/-- The identifiers of the types in and behind the brackets of an identifier. -/
def partIds (id : String) : List String :=
  match Identifier.parse id with
  | .ok expr => expr.parts.map (·.id)
  | .error _ => []

/-- An identifier and, down to a number of levels, the identifiers that it is made of. -/
def nestedIds : Nat → String → List String
  | 0, id => [id]
  | levels + 1, id => id :: (partIds id).flatMap (nestedIds levels)

/-- The types of the fields of all structs in the dictionary. -/
def memberIds (layout : Layout) : List String :=
  layout.types.entries.flatMap fun (_, entry) => (entry.members.map Members.types).getD []

/-- All identifiers that can come up when the types of a layout are resolved. A part of an
identifier is shorter than the identifier, which bounds the levels. -/
def identifiers (layout : Layout) : List String :=
  (layout.stored.map (·.typeId) ++ layout.memberIds).flatMap fun id => nestedIds id.length id

end Layout

end StorageUpgrade
