import StorageUpgrade.Alignment.Script
import StorageUpgrade.Upgrade.Comparison
import StorageUpgrade.Upgrade.Finding

/-!
# Checking upgrades

Whether one layout can take the place of another without disturbing what is stored. The variables
of both are aligned, and every edit is rejected that moves a variable or changes what it means,
unless the policy tolerates it.
-/

namespace StorageUpgrade

/-- What is tolerated apart from variables that stay as they are and variables that are added
behind them. -/
structure Policy where
  /-- Tolerate a change of type where the identifiers differ in numbers of declarations alone. -/
  allowTypeChurn : Bool := false
  allowRenames : Bool := false
  deriving DecidableEq, Repr

/-- Why an upgrade is refused, or cannot be judged. -/
inductive UpgradeError where
  | resolution (cause : ResolutionError)
  | identifier (cause : Identifier.Error)
  | incompatible (findings : List Finding)
  deriving DecidableEq, Repr

def UpgradeError.message : UpgradeError → String
  | resolution cause => cause.message
  | identifier cause => cause.message
  | incompatible findings => "Storage layout is incompatible: " ++ Finding.listText findings

namespace Policy

def rejects (policy : Policy) : StorageEdit → Except Identifier.Error Bool
  | .equal | .append _ => .ok false
  | .rename _ _ => .ok !policy.allowRenames
  | .typeChange before after =>
    if policy.allowTypeChurn then do
      let stable ← Identifier.stabilize before.typeId
      let stable' ← Identifier.stabilize after.typeId
      return stable ≠ stable'
    else .ok true
  | .replace _ _ | .insert _ | .delete _ => .ok true

def rejected (policy : Policy) :
    List StorageEdit → Except Identifier.Error (List StorageEdit)
  | [] => .ok []
  | edit :: edits => do
    let isRejected ← policy.rejects edit
    let others ← policy.rejected edits
    return if isRejected then edit :: others else others

end Policy

/-- The edits that lead from one resolved layout to another. -/
def ResolvedLayout.editsTo (before after : ResolvedLayout) : List StorageEdit :=
  let table := EqualityTable.ofPools before.types after.types
  let script := (Alignment.align EqualityTable.classify before.stored after.stored table).1
  script.map (·.map (·.info))

/-- An upgrade that has been judged. -/
structure Judgement where
  before : ResolvedLayout
  after : ResolvedLayout
  edits : List StorageEdit
  incompatibilities : List StorageEdit

namespace Judgement

def isSafe (judgement : Judgement) : Bool := judgement.incompatibilities.isEmpty

def accept (judgement : Judgement) : Except UpgradeError Unit :=
  if judgement.isSafe then .ok ()
  else .error (.incompatible (judgement.incompatibilities.map Finding.ofEdit))

end Judgement

/-- Judges the upgrade from one layout to another. -/
def judge (policy : Policy) (before after : Layout) : Except UpgradeError Judgement := do
  let before ← before.resolve.mapError .resolution
  let after ← after.resolve.mapError .resolution
  let edits := before.editsTo after
  let incompatibilities ← (policy.rejected edits).mapError .identifier
  return { before, after, edits, incompatibilities }

/-- The edits of an upgrade that the policy rejects. -/
def check (policy : Policy) (before after : Layout) :
    Except UpgradeError (List StorageEdit) :=
  return (← judge policy before after).incompatibilities

end StorageUpgrade
