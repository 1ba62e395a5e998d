/-!
# Edits of an alignment

An alignment of two versions of a sequence is a list of edits. An edit pairs an item of the first
version with one of the second, or takes an item of one version alone.
-/

namespace StorageUpgrade.Alignment

/-- How an item compares with one that it is paired with. -/
inductive Verdict where
  | equal
  | rename
  | typeChange
  | replace
  deriving DecidableEq, Repr

namespace Verdict

/-- The verdict on items of which it is known whether their names and their types agree. -/
def ofAgreement (sameName sameType : Bool) : Verdict :=
  match sameName, sameType with
  | true, true => equal
  | false, true => rename
  | true, false => typeChange
  | false, false => replace

abbrev changeCost : Nat := 3

def cost : Verdict → Nat
  | equal => 0
  | rename | typeChange | replace => changeCost

end Verdict

abbrev insertionCost : Nat := 2

abbrev deletionCost : Nat := 2

/-- A step of an alignment, with the items that it changes. An insertion behind the last item of
the first version is an append: it moves none of the items that were there. -/
inductive Edit (α : Type) where
  | equal
  | rename (before after : α)
  | typeChange (before after : α)
  | replace (before after : α)
  | insert (after : α)
  | delete (before : α)
  | append (after : α)
  deriving DecidableEq, Repr

namespace Edit

variable {α β : Type}

def pair (verdict : Verdict) (before after : α) : Edit α :=
  match verdict with
  | .equal => equal
  | .rename => rename before after
  | .typeChange => typeChange before after
  | .replace => replace before after

/-- The item of the first version, if the edit changes one. -/
def before? : Edit α → Option α
  | rename before _ | typeChange before _ | replace before _ | delete before =>
    some before
  | equal | insert _ | append _ => none

/-- The item of the second version, if the edit brings one in. -/
def after? : Edit α → Option α
  | rename _ after | typeChange _ after | replace _ after | insert after
  | append after => some after
  | equal | delete _ => none

def map (f : α → β) : Edit α → Edit β
  | equal => equal
  | rename before after => rename (f before) (f after)
  | typeChange before after => typeChange (f before) (f after)
  | replace before after => replace (f before) (f after)
  | insert after => insert (f after)
  | delete before => delete (f before)
  | append after => append (f after)

/-- Whether every item of the first version keeps its place and its meaning. -/
def isSafe : Edit α → Bool
  | equal | append _ => true
  | _ => false

def cost : Edit α → Nat
  | equal => 0
  | rename .. | typeChange .. | replace .. => Verdict.changeCost
  | insert _ | append _ => insertionCost
  | delete _ => deletionCost

@[simp]
theorem cost_pair (verdict : Verdict) (before after : α) :
    (pair verdict before after).cost = verdict.cost := by
  cases verdict <;> rfl

@[simp]
theorem isSafe_map (f : α → β) (edit : Edit α) : (edit.map f).isSafe = edit.isSafe := by
  cases edit <;> rfl

end Edit

def scriptCost : List (Edit α) → Nat
  | [] => 0
  | edit :: script => edit.cost + scriptCost script

@[simp]
theorem scriptCost_nil : scriptCost ([] : List (Edit α)) = 0 :=
  rfl

@[simp]
theorem scriptCost_cons (edit : Edit α) (script : List (Edit α)) :
    scriptCost (edit :: script) = edit.cost + scriptCost script :=
  rfl

@[simp]
theorem scriptCost_append (left right : List (Edit α)) :
    scriptCost (left ++ right) = scriptCost left + scriptCost right := by
  induction left with
  | nil => simp
  | cons edit left ih => simp [ih, Nat.add_assoc]

end StorageUpgrade.Alignment
