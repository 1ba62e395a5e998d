import StorageUpgrade.Alignment.Edit
import StorageUpgrade.Resolution.Resolve

/-!
# Comparing types by structure

Two types are equal if they begin with the same word, have the same description and are made of
equal types; their identifiers do not count, since these change between compilations. Each pair of
types is compared once: the outcome is remembered and looked up when the pair comes up again.
-/

namespace StorageUpgrade

section

variable {α β σ : Type}

/-- Whether two lists have the same length and agree item by item. No item is looked at behind the
first two that do not agree. -/
def agreeAll (agree : α → β → StateM σ Bool) (xs : List α) (ys : List β) : StateM σ Bool :=
  if xs.length = ys.length then (xs.zip ys).allM fun (x, y) => agree x y else return false

def agreeOption (agree : α → β → StateM σ Bool) : Option α → Option β → StateM σ Bool
  | none, none => return true
  | some x, some y => agree x y
  | _, _ => return false

/-- Whether two lists of members have the same names, in order, and the types of fields agree. -/
def Members.agree (same : α → β → StateM σ Bool) : Members α → Members β → StateM σ Bool
  | struct fields, struct fields' =>
    agreeAll (fun field field' =>
      pure (field.label = field'.label) <&&> same field.type field'.type) fields fields'
  | enum names, enum names' => return names = names'
  | _, _ => return false

/-- Whether two nodes agree in all but their identifiers, given which of their references do. -/
def TypeNode.agree (same : α → β → StateM σ Bool) (node : TypeNode α) (node' : TypeNode β) :
    StateM σ Bool :=
  pure (node.head = node'.head && node.label = node'.label)
    <&&> agreeOption (agreeAll same) node.args node'.args
    <&&> agreeOption (agreeAll same) node.rets node'.rets
    <&&> agreeOption (Members.agree same) node.members node'.members

end

/-- Which types of one pool are equal to which types of another, as far as has been asked. -/
structure EqualityTable where
  before : TypePool
  after : TypePool
  outcomes : List ((Nat × Nat) × Bool)

namespace EqualityTable

def ofPools (before after : TypePool) : EqualityTable := ⟨before, after, []⟩

/-- What has been found out about the types with two numbers. -/
def outcome? (table : EqualityTable) (i j : Nat) : Option Bool := table.outcomes.lookup (i, j)

def record (table : EqualityTable) (i j : Nat) (equal : Bool) : EqualityTable :=
  { table with outcomes := ((i, j), equal) :: table.outcomes }

/-- Whether the types with two numbers are equal. Types that have no entry are not; a type of the
first pool refers to earlier types only. -/
def ask (i j : Nat) : StateM EqualityTable Bool := do
  let table ← get
  match table.outcome? i j with
  | some equal => return equal
  | none =>
    match table.before.node? i, table.after.node? j with
    | some node, some node' =>
      let equal ← node.agree (fun r s => if r < i then ask r s else return false) node'
      modify (·.record i j equal)
      return equal
    | _, _ => return false
termination_by i

/-- The verdict on two variables. -/
def classify (before after : ResolvedVariable) : StateM EqualityTable Alignment.Verdict := do
  let sameType ← ask before.type after.type
  return .ofAgreement (before.info.label = after.info.label) sameType

/-- The answer to a question, apart from what is remembered. -/
def isEqual (table : EqualityTable) (i j : Nat) : Bool := (ask i j table).1

def verdict (table : EqualityTable) (before after : ResolvedVariable) : Alignment.Verdict :=
  (classify before after table).1

end EqualityTable

end StorageUpgrade
