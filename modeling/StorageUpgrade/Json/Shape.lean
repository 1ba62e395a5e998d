import StorageUpgrade.Json.Draft

/-!
# Shapes of values

A reader says which drafts it takes for a value of a type, and tells the two ways apart in which
one can be wrong: the text is no JSON, or it is JSON of another shape. Most values are read as
their text goes by, so that of several faults the first counts, and what goes wrong behind it is
not looked at. Some shapes can only be told from the whole value; it is then taken in first, with
everything that it holds, and read afterwards.
-/

namespace StorageUpgrade.Json

/-- Why a document cannot be read: it is no JSON, or JSON of another shape. -/
inductive DocumentError where
  | invalidJson
  | invalidData
  deriving DecidableEq, Repr

inductive Setting where
  /-- As its text goes by. So many containers may lie within each other from here on. -/
  | passing (levels : Nat)
  /-- After it has been taken in. -/
  | held
  deriving DecidableEq, Repr

namespace Setting

def enter : Setting → Except DocumentError Setting
  | passing 0 => .error .invalidJson
  | passing (levels + 1) => .ok (passing levels)
  | held => .ok held

/-- Takes a value in: all of it has to mean something, and its levels have to be allowed. -/
def accept (setting : Setting) (draft : Draft) : Except DocumentError Unit :=
  match setting with
  | passing levels =>
    if draft.toJson?.isSome && draft.levels ≤ levels then .ok () else .error .invalidJson
  | held => .ok ()

/-- A value with few enough levels can be taken in. -/
theorem accept_draft {levels : Nat} {v : Json} (h : v.draft.levels ≤ levels) :
    (passing levels).accept v.draft = .ok () := by
  simp [accept, h]

/-- The fault of a container that goes on behind its last part. To a reader that goes along with
the text it is one of the text. -/
def excess : Setting → DocumentError
  | passing _ => .invalidJson
  | held => .invalidData

end Setting

def Draft.mismatch : Draft → DocumentError
  | .malformed | .meaningless => .invalidJson
  | _ => .invalidData

abbrev Reader (α : Type) := Setting → Draft → Except DocumentError α

namespace Reader

def map (f : α → β) (value : Reader α) : Reader β := fun setting draft =>
  (value setting draft).map f

def string : Reader String
  | _, .string text => .ok text
  | _, draft => .error draft.mismatch

def bool : Reader Bool
  | _, .bool value => .ok value
  | _, draft => .error draft.mismatch

/-- An integer that fits into 64 bits with a sign. -/
def int64 : Reader Int
  | _, .integer value =>
    if -Int.pow 2 63 ≤ value ∧ value < Int.pow 2 63 then .ok value else .error .invalidData
  | _, draft => .error draft.mismatch

/-- An array, each item of which is read in the same way. -/
def list (item : Reader α) : Reader (List α)
  | setting, .array items => do
    let setting ← setting.enter
    items.mapM (item setting)
  | _, draft => .error draft.mismatch

/-- A value in whose place `null` may stand. -/
def nullable (value : Reader α) : Reader (Option α)
  | _, .null => .ok none
  | setting, draft => (value setting draft).map some

/-- An object as a list of fields, each of which is read in the same way. -/
def entries (value : Reader α) : Reader (List (String × α))
  | setting, .object fields => do
    let setting ← setting.enter
    fields.mapM fun
      | (some name, v) => (value setting v).map (name, ·)
      | (none, _) => .error .invalidJson
  | _, draft => .error draft.mismatch

def whole (value : Reader α) : Reader α := fun setting draft => do
  setting.accept draft
  value .held draft

/-- A value that is read in the first of two ways, or else in the second. -/
def either (first second : Reader α) : Reader α :=
  whole fun setting draft =>
    match first setting draft with
    | .ok a => .ok a
    | .error _ => second setting draft

/-! ## Choices -/

/-- What stands for a name. -/
def chosen (choices : List (String × α)) (name : String) : Except DocumentError α :=
  match choices.lookup name with
  | some a => .ok a
  | none => .error .invalidData

/-- One of several names, written as a string or as an object with one field of that name. The
field is empty: it holds `null`, and in a value that is held it may also hold an empty object. -/
def choice (choices : List (String × α)) : Reader α
  | _, .string name => chosen choices name
  | .held, .object [(some name, v)] => do
    let a ← chosen choices name
    match v with
    | .null | .object [] => return a
    | _ => .error .invalidData
  | .held, _ => .error .invalidData
  | setting, .object ((some name, v) :: more) => do
    let setting ← setting.enter
    let a ← chosen choices name
    match v with
    | .null => if more.isEmpty then return a else .error setting.excess
    | v => .error v.mismatch
  | _, _ => .error .invalidJson

end Reader

end StorageUpgrade.Json
