import StorageUpgrade.Json.Shape

/-!
# Records

A record is written as an object, or as an array of the values of its fields in their order. In an
object, fields that the record does not have are passed over, and none that it has may stand
twice. What a missing field means is said where the field is read.

The fields of an object are read in the order of the record, but of several faults the one counts
that stands first in the text. So a fault is kept with its place.
-/

namespace StorageUpgrade.Json

/-! ## Faults and their places -/

/-- A fault, and the number of the part of a container that it is found at. What is missing is
found missing behind the last part. -/
structure Flaw where
  place : Nat
  cause : DocumentError
  deriving DecidableEq, Repr

def Flaw.first (flaw other : Flaw) : Flaw :=
  if other.place < flaw.place then other else flaw

/-- Puts two things together; of two flaws the one counts that stands first. -/
def both (f : α → β → γ) : Except Flaw α → Except Flaw β → Except Flaw γ
  | .ok a, .ok b => .ok (f a b)
  | .error flaw, .ok _ => .error flaw
  | .ok _, .error flaw => .error flaw
  | .error flaw, .error other => .error (flaw.first other)

/-! ## Fields -/

/-- The fields of a record as they are written: by their names, or in their order. -/
inductive Fields where
  | named (fields : List (Option String × Draft))
  | ordered (values : List Draft)

namespace Fields

/-- Checks the parts of an object from a place on: each has to have a name, none of the known
names may have been `seen` before, and what stands under another name has to be complete. -/
def checkNames (known : List String) (place : Nat) (seen : List String) :
    List (Option String × Draft) → Except Flaw Unit
  | [] => .ok ()
  | (some name, v) :: fields =>
    if name ∈ known then
      if name ∈ seen then .error ⟨place, .invalidData⟩
      else checkNames known (place + 1) (name :: seen) fields
    else if v.isComplete then checkNames known (place + 1) seen fields
    else .error ⟨place, .invalidJson⟩
  | (none, _) :: _ => .error ⟨place, .invalidJson⟩

/-- Checks that fields can be those of a record with the known names. -/
def check (setting : Setting) (known : List String) : Fields → Except Flaw Unit
  | named fields => checkNames known 0 [] fields
  | ordered values =>
    if values.length ≤ known.length then .ok () else .error ⟨known.length, setting.excess⟩

def find? (name : String) (fields : List (Option String × Draft)) : Option (Draft × Nat) :=
  (fields.zipIdx.find? (·.1.1 = some name)).map fun ((_, v), place) => (v, place)

end Fields

/-- Reads fields of a record. `names` are those of the fields, and `read` is given the number of
the first of them in the record. -/
structure FieldReader (α : Type) where
  names : List String
  read : Setting → Nat → Fields → Except Flaw α

namespace FieldReader

instance : Functor FieldReader where
  map f fields := { fields with
    read := fun setting index given => (fields.read setting index given).map f }

instance : Applicative FieldReader where
  pure a := { names := [], read := fun _ _ _ => .ok a }
  seq fields more := {
    names := fields.names ++ (more ()).names
    read := fun setting index given =>
      both id (fields.read setting index given)
        ((more ()).read setting (index + fields.names.length) given) }

def run (fields : FieldReader α) (setting : Setting) (given : Fields) : Except DocumentError α :=
  (both (fun _ a => a) (given.check setting fields.names)
    (fields.read setting 0 given)).mapError Flaw.cause

/-- A field. `unnamed` stands for it if no part of an object has its name, and `left` if the values
of an array end before it. -/
def field (name : String) (unnamed left : Option α) (value : Reader α) : FieldReader α where
  names := [name]
  read setting index
    | .named fields =>
      match Fields.find? name fields with
      | some (v, place) => (value setting v).mapError (⟨place, ·⟩)
      | none => unnamed.elim (.error ⟨fields.length, .invalidData⟩) .ok
    | .ordered values =>
      match values[index]? with
      | some v => (value setting v).mapError (⟨index, ·⟩)
      | none => left.elim (.error ⟨index, .invalidData⟩) .ok

def required (name : String) (value : Reader α) : FieldReader α :=
  field name none none value

/-- A field that an object may leave out, or give as `null`. -/
def optional (name : String) (value : Reader α) : FieldReader (Option α) :=
  field name (some none) none (.nullable value)

/-- A field for which a value stands where it is missing. -/
def withDefault (name : String) (missing : α) (value : Reader α) : FieldReader α :=
  field name (some missing) (some missing) value

end FieldReader

def Reader.record (fields : FieldReader α) : Reader α
  | setting, .object given => do fields.run (← setting.enter) (.named given)
  | setting, .array values => do fields.run (← setting.enter) (.ordered values)
  | _, draft => .error draft.mismatch

/-! ## Records of several kinds -/

/-- The kinds that a record can be of: the fields of each, by the name of the kind, and those of a
record of any other kind, if there may be one. -/
structure Kinds (α : Type) where
  known : List (String × FieldReader α)
  other : Option (FieldReader α)

namespace Kinds

/-- The fields of a kind. A kind is told by its name, in a value that is held also by its number
among the known ones. -/
def ofTag (kinds : Kinds α) : Reader (FieldReader α)
  | _, .string name => orError ((kinds.known.lookup name).or kinds.other)
  | .held, .integer number =>
    if 0 ≤ number ∧ number < Int.pow 2 64 then
      orError ((kinds.known[number.toNat]?.map (·.2)).or kinds.other)
    else .error .invalidData
  | _, draft => .error draft.mismatch
where
  orError : Option (FieldReader α) → Except DocumentError (FieldReader α)
    | some fields => .ok fields
    | none => .error .invalidData

/-- The kind that a field `tag` tells. On the way to it and behind it all other fields are taken
in. `found` is what the field has told before. -/
def ofFields (kinds : Kinds α) (tag : String) (setting : Setting)
    (found : Option (FieldReader α)) :
    List (Option String × Draft) → Except DocumentError (FieldReader α)
  | [] =>
    match found with
    | some fields => .ok fields
    | none => .error .invalidData
  | (some name, v) :: rest =>
    if name = tag then
      match found with
      | some _ => .error .invalidData
      | none => do
        let fields ← kinds.ofTag setting v
        ofFields kinds tag setting (some fields) rest
    else do
      setting.accept v
      ofFields kinds tag setting found rest
  | (none, _) :: _ => .error .invalidJson

end Kinds

/-- A record whose kind is told by a field `tag`, or by the first value of an array. The kind has
to be known before the fields can be read, so these are taken in. -/
def Reader.tagged (tag : String) (kinds : Kinds α) : Reader α
  | setting, .object given => do
    let setting ← setting.enter
    let fields ← kinds.ofFields tag setting none given
    fields.run .held (.named given)
  | setting, .array values => do
    let setting ← setting.enter
    match values with
    | [] => .error .invalidData
    | kind :: values =>
      let fields ← kinds.ofTag setting kind
      values.forM setting.accept
      fields.run .held (.ordered values)
  | _, draft => .error draft.mismatch

end StorageUpgrade.Json
