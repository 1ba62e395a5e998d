import StorageUpgrade.Json.Basic

/-!
# Drafts of JSON values

What a text says, as far as it can be understood. A draft differs from a value in two respects.
It may have parts that are written well but stand for nothing, such as a number out of range; a
reader that has no use for them may pass over them. And it may break off: nothing is known of a
text behind the first place where it goes wrong.
-/

namespace StorageUpgrade.Json

/-- What is written in a text. -/
inductive Draft where
  | null
  | bool (value : Bool)
  | integer (value : Int)
  | decimal (text : List Char)
  | string (text : String)
  /-- A number out of range, or a string with half of a pair of units. -/
  | meaningless
  | array (items : List Draft)
  /-- A name is `none` if what stands in its place means no text. -/
  | object (fields : List (Option String × Draft))
  /-- Here the text goes wrong. -/
  | malformed
  deriving Inhabited

mutual

/-- The draft that says what a value is. -/
def draft : Json → Draft
  | .null => .null
  | .bool value => .bool value
  | .integer value => .integer value
  | .decimal text => .decimal text
  | .string text => .string text
  | .array items => .array (itemDrafts items)
  | .object fields => .object (fieldDrafts fields)

def itemDrafts : List Json → List Draft
  | [] => []
  | v :: vs => v.draft :: itemDrafts vs

def fieldDrafts : List (String × Json) → List (Option String × Draft)
  | [] => []
  | (name, v) :: fields => (some name, v.draft) :: fieldDrafts fields

end

namespace Draft

mutual

/-- The value that a draft describes. There is none if a part of it is meaningless or missing. -/
def toJson? : Draft → Option Json
  | .null => some .null
  | .bool value => some (.bool value)
  | .integer value => some (.integer value)
  | .decimal text => some (.decimal text)
  | .string text => some (.string text)
  | .array items => (itemsToJson? items).map .array
  | .object fields => (fieldsToJson? fields).map .object
  | .meaningless | .malformed => none

def itemsToJson? : List Draft → Option (List Json)
  | [] => some []
  | v :: vs =>
    match v.toJson?, itemsToJson? vs with
    | some value, some values => some (value :: values)
    | _, _ => none

def fieldsToJson? : List (Option String × Draft) → Option (List (String × Json))
  | [] => some []
  | (some name, v) :: fields =>
    match v.toJson?, fieldsToJson? fields with
    | some value, some values => some ((name, value) :: values)
    | _, _ => none
  | (none, _) :: _ => none

end

mutual

/-- Whether a draft is complete, although parts of it may be meaningless. -/
def isComplete : Draft → Bool
  | .malformed => false
  | .array items => itemsComplete items
  | .object fields => fieldsComplete fields
  | _ => true

def itemsComplete : List Draft → Bool
  | [] => true
  | v :: vs => v.isComplete && itemsComplete vs

def fieldsComplete : List (Option String × Draft) → Bool
  | [] => true
  | (_, v) :: fields => v.isComplete && fieldsComplete fields

end

mutual

/-- The number of containers that lie within each other. -/
def levels : Draft → Nat
  | .array items => 1 + itemLevels items
  | .object fields => 1 + fieldLevels fields
  | _ => 0

def itemLevels : List Draft → Nat
  | [] => 0
  | v :: vs => max v.levels (itemLevels vs)

def fieldLevels : List (Option String × Draft) → Nat
  | [] => 0
  | (_, v) :: fields => max v.levels (fieldLevels fields)

end

mutual

@[simp]
theorem toJson?_draft (v : Json) : v.draft.toJson? = some v := by
  cases v with
  | array items => simp [draft, toJson?, itemsToJson?_itemDrafts items]
  | object fields => simp [draft, toJson?, fieldsToJson?_fieldDrafts fields]
  | _ => simp [draft, toJson?]

theorem itemsToJson?_itemDrafts (vs : List Json) :
    itemsToJson? (itemDrafts vs) = some vs := by
  cases vs with
  | nil => simp [itemDrafts, itemsToJson?]
  | cons v vs =>
    simp [itemDrafts, itemsToJson?, toJson?_draft v, itemsToJson?_itemDrafts vs]

theorem fieldsToJson?_fieldDrafts (fields : List (String × Json)) :
    fieldsToJson? (fieldDrafts fields) = some fields := by
  match fields with
  | [] => simp [fieldDrafts, fieldsToJson?]
  | (name, v) :: fields =>
    simp [fieldDrafts, fieldsToJson?, toJson?_draft v, fieldsToJson?_fieldDrafts fields]

end

end Draft

end StorageUpgrade.Json
