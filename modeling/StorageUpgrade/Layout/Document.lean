import StorageUpgrade.Json.Document
import StorageUpgrade.Json.Record
import StorageUpgrade.Json.Writer
import StorageUpgrade.Layout.Basic

/-!
# Layouts as documents

A layout is kept as a JSON document, so that later versions of a contract can be checked against
it. An enum without names and a struct without fields are both written as an empty array, which
is read as the struct.
-/

namespace StorageUpgrade

open Json (Reader)

def Member.toJson (member : Member String) : Json :=
  .object [("label", .string member.label), ("type", .string member.type)]

def Member.reader : Reader (Member String) :=
  .record (mk <$> .required "label" .string <*> .required "type" .string)

/-- Fields are written as records, names as strings. -/
def Members.toJson : Members String → Json
  | struct fields => .array (fields.map Member.toJson)
  | enum names => .array (names.map .string)

/-- A list of fields or else a list of names. -/
def Members.reader : Reader (Members String) :=
  .either (.map struct (.list Member.reader)) (.map enum (.list .string))

/-- A type without members is written without the field for them. -/
def TypeEntry.toJson (entry : TypeEntry) : Json :=
  .object (("label", .string entry.label) ::
    (entry.members.map fun members => ("members", members.toJson)).toList)

def TypeEntry.reader : Reader TypeEntry :=
  .record (mk <$> .required "label" .string
    <*> .withDefault "members" none (.nullable Members.reader))

def StoredVariable.toJson (stored : StoredVariable) : Json :=
  .object [("contract", .string stored.contract), ("label", .string stored.label),
    ("type", .string stored.typeId), ("src", .string stored.src)]

def StoredVariable.reader : Reader StoredVariable :=
  .record (mk <$> .required "contract" .string <*> .required "label" .string
    <*> .required "type" .string <*> .required "src" .string)

def Dictionary.toJson (value : α → Json) (dictionary : Dictionary α) : Json :=
  .object (dictionary.entries.map fun (key, v) => (key, value v))

/-- Of two fields with one name the later counts, but both have to be readable. -/
def Dictionary.reader (value : Reader α) : Reader (Dictionary α) :=
  .map .ofList (.entries value)

namespace Layout

def toJson (layout : Layout) : Json :=
  .object [("storage", .array (layout.stored.map StoredVariable.toJson)),
    ("types", layout.types.toJson TypeEntry.toJson)]

def reader : Reader Layout :=
  .record (mk <$> .required "storage" (.list StoredVariable.reader)
    <*> .required "types" (Dictionary.reader TypeEntry.reader))

def toDocument (layout : Layout) : String := layout.toJson.indented

def ofDocument (text : String) : Except Json.DocumentError Layout :=
  Json.readDocument reader text

end Layout

end StorageUpgrade
