import StorageUpgrade.Json.Document
import StorageUpgrade.Json.Record
import StorageUpgrade.Json.Writer
import StorageUpgrade.Source.Tree

/-!
# Source trees as documents

The compiler writes a source tree as JSON, where the kind of a node stands in its field
`nodeType`. Kinds of nodes that do not matter for storage are read without looking at their
fields, but the name of a type has to be of a known kind.
-/

namespace StorageUpgrade.Source

open Json (FieldReader Kinds Reader)

/-- The field that tells the kind of a node. -/
def kindField : String := "nodeType"

/-- An object with the kind of a node and its fields. -/
def node (kind : String) (fields : List (String × Json)) : Json :=
  .object ((kindField, .string kind) :: fields)

/-- Writes an absent value as `null`. -/
def optionToJson (value : α → Json) : Option α → Json
  | none => .null
  | some a => value a

/-! ## Descriptions of types -/

namespace TypeDescriptions

def toJson (descriptions : TypeDescriptions) : Json :=
  .object [("typeIdentifier", optionToJson .string descriptions.typeIdentifier),
    ("typeString", optionToJson .string descriptions.typeString)]

def reader : Reader TypeDescriptions :=
  .record (mk <$> .optional "typeIdentifier" .string <*> .optional "typeString" .string)

end TypeDescriptions

namespace Mutability

def text : Mutability → String
  | mutable => "mutable"
  | immutable => "immutable"
  | constant => "constant"

def reader : Reader Mutability :=
  .choice ([mutable, immutable, constant].map fun mutability => (mutability.text, mutability))

end Mutability

/-! ## Type names and variables -/

mutual

def TypeName.toJson : TypeName → Json
  | .elementary descriptions =>
    node "ElementaryTypeName" [("typeDescriptions", descriptions.toJson)]
  | .userDefined declaration descriptions =>
    node "UserDefinedTypeName" [("referencedDeclaration", .integer declaration),
      ("typeDescriptions", descriptions.toJson)]
  | .array base descriptions =>
    node "ArrayTypeName" [("baseType", base.toJson), ("typeDescriptions", descriptions.toJson)]
  | .mapping key value descriptions =>
    node "Mapping" [("keyType", key.toJson), ("valueType", value.toJson),
      ("typeDescriptions", descriptions.toJson)]
  | .function parameters returns descriptions =>
    node "FunctionTypeName" [
      ("parameterTypes", .object [("parameters", .array (variablesToJson parameters))]),
      ("returnParameterTypes", .object [("parameters", .array (variablesToJson returns))]),
      ("typeDescriptions", descriptions.toJson)]

/-- The fields of a variable. -/
def Variable.jsonFields : Variable → List (String × Json)
  | { id, name, constant, mutability, src, typeName, descriptions } => [
    ("id", .integer id),
    ("name", .string name),
    ("constant", .bool constant),
    ("mutability", optionToJson (.string ·.text) mutability),
    ("src", .string src),
    ("typeName", match typeName with
      | none => .null
      | some typeName => typeName.toJson),
    ("typeDescriptions", descriptions.toJson)]

def variablesToJson : List Variable → List Json
  | [] => []
  | v :: vs => .object v.jsonFields :: variablesToJson vs

end

/-- The fields of a variable, with a reader for the name of its type. -/
def Variable.fieldsWith (typeName : Reader TypeName) : FieldReader Variable :=
  mk <$> .required "id" .int64 <*> .required "name" .string
    <*> .withDefault "constant" false .bool
    <*> .withDefault "mutability" none (.nullable Mutability.reader)
    <*> .withDefault "src" "" .string
    <*> .withDefault "typeName" none (.nullable typeName)
    <*> .withDefault "typeDescriptions" ⟨none, none⟩ TypeDescriptions.reader

namespace TypeName

/-- The parameters of a function, with a reader for the names of their types. -/
def parametersWith (typeName : Reader TypeName) : Reader (List Variable) :=
  .record (.required "parameters" (.list (.record (Variable.fieldsWith typeName))))

/-- The kinds of type names, with a reader for the names within them. -/
def kindsWith (typeName : Reader TypeName) : Kinds TypeName where
  known :=
    let descriptions := .required "typeDescriptions" TypeDescriptions.reader
    [("ElementaryTypeName", elementary <$> descriptions),
      ("UserDefinedTypeName",
        userDefined <$> .required "referencedDeclaration" .int64 <*> descriptions),
      ("ArrayTypeName", array <$> .required "baseType" typeName <*> descriptions),
      ("Mapping",
        mapping <$> .required "keyType" typeName <*> .required "valueType" typeName
          <*> descriptions),
      ("FunctionTypeName",
        function <$> .required "parameterTypes" (parametersWith typeName)
          <*> .required "returnParameterTypes" (parametersWith typeName) <*> descriptions)]
  other := none

/-- Reads a type name that is written with at most `levels` levels. -/
def readAt : Nat → Reader TypeName
  | 0 => fun _ draft => .error draft.mismatch
  | levels + 1 => .tagged kindField (kindsWith (readAt levels))

def reader : Reader TypeName := fun setting draft => readAt draft.levels setting draft

end TypeName

namespace Variable

def toJson (declared : Variable) : Json := .object declared.jsonFields

def fields : FieldReader Variable := fieldsWith TypeName.reader

def reader : Reader Variable := .record fields

end Variable

/-! ## Declarations -/

namespace StructDefinition

def jsonFields (definition : StructDefinition) : List (String × Json) :=
  [("id", .integer definition.id), ("name", .string definition.name),
    ("members", .array (definition.members.map Variable.toJson))]

def fields : FieldReader StructDefinition :=
  mk <$> .required "id" .int64 <*> .required "name" .string
    <*> .required "members" (.list Variable.reader)

def reader : Reader StructDefinition := .record fields

end StructDefinition

namespace EnumDefinition

def jsonFields (definition : EnumDefinition) : List (String × Json) :=
  [("id", .integer definition.id), ("name", .string definition.name),
    ("members", .array (definition.members.map fun name => .object [("name", .string name)]))]

def fields : FieldReader EnumDefinition :=
  mk <$> .required "id" .int64 <*> .required "name" .string
    <*> .required "members" (.list (.record (.required "name" .string)))

def reader : Reader EnumDefinition := .record fields

end EnumDefinition

namespace ContractNode

def toJson : ContractNode → Json
  | stateVariable declaration => node "VariableDeclaration" declaration.jsonFields
  | struct definition => node "StructDefinition" definition.jsonFields
  | enum definition => node "EnumDefinition" definition.jsonFields
  | other => node "Other" []

def kinds : Kinds ContractNode where
  known := [("VariableDeclaration", stateVariable <$> Variable.fields),
    ("StructDefinition", struct <$> StructDefinition.fields),
    ("EnumDefinition", enum <$> EnumDefinition.fields)]
  other := some (pure other)

def reader : Reader ContractNode := .tagged kindField kinds

end ContractNode

namespace ContractDefinition

def jsonFields (contract : ContractDefinition) : List (String × Json) :=
  [("id", .integer contract.id), ("name", .string contract.name),
    ("nodes", .array (contract.nodes.map ContractNode.toJson))]

def fields : FieldReader ContractDefinition :=
  mk <$> .required "id" .int64 <*> .required "name" .string
    <*> .required "nodes" (.list ContractNode.reader)

def reader : Reader ContractDefinition := .record fields

end ContractDefinition

namespace UnitNode

def toJson : UnitNode → Json
  | contract definition => node "ContractDefinition" definition.jsonFields
  | struct definition => node "StructDefinition" definition.jsonFields
  | enum definition => node "EnumDefinition" definition.jsonFields
  | other => node "Other" []

def kinds : Kinds UnitNode where
  known := [("ContractDefinition", contract <$> ContractDefinition.fields),
    ("StructDefinition", struct <$> StructDefinition.fields),
    ("EnumDefinition", enum <$> EnumDefinition.fields)]
  other := some (pure other)

def reader : Reader UnitNode := .tagged kindField kinds

end UnitNode

namespace SourceUnit

def toJson (unit : SourceUnit) : Json :=
  .object [("id", .integer unit.id), ("absolutePath", .string unit.absolutePath),
    ("nodes", .array (unit.nodes.map UnitNode.toJson))]

def reader : Reader SourceUnit :=
  .record (mk <$> .required "id" .int64 <*> .withDefault "absolutePath" "" .string
    <*> .required "nodes" (.list UnitNode.reader))

/-- The unit that a document holds. -/
def ofDocument (text : String) : Except Json.DocumentError SourceUnit :=
  Json.readDocument reader text

end SourceUnit

end StorageUpgrade.Source
