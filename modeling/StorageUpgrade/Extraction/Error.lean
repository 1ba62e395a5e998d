import StorageUpgrade.Identifier.Basic

/-!
# Failures of extraction

The compiler describes every type in full, so a tree that lacks a description is not one of its
own, or not a complete one.
-/

namespace StorageUpgrade

/-- Why a layout cannot be extracted. Every cause but the last names the declaration concerned. -/
inductive ExtractionError where
  | missingTypeIdentifier (owner : String)
  | missingTypeString (owner : String)
  | missingTypeName (owner : String)
  /-- A number refers to no struct or enum. -/
  | unresolvedReference (owner : String) (declaration : Int)
  | identifier (cause : Identifier.Error)
  deriving DecidableEq, Repr

def ExtractionError.message : ExtractionError → String
  | missingTypeIdentifier owner =>
    "Variable `" ++ owner ++ "` has no type identifier in its type descriptions"
  | missingTypeString owner =>
    "Type name in `" ++ owner ++ "` has no type string in its type descriptions"
  | missingTypeName owner => "Variable `" ++ owner ++ "` has no type name"
  | unresolvedReference owner declaration =>
    "Declaration " ++ toString declaration ++ " referenced by `" ++ owner
      ++ "` is not a struct or enum definition"
  | identifier cause => cause.message

end StorageUpgrade
