import StorageUpgrade.Json.Reader
import StorageUpgrade.Json.Shape

/-!
# Documents

A document is a text that holds one value.
-/

namespace StorageUpgrade.Json

/-- The number of containers that may lie within each other in a document, as far as it is read. -/
def documentLevels : Nat := 127

/-- Reads the text of a document. Nothing may stand behind its value. -/
def readDocument (value : Reader α) (text : String) : Except DocumentError α := do
  let (draft, rest) := Draft.ofText text
  let a ← value (.passing documentLevels) draft
  if rest.isEmpty then return a else .error .invalidJson

end StorageUpgrade.Json
