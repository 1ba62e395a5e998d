import StorageUpgrade.Alignment.Edit
import StorageUpgrade.Resolution.Resolve

/-!
# Explaining changes of storage

What an edit of the storage of a contract means, in words, with a hint where there is a way to
avoid it.
-/

namespace StorageUpgrade

abbrev StorageEdit := Alignment.Edit VariableInfo

structure Explanation where
  message : String
  hint : Option String
  deriving DecidableEq, Repr

namespace Explanation

def insertHint : String := "Only insert variables at the end of the most derived contract"

def deleteHint : String := "Keep the variable even if unused"

def typeChangeHint : String := "Keep the original type, or declare a new variable at the end"

def text (explanation : Explanation) : String :=
  match explanation.hint with
  | none => explanation.message
  | some hint => explanation.message ++ " (" ++ hint ++ ")"

def code (text : String) : String := "`" ++ text ++ "`"

/-- A variable with the contract that declares it. -/
def variableText (info : VariableInfo) : String :=
  code (info.contract ++ "." ++ info.label)

end Explanation

open Explanation (insertHint deleteHint typeChangeHint code variableText) in
def explain : StorageEdit → Explanation
  | .equal => ⟨"Kept a variable unchanged", none⟩
  | .rename before after =>
    ⟨"Renamed " ++ variableText before ++ " to " ++ code after.label, none⟩
  | .typeChange before after =>
    ⟨"Changed the type of " ++ variableText before ++ " from " ++ code before.typeLabel
      ++ " to " ++ code after.typeLabel, some typeChangeHint⟩
  | .replace before after =>
    ⟨"Replaced " ++ variableText before ++ " with " ++ code after.label
      ++ " of incompatible type " ++ code after.typeLabel, none⟩
  | .insert after => ⟨"Inserted " ++ variableText after, some insertHint⟩
  | .delete before => ⟨"Deleted " ++ variableText before, some deleteHint⟩
  | .append after => ⟨"Appended " ++ variableText after, none⟩

end StorageUpgrade
