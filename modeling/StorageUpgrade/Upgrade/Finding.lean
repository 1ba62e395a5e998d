import StorageUpgrade.Upgrade.Explanation

/-!
# Findings

An edit that an upgrade may not have is reported with the place in the sources that it is about.
-/

namespace StorageUpgrade

structure Finding where
  location : String
  edit : StorageEdit
  deriving DecidableEq, Repr

namespace Finding

/-- An edit is about the variable that it brings in, or else about the one that it takes. -/
def ofEdit (edit : StorageEdit) : Finding where
  location := ((edit.after?.or edit.before?).map (·.src)).getD ""
  edit

/-- The text of a finding on one line: the place and the explanation. -/
def text (finding : Finding) : String :=
  finding.location ++ ": " ++ (explain finding.edit).text

def listText (findings : List Finding) : String :=
  match findings with
  | [] => "Encountered no errors"
  | _ => "Encountered " ++ toString findings.length ++ " errors:\n"
    ++ String.join (findings.map fun finding => finding.text ++ "\n")

end Finding

end StorageUpgrade
