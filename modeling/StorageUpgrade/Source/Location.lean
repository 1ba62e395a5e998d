import StorageUpgrade.Source.Tree

/-!
# Places of declarations

The compiler gives the place of a declaration as `start:length:file`, where `start` is an offset
in bytes. A locator turns it into the place that is shown.
-/

namespace StorageUpgrade.Source

/-- How the place of a variable is shown. -/
abbrev Locator := Variable → String

structure SourceFile where
  path : String
  contents : String
  deriving DecidableEq, Repr

namespace Locator

def raw : Locator := Variable.src

/-- The number that digits stand for, behind a plus if there is one. It has to fit into 64 bits. -/
def offset? (text : List Char) : Option Nat :=
  let digits := match text with
    | '+' :: digits => digits
    | digits => digits
  if digits.isEmpty || !digits.all Char.isDigit then none
  else
    let value := Nat.ofDigitChars 10 digits 0
    if value < Nat.pow 2 64 then some value else none

/-- The parts of a text between colons. -/
def splitColons : List Char → List (List Char)
  | [] => [[]]
  | c :: rest =>
    if c = ':' then [] :: splitColons rest
    else
      match splitColons rest with
      | [] => [[c]]
      | part :: parts => (c :: part) :: parts

/-- The number of line breaks within the first `bytes` bytes of a text. -/
def lineBreaks (bytes : Nat) : List Char → Nat
  | [] => 0
  | c :: rest =>
    if bytes = 0 then 0
    else (if c = '\n' then 1 else 0) + lineBreaks (bytes - c.utf8Size) rest

/-- The path and the line of a place in one of the given files. -/
def line? (files : List SourceFile) (src : String) : Option String :=
  match splitColons src.toList with
  | start :: length :: file :: _ => do
    let start ← offset? start
    let _ ← offset? length
    let file ← files[← offset? file]?
    if start ≤ file.contents.utf8ByteSize then
      return file.path ++ ":" ++ toString (lineBreaks start file.contents.toList + 1)
    else none
  | _ => none

/-- The path and the line, where the place lies in one of the given files. -/
def lines (files : List SourceFile) : Locator := fun declared =>
  (line? files declared.src).getD declared.src

end Locator

end StorageUpgrade.Source
