import StorageUpgrade.Json.Basic

/-!
# Writing JSON

Two layouts: everything on one line without blanks, or every item of a container on a line of its
own, indented by two blanks for each level. An empty container is two brackets in either.
-/

namespace StorageUpgrade.Json

/-- A digit to the base sixteen, in lower case. -/
def hexDigit (n : Nat) : Char :=
  Nat.digitChar n

def writeChar (c : Char) : List Char :=
  match c with
  | '"' => ['\\', '"']
  | '\\' => ['\\', '\\']
  | '\x08' => ['\\', 'b']
  | '\x0c' => ['\\', 'f']
  | '\n' => ['\\', 'n']
  | '\r' => ['\\', 'r']
  | '\t' => ['\\', 't']
  | c =>
    if c.toNat < 0x20 then
      ['\\', 'u', '0', '0', hexDigit (c.toNat / 16), hexDigit (c.toNat % 16)]
    else [c]

def writeString (text : String) (rest : List Char) : List Char :=
  '"' :: (text.toList.flatMap writeChar ++ '"' :: rest)

/-- The digits of an integer, behind a minus if it is negative. -/
def integerText : Int → List Char
  | .ofNat n => Nat.toDigits 10 n
  | .negSucc n => '-' :: Nat.toDigits 10 (n + 1)

inductive Style where
  | compact
  | indented
  deriving DecidableEq, Repr

/-- What stands before an item of a container, or before its closing bracket. -/
def Style.lineBreak : Style → Nat → List Char
  | compact, _ => []
  | indented, level => '\n' :: List.replicate (2 * level) ' '

def Style.colon : Style → List Char
  | compact => [':']
  | indented => [':', ' ']

mutual

/-- Writes a value that lies within `level` containers, in front of `rest`. -/
def write (style : Style) (level : Nat) (rest : List Char) : Json → List Char
  | .null => "null".toList ++ rest
  | .bool true => "true".toList ++ rest
  | .bool false => "false".toList ++ rest
  | .integer value => integerText value ++ rest
  | .decimal text => text ++ rest
  | .string text => writeString text rest
  | .array [] => '[' :: ']' :: rest
  | .array (v :: vs) =>
    '[' :: style.lineBreak (level + 1) ++
      v.write style (level + 1) (writeItems style level rest vs)
  | .object [] => '\x7b' :: '\x7d' :: rest
  | .object ((name, v) :: fields) =>
    '\x7b' :: style.lineBreak (level + 1) ++ writeString name
      (style.colon ++ v.write style (level + 1) (writeFields style level rest fields))

/-- Writes the further items of an array and its closing bracket. -/
def writeItems (style : Style) (level : Nat) (rest : List Char) : List Json → List Char
  | [] => style.lineBreak level ++ ']' :: rest
  | v :: vs =>
    ',' :: style.lineBreak (level + 1) ++
      v.write style (level + 1) (writeItems style level rest vs)

/-- Writes the further fields of an object and its closing bracket. -/
def writeFields (style : Style) (level : Nat) (rest : List Char) :
    List (String × Json) → List Char
  | [] => style.lineBreak level ++ '\x7d' :: rest
  | (name, v) :: fields =>
    ',' :: style.lineBreak (level + 1) ++ writeString name
      (style.colon ++ v.write style (level + 1) (writeFields style level rest fields))

end

def compact (value : Json) : String :=
  String.ofList (value.write .compact 0 [])

def indented (value : Json) : String :=
  String.ofList (value.write .indented 0 [])

end StorageUpgrade.Json
