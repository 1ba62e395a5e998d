import StorageUpgrade.Json.Draft
import StorageUpgrade.Json.Token

/-!
# Reading drafts

A draft is read from the tokens of a text. Reading never fails: where the text goes wrong, the
draft has a malformed part and nothing behind it. Containers may lie within each other to any
depth. Every call spends one unit of `budget`, and with every other call in a row a token is
passed.
-/

namespace StorageUpgrade.Json.Draft

/-- The draft of a string that means a text, or none. -/
def ofString : Option String → Draft
  | some text => .string text
  | none => .meaningless

mutual

/-- Reads a draft, and gives the tokens behind it. -/
def read : Nat → List Token → Draft × List Token
  | 0, _ => (.malformed, [])
  | _ + 1, .null :: rest => (.null, rest)
  | _ + 1, .bool value :: rest => (.bool value, rest)
  | _ + 1, .integer value :: rest => (.integer value, rest)
  | _ + 1, .decimal text :: rest => (.decimal text, rest)
  | _ + 1, .immense :: rest => (.meaningless, rest)
  | _ + 1, .string text :: rest => (ofString text, rest)
  | _ + 1, .openArray :: .closeArray :: rest => (.array [], rest)
  | budget + 1, .openArray :: rest =>
    let (items, rest) := readItems budget rest
    (.array items, rest)
  | _ + 1, .openObject :: .closeObject :: rest => (.object [], rest)
  | budget + 1, .openObject :: rest =>
    let (fields, rest) := readFields budget rest
    (.object fields, rest)
  | _ + 1, _ => (.malformed, [])

/-- Reads one or more items with commas between them and a closing bracket at the end. -/
def readItems : Nat → List Token → List Draft × List Token
  | 0, _ => ([.malformed], [])
  | budget + 1, tokens =>
    let (item, rest) := read budget tokens
    match rest with
    | .comma :: rest =>
      let (items, rest) := readItems budget rest
      (item :: items, rest)
    | .closeArray :: rest => ([item], rest)
    | _ => ([item, .malformed], [])

/-- Reads one or more fields with commas between them and a closing bracket at the end. Where the
text goes wrong behind a name, the name is kept. -/
def readFields : Nat → List Token → List (Option String × Draft) × List Token
  | 0, _ => ([(none, .malformed)], [])
  | budget + 1, .string name :: .colon :: rest =>
    let (v, rest) := read budget rest
    match rest with
    | .comma :: rest =>
      let (fields, rest) := readFields budget rest
      ((name, v) :: fields, rest)
    | .closeObject :: rest => ([(name, v)], rest)
    | _ => ([(name, v), (none, .malformed)], [])
  | _ + 1, .string name :: _ => ([(name, .malformed)], [])
  | _ + 1, _ => ([(none, .malformed)], [])

end

def ofText (text : String) : Draft × List Token :=
  let tokens := Token.readAll text.toList
  read (2 * tokens.length + 1) tokens

end Draft

def read? (text : String) : Option Json :=
  match Draft.ofText text with
  | (draft, []) => draft.toJson?
  | _ => none

end StorageUpgrade.Json
