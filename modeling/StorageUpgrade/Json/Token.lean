import StorageUpgrade.Json.Numeral

/-!
# Tokens of JSON

A text is cut into tokens, and the blanks between them are passed over. A string token holds the
text that is meant, with every escape resolved, if there is one: half of a pair of units means
none. Where no token can be read the last token says so.
-/

namespace StorageUpgrade.Json

/-- A token: a mark, a word, a number or a string. A number that is `immense` is out of range. -/
inductive Token where
  | openArray
  | closeArray
  | openObject
  | closeObject
  | comma
  | colon
  | null
  | bool (value : Bool)
  | integer (value : Int)
  | decimal (text : List Char)
  | immense
  | string (text : Option String)
  | malformed
  deriving DecidableEq, Repr

namespace Token

/-! ## Strings -/

/-- A piece of a string: a character, or a unit of sixteen bits that an escape gives. -/
inductive Piece where
  | char (c : Char)
  | unit (value : Nat)
  deriving DecidableEq, Repr

def hexValue? (c : Char) : Option Nat :=
  if '0' ≤ c ∧ c ≤ '9' then some (c.toNat - '0'.toNat)
  else if 'a' ≤ c ∧ c ≤ 'f' then some (c.toNat - 'a'.toNat + 10)
  else if 'A' ≤ c ∧ c ≤ 'F' then some (c.toNat - 'A'.toNat + 10)
  else none

def unit? (a b c d : Char) : Option Nat := do
  return 0x1000 * (← hexValue? a) + 0x100 * (← hexValue? b) + 0x10 * (← hexValue? c)
    + (← hexValue? d)

/-- The character that stands behind a backslash for another one. -/
def escaped? : Char → Option Char
  | '"' => some '"'
  | '\\' => some '\\'
  | '/' => some '/'
  | 'b' => some '\x08'
  | 'f' => some '\x0c'
  | 'n' => some '\n'
  | 'r' => some '\r'
  | 't' => some '\t'
  | _ => none

/-- The pieces of a string up to its closing quote, and the text behind it. -/
def readPieces : List Char → Option (List Piece × List Char)
  | '"' :: rest => some ([], rest)
  | '\\' :: 'u' :: a :: b :: c :: d :: rest => do
    let unit ← unit? a b c d
    let (pieces, rest) ← readPieces rest
    return (.unit unit :: pieces, rest)
  | '\\' :: c :: rest => do
    let meant ← escaped? c
    let (pieces, rest) ← readPieces rest
    return (.char meant :: pieces, rest)
  | c :: rest =>
    if c.toNat < 0x20 then none
    else (readPieces rest).map fun (pieces, rest) => (.char c :: pieces, rest)
  | [] => none

def isHighSurrogate (unit : Nat) : Bool := 0xD800 ≤ unit && unit < 0xDC00

def isLowSurrogate (unit : Nat) : Bool := 0xDC00 ≤ unit && unit < 0xE000

/-- The characters that pieces stand for. Two units of a pair stand for one character, and neither
has a meaning without the other. -/
def joinPieces : List Piece → Option (List Char)
  | [] => some []
  | .char c :: rest => (joinPieces rest).map (c :: ·)
  | .unit high :: .unit low :: rest =>
    if isHighSurrogate high then
      if isLowSurrogate low then
        (joinPieces rest).map
          (Char.ofNat (0x10000 + (high - 0xD800) * 0x400 + (low - 0xDC00)) :: ·)
      else none
    else if isLowSurrogate high then none
    else (joinPieces (.unit low :: rest)).map (Char.ofNat high :: ·)
  | .unit value :: rest =>
    if isHighSurrogate value || isLowSurrogate value then none
    else (joinPieces rest).map (Char.ofNat value :: ·)

/-- The text that stands for a string up to its closing quote, if it means one, and the text behind
it. -/
def readString? (text : List Char) : Option (Option String × List Char) :=
  (readPieces text).map fun (pieces, rest) => ((joinPieces pieces).map String.ofList, rest)

/-! ## Numbers -/

def ofNumeral (n : Numeral) : Token :=
  if n.isInRange then
    match n.integer? with
    | some value => .integer value
    | none => .decimal n.text
  else .immense

/-! ## All tokens -/

/-- Reads the token that begins with the character `c`. -/
def read? (c : Char) (rest : List Char) : Option (Token × List Char) :=
  match c with
  | '[' => some (.openArray, rest)
  | ']' => some (.closeArray, rest)
  | '\x7b' => some (.openObject, rest)
  | '\x7d' => some (.closeObject, rest)
  | ',' => some (.comma, rest)
  | ':' => some (.colon, rest)
  | '"' => (readString? rest).map fun (text, rest) => (.string text, rest)
  | '-' => (Numeral.read? true rest).map fun (n, rest) => (ofNumeral n, rest)
  | 'n' =>
    match rest with
    | 'u' :: 'l' :: 'l' :: rest => some (.null, rest)
    | _ => none
  | 't' =>
    match rest with
    | 'r' :: 'u' :: 'e' :: rest => some (.bool true, rest)
    | _ => none
  | 'f' =>
    match rest with
    | 'a' :: 'l' :: 's' :: 'e' :: rest => some (.bool false, rest)
    | _ => none
  | c => (Numeral.read? false (c :: rest)).map fun (n, rest) => (ofNumeral n, rest)

/-- Whether a character may stand between tokens. -/
def isBlank (c : Char) : Bool :=
  c = ' ' || c = '\t' || c = '\n' || c = '\r'

/-- Reads up to `budget` tokens. -/
def readUpTo (budget : Nat) (text : List Char) : List Token :=
  match text.dropWhile isBlank with
  | [] => []
  | c :: rest =>
    match budget with
    | 0 => [.malformed]
    | budget + 1 =>
      match read? c rest with
      | none => [.malformed]
      | some (token, rest) => token :: readUpTo budget rest

/-- The tokens of a text, up to the first place where there is none. -/
def readAll (text : List Char) : List Token :=
  readUpTo text.length text

end Token

end StorageUpgrade.Json
