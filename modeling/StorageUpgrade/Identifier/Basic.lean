import StorageUpgrade.Identifier.Escape
import StorageUpgrade.Identifier.Parser
import StorageUpgrade.Identifier.Stable
import StorageUpgrade.Text.Quoted
import StorageUpgrade.Text.Replace

/-!
# Type identifiers

What can be asked of an identifier as the compiler writes it: the decoded text, the normalized
text that keys the dictionary of a layout, the stable text that survives a recompilation, and the
structure. All of them begin by decoding, so an identifier that is already decoded may be given
as well.
-/

namespace StorageUpgrade.Identifier

inductive Error where
  /-- At the offset in bytes stands an escape that no token accounts for. -/
  | malformedEscape (identifier : String) (position : Nat)
  /-- A bracket is missing or misplaced. -/
  | unbalancedParentheses (identifier : String)
  /-- An expression has been read, and text is left. -/
  | trailingInput (identifier trailing : String)
  deriving DecidableEq, Repr

def Error.message : Error → String
  | malformedEscape identifier position =>
    "Malformed escape sequence at offset " ++ toString position ++ " in type identifier "
      ++ Text.quote identifier
  | unbalancedParentheses identifier =>
    "Unbalanced parentheses in type identifier " ++ Text.quote identifier
  | trailingInput identifier trailing =>
    "Unexpected trailing input " ++ Text.quote trailing ++ " in type identifier "
      ++ Text.quote identifier

/-- Applies a function on texts to the decoded form of an identifier. -/
def mapDecoded (f : List Char → List Char) (raw : String) : Except Error String :=
  match Escape.decode raw.toList with
  | .ok text => .ok (String.ofList (f text))
  | .error position => .error (.malformedEscape raw position)

/-- The text with brackets and commas in place of the escape tokens. -/
def decode (raw : String) : Except Error String :=
  mapDecoded id raw

def encode (text : String) : String :=
  String.ofList (Escape.encode text.toList)

/-- What is written for a reference to storage, and for a pointer into it. -/
def storageWord : List Char := "_storage".toList

def storagePointerWord : List Char := "_storage_ptr".toList

/-- The decoded text with pointers into storage written as references to storage, so that both
locations of a declared type share one key. -/
def normalize (raw : String) : Except Error String :=
  mapDecoded (Text.replace storagePointerWord storageWord) raw

/-- The decoded text without the numbers of the declarations that it refers to. -/
def stabilize (raw : String) : Except Error String :=
  mapDecoded Stable.withoutNumbers raw

def parse (raw : String) : Except Error TypeExpr := do
  let text ← normalize raw
  match TypeExpr.read? text.toList with
  | none => .error (.unbalancedParentheses text)
  | some (expr, []) => .ok expr
  | some (_, trailing) => .error (.trailingInput text (String.ofList trailing))

theorem length_normalize_le {raw text : String} (h : normalize raw = .ok text) :
    text.length ≤ raw.length := by
  unfold normalize mapDecoded at h
  split at h
  next decoded hdecoded =>
    cases h
    have hreplace := Text.length_replace_le (show storageWord.length ≤ storagePointerWord.length by
      decide) decoded
    have hdecode := Escape.length_le_of_decodeFrom hdecoded
    rw [String.length_ofList]
    exact Nat.le_trans hreplace hdecode
  next => cases h

theorem normalize_of_parse {raw : String} {expr : TypeExpr} (h : parse raw = .ok expr) :
    normalize raw = .ok expr.id := by
  unfold parse at h
  cases hn : normalize raw with
  | error cause => rw [hn] at h; cases h
  | ok text =>
    simp only [hn, bind, Except.bind] at h
    split at h
    next => cases h
    next expr hread =>
      cases h
      have hwrite := TypeExpr.write_of_read? hread
      rw [TypeExpr.id, TypeExpr.text, hwrite, String.ofList_toList]
    next => cases h

theorem length_id_le_of_parse {raw : String} {expr : TypeExpr} (h : parse raw = .ok expr) :
    expr.id.length ≤ raw.length :=
  length_normalize_le (normalize_of_parse h)

def TypeExpr.stableId (expr : TypeExpr) : Except Error String :=
  stabilize expr.id

end StorageUpgrade.Identifier
