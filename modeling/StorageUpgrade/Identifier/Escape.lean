import StorageUpgrade.Outcome

/-!
# Escape tokens

Type identifiers are written without brackets and commas: each of the three delimiters has an
escape token in its place. No token is marked off from the text around it and one begins like
another, so reading looks ahead: a token is taken only if tokens alone lead from behind it to the
end of the text or to a character that starts none.
-/

namespace StorageUpgrade.Identifier.Escape

/-- The token that is written for a character: its own for a delimiter, else the character. -/
def token : Char → List Char
  | '(' => ['$', '_']
  | ',' => ['_', '$', '_']
  | ')' => ['_', '$']
  | c => [c]

def encode (text : List Char) : List Char :=
  text.flatMap token

@[simp]
theorem encode_cons (c : Char) (text : List Char) : encode (c :: text) = token c ++ encode text :=
  List.flatMap_cons

@[simp]
theorem encode_append (left right : List Char) :
    encode (left ++ right) = encode left ++ encode right :=
  List.flatMap_append

/-- Whether tokens alone lead from here to the end of the text, or to a character that is neither
an underscore nor a dollar sign. -/
def tiled : List Char → Bool
  | [] => true
  | '$' :: '_' :: rest => tiled rest
  | '_' :: '$' :: '_' :: rest => tiled rest || tiled ('_' :: rest)
  | '_' :: '$' :: rest => tiled rest
  | c :: _ => c != '$' && c != '_'

/-- Reads the escaped form of a text. A dollar sign, or an underscore before one, has to be the
start of a token: the comma's token if it can stand here, else the bracket's, and if neither can
the failure is the offset in bytes. `offset` is where the text begins. -/
def decodeFrom (offset : Nat) : List Char → Except Nat (List Char)
  | [] => .ok []
  | '$' :: '_' :: rest =>
    if tiled rest then (decodeFrom (offset + 2) rest).map ('(' :: ·) else .error offset
  | '$' :: _ => .error offset
  | '_' :: '$' :: '_' :: rest =>
    if tiled rest then (decodeFrom (offset + 3) rest).map (',' :: ·)
    else if tiled ('_' :: rest) then (decodeFrom (offset + 2) ('_' :: rest)).map (')' :: ·)
    else .error offset
  | '_' :: '$' :: rest =>
    if tiled rest then (decodeFrom (offset + 2) rest).map (')' :: ·) else .error offset
  | c :: rest => (decodeFrom (offset + c.utf8Size) rest).map (c :: ·)

/-- Reads the escaped form of a whole text; the failure is the offset in bytes of the first escape
that no token accounts for. -/
def decode (text : List Char) : Except Nat (List Char) :=
  decodeFrom 0 text

theorem length_le_of_decodeFrom {offset : Nat} {raw text : List Char}
    (h : decodeFrom offset raw = .ok text) : text.length ≤ raw.length := by
  fun_induction decodeFrom offset raw generalizing text with
  | case1 => cases h; simp
  | case3 | case4 | case7 | case9 => cases h
  | case2 offset rest _ ih | case5 offset rest _ ih | case6 offset rest _ _ ih
  | case8 offset rest _ _ ih | case10 offset c rest _ _ _ _ ih =>
    obtain ⟨text, hdecode, rfl⟩ := map_eq_ok_iff.1 h
    have hle := ih hdecode
    simp only [List.length_cons] at hle ⊢
    omega

end StorageUpgrade.Identifier.Escape
