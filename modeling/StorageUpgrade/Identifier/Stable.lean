import StorageUpgrade.Identifier.Kind

/-!
# Stable identifiers

The closing bracket of a reference to a struct, an enum or a contract is followed by the number of
the declaration, which changes whenever the sources are rearranged. The stable form of an
identifier leaves these numbers out.

They are found in a single pass, which counts the open brackets and remembers for every open
reference how many brackets were open in front of it. A closing bracket without a partner is passed
over, as the count stays at zero.
-/

namespace StorageUpgrade.Identifier.Stable

/-- The kind whose word and bracket a text begins with. -/
def opening? (text : List Char) : Option NamedKind :=
  NamedKind.all.find? fun kind => (kind.head ++ ['(']).isPrefixOf text

/-- The length of the number at the front of a text. One underscore behind the digits counts as
part of it, but only if there are digits. -/
def numberLength (text : List Char) : Nat :=
  let digits := (text.takeWhile Char.isDigit).length
  if digits = 0 then 0
  else if text[digits]? = some '_' then digits + 1
  else digits

/-- Passes over a text in front of which `depth` brackets are open. For every open reference, the
innermost first, `opened` has the number of brackets that were open in front of it. -/
def scan (opened : List Nat) (depth : Nat) : List Char → List Char
  | [] => []
  | c :: rest =>
    match opening? (c :: rest) with
    | some kind =>
      kind.head ++ '(' :: scan (depth :: opened) (depth + 1) (rest.drop kind.head.length)
    | none =>
      if c = '(' then c :: scan opened (depth + 1) rest
      else if c = ')' then
        if opened.head? = some (depth - 1) then
          c :: scan opened.tail (depth - 1) (rest.drop (numberLength rest))
        else c :: scan opened (depth - 1) rest
      else c :: scan opened depth rest
termination_by text => text.length
decreasing_by
  all_goals
    simp only [List.length_cons, List.length_drop]
    omega

/-- Leaves out the number of every declaration referred to. -/
def withoutNumbers (text : List Char) : List Char :=
  scan [] 0 text

end StorageUpgrade.Identifier.Stable
