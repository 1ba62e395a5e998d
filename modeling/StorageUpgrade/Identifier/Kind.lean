/-!
# Kinds of named types

An identifier of a struct, an enum or a contract holds the name of a declaration in its brackets,
where the identifiers of other types hold a list of identifiers.
-/

namespace StorageUpgrade.Identifier

/-- The kinds of types that refer to a declaration by name. -/
inductive NamedKind where
  | struct
  | enum
  | contract
  deriving DecidableEq, Repr

namespace NamedKind

def all : List NamedKind := [struct, enum, contract]

theorem mem_all (kind : NamedKind) : kind ∈ all := by
  cases kind <;> decide

def head : NamedKind → List Char
  | struct => "t_struct".toList
  | enum => "t_enum".toList
  | contract => "t_contract".toList

def ofHead? (word : List Char) : Option NamedKind :=
  all.find? fun kind => kind.head = word

theorem ofHead?_head (kind : NamedKind) : ofHead? kind.head = some kind := by
  cases kind <;> decide

theorem head_of_ofHead? {word : List Char} {kind : NamedKind} (h : ofHead? word = some kind) :
    kind.head = word := by
  simpa using List.find?_some h

theorem ofHead?_eq_none_iff {word : List Char} :
    ofHead? word = none ↔ ∀ kind : NamedKind, word ≠ kind.head := by
  constructor
  · rintro h kind rfl
    rw [ofHead?_head] at h
    cases h
  · intro h
    cases hkind : ofHead? word with
    | none => rfl
    | some kind => exact absurd (head_of_ofHead? hkind).symm (h kind)

end NamedKind

end StorageUpgrade.Identifier
