import Mathlib.Data.List.Infix
import StorageUpgrade.Proofs.CompleteDeclarations
import StorageUpgrade.Proofs.Normalization

/-!
# Declarations that a layout can be extracted from

A compiler describes the types in its trees in two ways: by type names within type names, and by
identifiers with the identifiers of others in their brackets. Where the two agree, and references
lead to declarations, no step of extraction can fail.
-/

namespace StorageUpgrade

namespace Source

open Identifier (TypeExpr)

/-! ## Type names and their identifiers -/

/-- The structure of the identifier of a type name, if it has one. -/
def TypeName.expr? (name : TypeName) : Option TypeExpr :=
  name.descriptions.typeIdentifier.bind fun raw => (Identifier.parse raw).toOption

theorem TypeName.expr?_eq_some_iff {name : TypeName} {expr : TypeExpr} :
    name.expr? = some expr ↔
      ∃ raw, name.descriptions.typeIdentifier = some raw ∧ Identifier.parse raw = .ok expr := by
  unfold expr?
  rw [Option.bind_eq_some_iff]
  refine exists_congr fun raw => and_congr_right fun _ => ?_
  cases Identifier.parse raw <;> simp [Except.toOption]

theorem TypeName.typeId?_of_expr? {name : TypeName} {expr : TypeExpr}
    (h : name.expr? = some expr) : name.typeId? = some expr.id := by
  obtain ⟨raw, hraw, hparse⟩ := expr?_eq_some_iff.1 h
  have hnormalize := Identifier.normalize_of_parse hparse
  exact TypeDescriptions.typeId?_eq_some_iff.2 ⟨raw, hraw, hnormalize⟩

/-- Expressions, and the type names that have them as their identifiers; or neither. -/
def AreTypesOf (exprs? : Option (List TypeExpr)) (names? : Option (List TypeName)) : Prop :=
  exprs?.map (·.map fun expr => some expr.id) = names?.map (·.map TypeName.typeId?)

instance (exprs? : Option (List TypeExpr)) (names? : Option (List TypeName)) :
    Decidable (AreTypesOf exprs? names?) :=
  inferInstanceAs (Decidable (_ = _))

/-- What an identifier has to say of the type that a type name is written for. -/
def TypeName.Matches : TypeName → TypeExpr → Prop
  | elementary _, expr => AreTypesOf expr.args? none ∧ AreTypesOf expr.rets? none
  | userDefined _ _, expr =>
    expr.head ∈ ["t_struct", "t_enum", "t_contract"] ∧ AreTypesOf expr.rets? none
  | array base _, expr => AreTypesOf expr.args? (some [base]) ∧ AreTypesOf expr.rets? none
  | mapping key value _, expr =>
    AreTypesOf expr.args? (some [key, value]) ∧ AreTypesOf expr.rets? none
  | function parameters returns _, expr =>
    AreTypesOf expr.args? (some (parameters.filterMap (·.typeName))) ∧
      AreTypesOf expr.rets? (some (returns.filterMap (·.typeName)))

instance (name : TypeName) (expr : TypeExpr) : Decidable (name.Matches expr) := by
  cases name <;> exact inferInstanceAs (Decidable (_ ∧ _))

/-- A type name that is shown somehow, with an identifier that matches it and names no pointer into
storage once it is normalized. -/
structure TypeName.Described (name : TypeName) : Prop where
  label : name.descriptions.typeString.isSome = true
  identifier : ∃ expr ∈ name.expr?, name.Matches expr
  location : ∀ id ∈ name.typeId?, ¬ Identifier.storagePointerWord <:+: id.toList

instance (name : TypeName) : Decidable name.Described :=
  decidable_of_iff (name.descriptions.typeString.isSome = true ∧
      (∃ expr ∈ name.expr?, name.Matches expr) ∧
      ∀ id ∈ name.typeId?, ¬ Identifier.storagePointerWord <:+: id.toList)
    ⟨fun h => ⟨h.1, h.2.1, h.2.2⟩, fun h => ⟨h.label, h.identifier, h.location⟩⟩

end Source

namespace Extraction

open Source (ContractDefinition DeclarationIndex Locator TypeName)

/-- Declarations as a compiler gives them: every declared variable has the identifier of its type
name, every type name is described, and every reference to a struct or an enum leads to one. -/
structure WellDescribed (index : DeclarationIndex) (contract : ContractDefinition) : Prop where
  consistent : ∀ declared ∈ declaredVariables index contract, declared.Consistent
  described : ∀ name ∈ namesIn (declaredVariables index contract), name.Described
  found : ∀ name ∈ namesIn (declaredVariables index contract), ∀ id ∈ name.typeId?,
    ∀ declaration ∈ name.declaration?, isStructOrEnum id = true →
      (index.declaration? [.struct, .enum] declaration).isSome = true

section

variable {index : DeclarationIndex} {contract : ContractDefinition}

theorem WellDescribed.complete (h : WellDescribed index contract) {name : TypeName}
    (hname : name ∈ namesIn (declaredVariables index contract)) : Complete index name where
  typeId := by
    obtain ⟨expr, hexpr, -⟩ := (h.described name hname).identifier
    rw [TypeName.typeId?_of_expr? hexpr]
    rfl
  label := (h.described name hname).label
  found := h.found name hname
  fields field hfield :=
    (h.consistent field (List.mem_append_right _ (fieldsOf_subset index name hfield))).typed

theorem WellDescribed.extractable (h : WellDescribed index contract) :
    Extractable index contract where
  stored declared hdeclared := (h.consistent declared (List.mem_append_left _ hdeclared)).typed
  reached _ hname := h.complete hname.mem_namesIn

theorem exists_extract (h : WellDescribed index contract) (locate : Locator) :
    ∃ layout, extract index locate contract = .ok layout :=
  h.extractable.exists_layout locate

end

end Extraction

end StorageUpgrade
