import StorageUpgrade.Proofs.ResolutionOutcome
import StorageUpgrade.Proofs.WellDescribed

/-!
# Resolving what was extracted

Extraction follows type names, and resolving follows the identifiers that were written for them.
Where each identifier holds in its brackets the identifiers of what its type name is made of, the
two meet the same types: the entries of an extracted layout refer to entries only. What can still
keep the layout from being resolved is a type that contains itself.
-/

namespace StorageUpgrade

/-! ## Arguments of named types -/

namespace Identifier

/-- Behind the word of a named kind, the brackets hold a name. -/
theorem args?_eq_none_of_readExpr {budget : Nat} {text rest : List Char} {expr : TypeExpr}
    (h : readExpr budget text = some (expr, rest)) (hnamed : expr.isNamed = true) :
    expr.args? = none := by
  cases expr with
  | word head => rfl
  | named kind name ending => rfl
  | applied head args ending =>
    have hkind : (NamedKind.ofHead? head).isSome = true := hnamed
    cases budget with
    | zero => cases h
    | succ budget =>
      simp only [readExpr] at h
      split at h
      next open_ hrest =>
        split at h
        next kind hsome =>
          simp only [Option.bind_eq_bind, Option.bind_eq_some_iff, Option.pure_def,
            Option.some.injEq, Prod.mk.injEq] at h
          obtain ⟨_, -, _, -, hnode, -⟩ := h
          cases hnode
        next hnone =>
          simp only [Option.bind_eq_bind, Option.bind_eq_some_iff, Option.pure_def,
            Option.some.injEq, Prod.mk.injEq] at h
          obtain ⟨_, -, _, -, hnode, -⟩ := h
          cases hnode
          rw [hnone] at hkind
          cases hkind
      next =>
        cases h

theorem args?_eq_none_of_parse {raw : String} {expr : TypeExpr} (h : parse raw = .ok expr)
    (hnamed : expr.isNamed = true) : expr.args? = none := by
  obtain ⟨text, -, hread⟩ := parse_eq_ok_iff.1 h
  exact args?_eq_none_of_readExpr hread hnamed

theorem isNamed_of_head_mem {expr : TypeExpr}
    (h : expr.head ∈ ["t_struct", "t_enum", "t_contract"]) : expr.isNamed = true := by
  have hheads : ["t_struct", "t_enum", "t_contract"] =
      NamedKind.all.map (String.ofList ·.head) := by
    decide
  rw [hheads] at h
  obtain ⟨kind, -, hhead⟩ := List.mem_map.1 h
  have htext : expr.headText = kind.head := String.ofList_injective hhead.symm
  rw [TypeExpr.isNamed, htext, NamedKind.ofHead?_head]
  rfl

end Identifier

/-! ## Parts and children -/

namespace Source

open Identifier (TypeExpr)

variable {name : TypeName} {expr : TypeExpr} {id : String}

theorem AreTypesOf.map_getD {exprs? : Option (List TypeExpr)} {names? : Option (List TypeName)}
    (h : AreTypesOf exprs? names?) :
    (exprs?.getD []).map (fun expr => some expr.id) = (names?.getD []).map TypeName.typeId? := by
  cases exprs? <;> cases names? <;> simp_all [AreTypesOf]

/-- An identifier that matches a type name is made of the identifiers of its children, in order. -/
theorem TypeName.Matches.parts (h : name.Matches expr) (hparse : name.expr? = some expr) :
    expr.parts.map (fun part => some part.id) = name.children.map TypeName.typeId? := by
  rw [TypeExpr.parts, List.map_append]
  cases name with
  | elementary descriptions =>
    rw [h.1.map_getD, h.2.map_getD]
    rfl
  | userDefined declaration descriptions =>
    obtain ⟨raw, -, hraw⟩ := expr?_eq_some_iff.1 hparse
    have hargs : expr.args? = none :=
      Identifier.args?_eq_none_of_parse hraw (Identifier.isNamed_of_head_mem h.1)
    rw [hargs, h.2.map_getD]
    rfl
  | array base descriptions =>
    rw [h.1.map_getD, h.2.map_getD]
    rfl
  | mapping key value descriptions =>
    rw [h.1.map_getD, h.2.map_getD]
    rfl
  | function parameters returns descriptions =>
    rw [h.1.map_getD, h.2.map_getD, children, List.filterMap_append, List.map_append]
    rfl

/-- What resolving finds in the identifier that was written for a described type name. -/
theorem TypeName.Described.parse (h : name.Described) (hid : name.typeId? = some id) :
    ∃ expr, Identifier.parse id = .ok expr ∧ expr.id = id ∧
      expr.parts.map (fun part => some part.id) = name.children.map TypeName.typeId? := by
  obtain ⟨expr, hexpr, hmatches⟩ := h.identifier
  have hexpr : name.expr? = some expr := hexpr
  obtain ⟨raw, hraw, hparse⟩ := expr?_eq_some_iff.1 hexpr
  have htypeId : some expr.id = some id := (typeId?_of_expr? hexpr).symm.trans hid
  have hexprId : expr.id = id := Option.some.inj htypeId
  have hnormalize : Identifier.normalize raw = .ok id :=
    hexprId ▸ Identifier.normalize_of_parse hparse
  have hagain : Identifier.parse id = .ok expr :=
    (Identifier.parse_of_normalize hnormalize (h.location id hid)).trans hparse
  exact ⟨expr, hagain, hexprId, hmatches.parts hexpr⟩

end Source

namespace Extraction

open Source (ContractDefinition DeclarationIndex Locator TypeName)

section

variable {index : DeclarationIndex} {contract : ContractDefinition} {layout : Layout} {x y : String}

/-- The type name behind an entry. -/
theorem Recorded.exists_name (hrecorded : Recorded index contract layout [])
    (hx : layout.defines x = true) :
    ∃ name ∈ namesIn (declaredVariables index contract),
      name.typeId? = some x ∧ Settled index layout [] name := by
  obtain ⟨entry, hentry⟩ := Option.isSome_iff_exists.1 hx
  obtain ⟨name, hreached, hdescribes, hsettled⟩ := hrecorded x entry hentry
  exact ⟨name, hreached.mem_namesIn, hdescribes.typeId, hsettled⟩

/-- The entries of an extracted layout are under identifiers that can be resolved. -/
theorem Recorded.described (hrecorded : Recorded index contract layout [])
    (h : WellDescribed index contract) (hx : layout.defines x = true) : layout.Described x := by
  obtain ⟨name, hname, hid, -⟩ := hrecorded.exists_name hx
  obtain ⟨expr, hparse, hexpr, -⟩ := (h.described name hname).parse hid
  exact ⟨expr, hparse, hexpr ▸ hx⟩

/-- What the identifier of a described type name is made of has entries, once care is taken of the
type name. -/
theorem Settled.defines_of_part {name : TypeName} (hsettled : Settled index layout [] name)
    (hdescribed : name.Described) (hid : name.typeId? = some x) {expr part : Identifier.TypeExpr}
    (hparse : Identifier.parse x = .ok expr) (hpart : part ∈ expr.parts) :
    layout.defines part.id = true := by
  obtain ⟨expr', hparse', -, hparts⟩ := hdescribed.parse hid
  have hexpr : expr' = expr := Except.ok.inj (hparse'.symm.trans hparse)
  have hsome : some part.id ∈ name.children.map TypeName.typeId? := by
    rw [← hparts, hexpr]
    exact List.mem_map_of_mem (f := fun part => some part.id) hpart
  obtain ⟨child, hchild, hchildId⟩ := List.mem_map.1 hsome
  obtain ⟨id, hid', hdefines⟩ := handled_nil_iff.1 (hsettled.children child hchild)
  have heq : some id = some part.id := hid'.symm.trans hchildId
  exact Option.some.inj heq ▸ hdefines

/-- The entries of an extracted layout refer to entries only. -/
theorem Recorded.defines_of_refersTo (hrecorded : Recorded index contract layout [])
    (h : WellDescribed index contract) (hx : layout.defines x = true)
    (hxy : layout.RefersTo x y) : layout.defines y = true := by
  obtain ⟨expr, hparse, hpart | ⟨entry, fields, hentry, hfields, hfield⟩⟩ := hxy
  · obtain ⟨name, hname, hid, hsettled⟩ := hrecorded.exists_name hx
    obtain ⟨part, hmem, rfl⟩ := List.mem_map.1 hpart
    exact hsettled.defines_of_part (h.described name hname) hid hparse hmem
  · obtain ⟨field, hmem, rfl⟩ := List.mem_map.1 hfield
    exact defines_of_field hrecorded h.consistent hentry hfields hmem

end

section

variable {index : DeclarationIndex} {locate : Locator} {contract : ContractDefinition}
  {layout : Layout}

/-- Whatever resolving an extracted layout can come to has an entry. By induction on the way from a
stored variable. -/
theorem defines_of_reachable (h : WellDescribed index contract)
    (hextract : extract index locate contract = .ok layout) {x : String}
    (hx : layout.Reachable x) : layout.defines x = true := by
  obtain ⟨hrecorded, -⟩ := extract_spec hextract
  obtain ⟨stored, hmem, hpath⟩ := hx
  induction hpath with
  | refl => exact defines_of_stored hextract h.consistent hmem
  | tail _ hyz ih => exact hrecorded.defines_of_refersTo h ih hyz

/-- From well described declarations a layout can be extracted, and whether it can be resolved is
only a matter of whether a type contains itself. -/
theorem extract_resolves (h : WellDescribed index contract) (locate : Locator) :
    ∃ layout, extract index locate contract = .ok layout ∧
      ((∃ resolved, layout.resolve = .ok resolved) ∨
        ∃ chain, layout.resolve = .error (.recursionDetected chain)) := by
  obtain ⟨layout, hextract⟩ := exists_extract h locate
  obtain ⟨hrecorded, -⟩ := extract_spec hextract
  have hdescribed : ∀ x, layout.Reachable x → layout.Described x := by
    intro x hx
    exact hrecorded.described h (defines_of_reachable h hextract hx)
  refine ⟨layout, hextract, ?_⟩
  cases hresolve : layout.resolve with
  | ok resolved => exact .inl ⟨resolved, rfl⟩
  | error error =>
    obtain ⟨chain, rfl⟩ := (genuine_of_resolve hresolve).exists_chain hdescribed
    exact .inr ⟨chain, rfl⟩

end

/-! ## A market of offers -/

section

open Source (Variable)

/-- A contract that uses type names of every kind, with a struct in a mapping. -/
def offers : ContractDefinition :=
  let number : TypeName := .elementary ⟨some "t_uint8", some "uint8"⟩
  let kind : TypeName := .userDefined 2 ⟨some "t_enum$_Kind_$2", some "enum Kind"⟩
  let offer : TypeName :=
    .userDefined 3 ⟨some "t_struct$_Offer_$3_storage_ptr", some "struct Offer"⟩
  let declare := fun (id : Int) (name : String) (type : TypeName) (raw : String) =>
    (⟨id, name, false, some .mutable, "", some type, ⟨some raw, none⟩⟩ : Variable)
  let table := "t_mapping$_t_uint8_$_t_struct$_Offer_$3_storage_$"
  let list := "t_array$_t_uint8_$dyn_storage"
  let hook := "t_function_view$_t_uint8_$returns$_t_enum$_Kind_$2_$"
  ⟨1, "Market", [
    .enum ⟨2, "Kind", ["Ask", "Bid"]⟩,
    .struct ⟨3, "Offer", [declare 4 "kind" kind "t_enum$_Kind_$2"]⟩,
    .stateVariable (declare 5 "offers" (.mapping number offer
      ⟨some table, some "mapping(uint8 => struct Offer)"⟩) table),
    .stateVariable (declare 6 "prices" (.array number ⟨some list, some "uint8[]"⟩) list),
    .stateVariable (declare 7 "hook" (.function [declare 8 "" number "t_uint8"]
      [declare 9 "" kind "t_enum$_Kind_$2"]
      ⟨some hook, some "function (uint8) view returns (enum Kind)"⟩) hook)]⟩

def offersIndex : DeclarationIndex :=
  .ofUnits [⟨0, "Market.sol", [.contract offers]⟩]

theorem extract_resolves_offers :
    WellDescribed offersIndex offers ∧
      ∃ layout, extract offersIndex Locator.raw offers = .ok layout ∧
        ((∃ resolved, layout.resolve = .ok resolved) ∨
          ∃ chain, layout.resolve = .error (.recursionDetected chain)) := by
  have hdescribed : WellDescribed offersIndex offers :=
    ⟨by decide +kernel, by decide +kernel, by decide +kernel⟩
  exact ⟨hdescribed, extract_resolves hdescribed Locator.raw⟩

end

end Extraction

end StorageUpgrade
