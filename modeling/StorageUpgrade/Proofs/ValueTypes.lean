import StorageUpgrade.Proofs.ExtractedResolution
import StorageUpgrade.Proofs.PointerForms
import StorageUpgrade.Proofs.TypeGrammar

/-!
# User-defined value types

The identifier of a user-defined value type has the name of the type in its brackets, like that of a
struct, an enum or a contract. Extraction takes the type for one without members, which it is. But
reading the identifier takes the name for the identifier of another type, and no entry is ever made
of that: where a value type is reached, the layout that was extracted cannot be resolved.
-/

namespace StorageUpgrade

namespace Identifier

/-! ## Names and numbers -/

/-- A name that consists of letters and digits. -/
structure IsName (name : String) : Prop where
  nonempty : name ≠ ""
  alphanum : ∀ c ∈ name.toList, c.isAlphanum = true

instance (name : String) : Decidable (IsName name) :=
  decidable_of_iff (name ≠ "" ∧ name.toList.all Char.isAlphanum = true)
    ⟨fun h => ⟨h.1, List.all_eq_true.1 h.2⟩, fun h => ⟨h.nonempty, List.all_eq_true.2 h.alphanum⟩⟩

/-- Text of which no character belongs to a token or has one. -/
def Ordinary (text : List Char) : Prop := ∀ c ∈ text, isDelimiter c = false ∧ c ≠ '_' ∧ c ≠ '$'

theorem isDigit_or_eq_minus_of_mem_repr {number : Int} {c : Char}
    (h : c ∈ number.repr.toList) : c.isDigit = true ∨ c = '-' := by
  have hdigits : ∀ {n : Nat}, c ∈ n.repr.toList → c.isDigit = true := by
    intro n hc
    rw [Nat.toList_repr] at hc
    exact Nat.isDigit_of_mem_toDigits (by decide) (by decide) hc
  cases number with
  | ofNat n => exact .inl (hdigits h)
  | negSucc n =>
    rw [show (Int.negSucc n).repr = "-" ++ n.succ.repr from rfl, String.toList_append,
      List.mem_append] at h
    rcases h with hminus | hdigit
    · exact .inr (List.mem_singleton.1 hminus)
    · exact .inl (hdigits hdigit)

theorem ordinary_of_isAlphanum {c : Char} (h : c.isAlphanum = true) :
    isDelimiter c = false ∧ c ≠ '_' ∧ c ≠ '$' := by
  refine ⟨Escape.isDelimiter_eq_false_iff.2 ⟨?_, ?_, ?_⟩, ?_, ?_⟩ <;>
    · rintro rfl
      revert h
      decide

theorem IsName.ordinary {name : String} (h : IsName name) : Ordinary name.toList :=
  fun c hc => ordinary_of_isAlphanum (h.alphanum c hc)

theorem ordinary_repr (number : Int) : Ordinary number.repr.toList := by
  intro c hc
  rcases isDigit_or_eq_minus_of_mem_repr hc with hdigit | rfl
  · exact ordinary_of_isAlphanum (by rw [Char.isAlphanum, hdigit, Bool.or_true])
  · decide

theorem Ordinary.plain {text : List Char} (h : Ordinary text) : Plain text :=
  fun c hc => (h c hc).1

theorem Ordinary.count_underscore {text : List Char} (h : Ordinary text) : text.count '_' = 0 :=
  List.count_eq_zero.2 fun hmem => (h '_' hmem).2.1 rfl

/-- Text in front that runs into nothing. -/
theorem Ordinary.separable_append {left right : List Char} (h : Ordinary left)
    (hright : Escape.Separable right) : Escape.Separable (left ++ right) := by
  induction left with
  | nil => exact hright
  | cons c left ih =>
    obtain ⟨⟨hplain, hunderscore, hdollar⟩, hleft⟩ := List.forall_mem_cons.1 h
    exact Escape.separable_cons.2
      ⟨hdollar, fun d _ => Escape.joins_of_plain hplain hunderscore d, ih hleft⟩

theorem repr_ne_nil (number : Int) : number.repr.toList ≠ [] := by
  cases number with
  | ofNat n =>
    show n.repr.toList ≠ []
    rw [Nat.toList_repr]
    exact Nat.toDigits_ne_nil
  | negSucc n =>
    show ("-" ++ n.succ.repr).toList ≠ []
    simp

/-- A number behind a closing bracket does not run into it. -/
theorem separable_close_repr (number : Int) {rest : List Char} (hrest : Escape.Separable rest) :
    Escape.Separable (')' :: (number.repr.toList ++ rest)) := by
  have hnumber := (ordinary_repr number).separable_append hrest
  refine Escape.separable_cons.2 ⟨by decide, fun d hd => ?_, hnumber⟩
  rw [List.head?_append_of_ne_nil _ (repr_ne_nil number)] at hd
  obtain ⟨hplain, hunderscore, -⟩ := ordinary_repr number d (List.mem_of_mem_head? hd)
  exact Escape.joins_close.2 ⟨(Escape.isDelimiter_eq_false_iff.1 hplain).2.1, hunderscore⟩

/-- A word behind an opening bracket does not run into it, unless it starts with an underscore. -/
theorem separable_open_append {word rest : List Char} (hne : word ≠ [])
    (hstart : word.head? ≠ some '_') (h : Escape.Separable (word ++ rest)) :
    Escape.Separable ('(' :: (word ++ rest)) := by
  refine Escape.separable_cons.2 ⟨by decide, fun d hd => Escape.joins_open.2 ?_, h⟩
  rw [List.head?_append_of_ne_nil _ hne] at hd
  intro hunderscore
  exact hstart (hunderscore ▸ hd)

theorem storagePointerWord_absent {text : List Char} (h : text.count '_' ≤ 1) :
    ¬ storagePointerWord <:+: text := by
  intro hoccurs
  have hword : storagePointerWord.count '_' = 2 := by decide
  have hcount := hoccurs.sublist.count_le '_'
  omega

/-! ## Identifiers of value types -/

/-- The word in front of the brackets. -/
def valueTypeHead : String := "t_userDefinedValueType"

/-- The identifier of a value type, as the compiler writes it. -/
def valueTypeId (name : String) (number : Int) : String :=
  valueTypeHead ++ "$_" ++ name ++ "_$" ++ number.repr

/-- The identifier of a value type in normalized form. -/
def valueTypeKey (name : String) (number : Int) : String :=
  valueTypeHead ++ "(" ++ name ++ ")" ++ number.repr

section

variable {name : String} {number : Int}

theorem toList_valueTypeKey (name : String) (number : Int) : (valueTypeKey name number).toList =
    valueTypeHead.toList ++ '(' :: (name.toList ++ ')' :: number.repr.toList) := by
  simp [valueTypeKey]

theorem encode_valueTypeKey (h : IsName name) (number : Int) :
    encode (valueTypeKey name number) = valueTypeId name number := by
  have hhead : Escape.encode valueTypeHead.toList = valueTypeHead.toList :=
    Escape.encode_eq_self (plain_iff_all.2 (by decide))
  have hname := Escape.encode_eq_self h.ordinary.plain
  have hnumber := Escape.encode_eq_self (ordinary_repr number).plain
  rw [encode, toList_valueTypeKey, ← String.toList_inj, String.toList_ofList]
  simp [valueTypeId, hhead, hname, hnumber, Escape.token]

theorem separable_valueTypeKey (h : IsName name) (number : Int) :
    Escape.Separable (valueTypeKey name number).toList := by
  have hclosed := separable_close_repr number Escape.separable_nil
  rw [List.append_nil] at hclosed
  have hne : name.toList ≠ [] := fun hnil => h.nonempty (String.toList_inj.1 hnil)
  have hstart : name.toList.head? ≠ some '_' := fun hhead =>
    (h.ordinary '_' (List.mem_of_mem_head? hhead)).2.1 rfl
  have hopened := separable_open_append hne hstart (h.ordinary.separable_append hclosed)
  have hhead : valueTypeHead.toList = 't' :: '_' :: "userDefinedValueType".toList := by decide
  have hword : IsName "userDefinedValueType" := by decide
  have hrest := hword.ordinary.separable_append hopened
  rw [toList_valueTypeKey, hhead]
  refine Escape.separable_cons.2
    ⟨by decide, fun d _ => Escape.joins_of_plain (by decide) (by decide) d, ?_⟩
  refine Escape.separable_cons.2 ⟨by decide, ?_, hrest⟩
  rintro d ⟨⟩
  exact Escape.joins_underscore.2 (by decide)

theorem normalize_valueTypeKey (h : IsName name) (number : Int) :
    normalize (valueTypeKey name number) = .ok (valueTypeKey name number) := by
  refine normalize_eq_self (separable_valueTypeKey h number).noDollar
    (storagePointerWord_absent ?_)
  have hhead : valueTypeHead.toList.count '_' = 1 := by decide
  rw [toList_valueTypeKey, List.count_append, List.count_cons_of_ne (by decide), List.count_append,
    List.count_cons_of_ne (by decide), hhead, h.ordinary.count_underscore,
    (ordinary_repr number).count_underscore]

theorem normalize_valueTypeId (h : IsName name) (number : Int) :
    normalize (valueTypeId name number) = .ok (valueTypeKey name number) := by
  have hdecode : decode (valueTypeId name number) = .ok (valueTypeKey name number) := by
    rw [← encode_valueTypeKey h, decode_eq_ok_iff_toList, encode, String.toList_ofList]
    exact Escape.decode_encode_eq_ok_iff.2 (separable_valueTypeKey h number)
  exact (mapDecoded_of_decode _ hdecode).symm.trans (normalize_valueTypeKey h number)

/-- What is read of the identifier of a value type: its name is taken for an argument. -/
def valueTypeExpr (name : String) (number : Int) : TypeExpr :=
  .applied valueTypeHead.toList [.word name.toList] (.tail number.repr.toList)

theorem id_valueTypeExpr (name : String) (number : Int) :
    (valueTypeExpr name number).id = valueTypeKey name number := by
  rw [TypeExpr.id, ← String.toList_inj, String.toList_ofList, toList_valueTypeKey]
  simp [valueTypeExpr, TypeExpr.text, TypeExpr.write, writeFirst, writeMore, Ending.write]

theorem proper_valueTypeExpr (h : IsName name) (number : Int) :
    (valueTypeExpr name number).Proper := by
  refine .applied (plain_iff_all.2 (by decide)) (by decide) ?_ ?_ (.tail ?_ ?_)
  · intro hempty
    have hnil : name.toList = [] := by simpa using hempty
    exact h.nonempty (String.toList_inj.1 hnil)
  · intro arg harg
    obtain rfl := List.mem_singleton.1 harg
    exact .word h.ordinary.plain
  · exact (ordinary_repr number).plain
  · intro hreturns
    have hmem : 'r' ∈ number.repr.toList := hreturns.subset (by decide)
    rcases isDigit_or_eq_minus_of_mem_repr hmem with hdigit | hminus
    · revert hdigit
      decide
    · cases hminus

theorem parse_valueTypeKey (h : IsName name) (number : Int) :
    parse (valueTypeKey name number) = .ok (valueTypeExpr name number) :=
  (parse_eq_ok_iff_proper (normalize_valueTypeKey h number)).2
    ⟨proper_valueTypeExpr h number, id_valueTypeExpr name number⟩

theorem id_word (name : String) : (TypeExpr.word name.toList).id = name := by
  simp [TypeExpr.id, TypeExpr.text, TypeExpr.write]

/-- It has brackets, which no name has. -/
theorem not_isName_valueTypeKey : ¬ IsName (valueTypeKey name number) := by
  intro h
  have hopen : '(' ∈ (valueTypeKey name number).toList := by
    rw [toList_valueTypeKey]
    exact List.mem_append_right _ List.mem_cons_self
  exact absurd (h.alphanum '(' hopen) (by decide)

/-- A name by itself is a word. -/
theorem parse_name (h : IsName name) : parse name = .ok (.word name.toList) := by
  have hdollar : '$' ∉ name.toList := fun hmem => (h.ordinary '$' hmem).2.2 rfl
  have hnormalize : normalize name = .ok name := by
    refine normalize_eq_self hdollar (storagePointerWord_absent ?_)
    rw [h.ordinary.count_underscore]
    exact Nat.zero_le 1
  exact (parse_eq_ok_iff_proper hnormalize).2 ⟨.word h.ordinary.plain, id_word name⟩

end

end Identifier

namespace Source

/-- A type name with the identifier of a value type. -/
structure TypeName.ValueType (type : TypeName) (name : String) (number : Int) : Prop where
  isName : Identifier.IsName name
  identifier : type.descriptions.typeIdentifier = some (Identifier.valueTypeId name number)

instance (type : TypeName) (name : String) (number : Int) :
    Decidable (type.ValueType name number) :=
  decidable_of_iff (_ ∧ _) ⟨fun h => ⟨h.1, h.2⟩, fun h => ⟨h.isName, h.identifier⟩⟩

theorem TypeName.ValueType.typeId? {type : TypeName} {name : String} {number : Int}
    (h : type.ValueType name number) :
    type.typeId? = some (Identifier.valueTypeKey name number) :=
  TypeDescriptions.typeId?_eq_some_iff.2
    ⟨_, h.identifier, Identifier.normalize_valueTypeId h.isName number⟩

end Source

namespace Extraction

open Identifier (IsName valueTypeKey)
open Source (ContractDefinition DeclarationIndex Locator TypeName Variable)

/-! ## Value types are recorded without members -/

theorem isStructOrEnum_valueTypeKey (name : String) (number : Int) :
    isStructOrEnum (valueTypeKey name number) = false := by
  have hhead :
      Identifier.valueTypeHead.toList = 't' :: '_' :: 'u' :: "serDefinedValueType".toList := by
    decide
  rw [isStructOrEnum, Identifier.toList_valueTypeKey, hhead]
  rfl

section

variable {index : DeclarationIndex} {locate : Locator} {contract : ContractDefinition}
  {layout : Layout} {x y name : String} {number : Int}

theorem Describes.members_eq_none {type : TypeName} {entry : TypeEntry}
    (h : Describes index type (valueTypeKey name number) entry) : entry.members = none := by
  have hnone : memberDeclaration? index (valueTypeKey name number) type = none := by
    unfold memberDeclaration?
    rw [isStructOrEnum_valueTypeKey]
    split <;> rfl
  have hmembers := h.members
  rw [hnone] at hmembers
  generalize entry.members = members? at hmembers
  cases hmembers
  rfl

/-! ## What resolving can come to -/

/-- Each identifier that can be reached has an entry, or it is the name of a value type that can be
reached. By induction on the way from a stored variable. -/
theorem defines_or_isName_of_reachable
    (hconsistent : ∀ declared ∈ declaredVariables index contract, declared.Consistent)
    (hnames : ∀ type ∈ namesIn (declaredVariables index contract),
      type.Described ∨ ∃ name number, type.ValueType name number)
    (hextract : extract index locate contract = .ok layout) (hx : layout.Reachable x) :
    layout.defines x = true ∨
      IsName x ∧ ∃ number, layout.Reachable (valueTypeKey x number) := by
  obtain ⟨hrecorded, -⟩ := extract_spec hextract
  obtain ⟨stored, hmem, hpath⟩ := hx
  induction hpath with
  | refl => exact .inl (defines_of_stored hextract hconsistent hmem)
  | @tail y z hpath hyz ih =>
    have hy : layout.Reachable y := ⟨stored, hmem, hpath⟩
    obtain ⟨expr, hparse, hpart | ⟨entry, fields, hentry, hfields, hfield⟩⟩ := hyz
    · obtain ⟨part, hmember, rfl⟩ := List.mem_map.1 hpart
      rcases ih with hdefines | ⟨hname, -⟩
      · obtain ⟨type, htype, hid, hsettled⟩ := hrecorded.exists_name hdefines
        rcases hnames type htype with hdescribed | ⟨name, number, hvalue⟩
        · exact .inl (hsettled.defines_of_part hdescribed hid hparse hmember)
        · obtain rfl : valueTypeKey name number = y :=
            Option.some.inj (hvalue.typeId?.symm.trans hid)
          rw [Identifier.parse_valueTypeKey hvalue.isName] at hparse
          cases hparse
          obtain rfl : part = .word name.toList := List.mem_singleton.1 hmember
          rw [Identifier.id_word]
          exact .inr ⟨hvalue.isName, number, hy⟩
      · -- A name has no parts.
        rw [Identifier.parse_name hname] at hparse
        cases hparse
        cases hmember
    · obtain ⟨field, hmember, rfl⟩ := List.mem_map.1 hfield
      exact .inl (defines_of_field hrecorded hconsistent hentry hfields hmember)

/-- The name of a value type that can be reached is reached itself. -/
theorem reachable_name (hname : IsName name) (hx : layout.Reachable (valueTypeKey name number)) :
    layout.Reachable name := by
  refine hx.tail ⟨_, Identifier.parse_valueTypeKey hname number, .inl ?_⟩
  exact List.mem_map.2 ⟨.word name.toList, List.mem_cons_self, Identifier.id_word name⟩

/-- There is an entry for all that resolves. -/
theorem defines_name_of_resolve {resolved : ResolvedLayout}
    (hresolve : layout.resolve = .ok resolved) (hname : IsName name)
    (hx : layout.Reachable (valueTypeKey name number)) : layout.defines name = true := by
  obtain ⟨source, hsource⟩ :=
    (mirrors_of_resolve hresolve).exists_describe (reachable_name hname hx)
  obtain ⟨expr, hparse, hsome⟩ := Layout.described_of_describe hsource
  rw [Identifier.parse_name hname] at hparse
  cases hparse
  rwa [Identifier.id_word] at hsome

section

variable (hconsistent : ∀ declared ∈ declaredVariables index contract, declared.Consistent)
  (hnames : ∀ type ∈ namesIn (declaredVariables index contract),
    type.Described ∨ ∃ name number, type.ValueType name number)
  (hextract : extract index locate contract = .ok layout)

include hconsistent hnames hextract

theorem parse_of_reachable (hx : layout.Reachable x) :
    ∃ expr, Identifier.parse x = .ok expr ∧ expr.id = x := by
  rcases defines_or_isName_of_reachable hconsistent hnames hextract hx with hdefines | ⟨hname, -⟩
  · obtain ⟨type, htype, hid, -⟩ := (extract_spec hextract).1.exists_name hdefines
    rcases hnames type htype with hdescribed | ⟨name, number, hvalue⟩
    · obtain ⟨expr, hparse, hexpr, -⟩ := hdescribed.parse hid
      exact ⟨expr, hparse, hexpr⟩
    · obtain rfl : valueTypeKey name number = x :=
        Option.some.inj (hvalue.typeId?.symm.trans hid)
      exact ⟨_, Identifier.parse_valueTypeKey hvalue.isName number,
        Identifier.id_valueTypeExpr name number⟩
  · exact ⟨_, Identifier.parse_name hname, Identifier.id_word x⟩

/-- A value type that can be reached has been recorded, and as one without members. -/
theorem exists_label_of_reachable (hx : layout.Reachable (valueTypeKey name number)) :
    ∃ label, layout.type? (valueTypeKey name number) = some ⟨label, none⟩ := by
  rcases defines_or_isName_of_reachable hconsistent hnames hextract hx with hdefines | ⟨hname, -⟩
  · obtain ⟨⟨label, members⟩, hentry⟩ := Option.isSome_iff_exists.1 hdefines
    obtain ⟨type, -, hdescribes, -⟩ := (extract_spec hextract).1 _ _ hentry
    obtain rfl : members = none := hdescribes.members_eq_none
    exact ⟨label, hentry⟩
  · exact absurd hname Identifier.not_isName_valueTypeKey

/-- An error that is no recursion is about the name of a value type. -/
theorem resolve_error_cases {error : ResolutionError} (hresolve : layout.resolve = .error error) :
    (∃ chain, error = .recursionDetected chain) ∨
      ∃ name number, IsName name ∧ layout.Reachable (valueTypeKey name number) ∧
        layout.defines name = false ∧ error = .unknownType name := by
  have hgenuine := genuine_of_resolve hresolve
  cases error with
  | recursionDetected chain => exact .inl ⟨chain, rfl⟩
  | unknownType id =>
    obtain ⟨x, expr, hx, hparse, rfl, htype⟩ := hgenuine
    obtain ⟨expr', hparse', hid⟩ := parse_of_reachable hconsistent hnames hextract hx
    rw [hparse] at hparse'
    cases hparse'
    rw [hid] at htype ⊢
    have hundefined : layout.defines x = false := by
      change (layout.type? x).isSome = false
      rw [htype]
      rfl
    rcases defines_or_isName_of_reachable hconsistent hnames hextract hx with
      hdefines | ⟨hname, number, hkey⟩
    · rw [hundefined] at hdefines
      cases hdefines
    · exact .inr ⟨x, number, hname, hkey, hundefined, rfl⟩
  | identifier cause =>
    obtain ⟨x, hx, hparse⟩ := hgenuine
    obtain ⟨expr, hparse', -⟩ := parse_of_reachable hconsistent hnames hextract hx
    rw [hparse] at hparse'
    cases hparse'

/-- Where the declarations of a contract name described types and value types, every value type that
can be reached has an entry without members. Still the layout cannot be resolved, unless the name of
the value type by itself has an entry too, and apart from recursions this is the only obstacle. -/
theorem resolve_valueTypes :
    (∀ name number, IsName name → layout.Reachable (valueTypeKey name number) →
      (∃ label, layout.type? (valueTypeKey name number) = some ⟨label, none⟩) ∧
        (layout.defines name = false → ∀ resolved, layout.resolve ≠ .ok resolved)) ∧
      ∀ error, layout.resolve = .error error →
        (∃ chain, error = .recursionDetected chain) ∨
          ∃ name number, IsName name ∧ layout.Reachable (valueTypeKey name number) ∧
            layout.defines name = false ∧ error = .unknownType name := by
  refine ⟨fun name number hname hx => ⟨?_, fun hundefined resolved hresolve => ?_⟩,
    fun error => resolve_error_cases hconsistent hnames hextract⟩
  · exact exists_label_of_reachable hconsistent hnames hextract hx
  · have hdefines := defines_name_of_resolve hresolve hname hx
    rw [hundefined] at hdefines
    cases hdefines

end

end

/-! ## A feed of prices -/

section

/-- A contract with a value type, as the type of a variable and within a mapping. -/
def feed : ContractDefinition :=
  let number : TypeName := .elementary ⟨some "t_uint8", some "uint8"⟩
  let priceId := "t_userDefinedValueType$_Price_$2"
  let price : TypeName := .userDefined 2 ⟨some priceId, some "Feed.Price"⟩
  let declare := fun (id : Int) (name : String) (type : TypeName) (raw : String) =>
    (⟨id, name, false, some .mutable, "", some type, ⟨some raw, none⟩⟩ : Variable)
  let table := "t_mapping$_t_uint8_$_t_userDefinedValueType$_Price_$2_$"
  ⟨1, "Feed", [
    .other,
    .stateVariable (declare 3 "last" price priceId),
    .stateVariable (declare 4 "prices" (.mapping number price
      ⟨some table, some "mapping(uint8 => Feed.Price)"⟩) table)]⟩

def feedIndex : DeclarationIndex :=
  .ofUnits [⟨0, "Feed.sol", [.contract feed]⟩]

def feedLayout : Layout where
  stored := [⟨"Feed", "last", "t_userDefinedValueType(Price)2", ""⟩,
    ⟨"Feed", "prices", "t_mapping(t_uint8,t_userDefinedValueType(Price)2)", ""⟩]
  types := .ofList [
    ("t_mapping(t_uint8,t_userDefinedValueType(Price)2)", ⟨"mapping(uint8 => Feed.Price)", none⟩),
    ("t_uint8", ⟨"uint8", none⟩),
    ("t_userDefinedValueType(Price)2", ⟨"Feed.Price", none⟩)]

theorem consistent_feed : ∀ declared ∈ declaredVariables feedIndex feed, declared.Consistent := by
  decide +kernel

theorem valueType_feed : ∀ type ∈ namesIn (declaredVariables feedIndex feed),
    type.Described ∨ ∃ name number, type.ValueType name number := by
  have hprice : ∀ type ∈ namesIn (declaredVariables feedIndex feed),
      type.Described ∨ type.ValueType "Price" 2 := by
    decide +kernel
  exact fun type htype => (hprice type htype).imp_right fun h => ⟨"Price", 2, h⟩

theorem extract_feed : extract feedIndex Locator.raw feed = .ok feedLayout := by
  decide +kernel

theorem resolve_valueTypes_feed :
    (∀ declared ∈ declaredVariables feedIndex feed, declared.Consistent) ∧
      (∀ type ∈ namesIn (declaredVariables feedIndex feed),
        type.Described ∨ ∃ name number, type.ValueType name number) ∧
      extract feedIndex Locator.raw feed = .ok feedLayout ∧
      (∃ label, feedLayout.type? (valueTypeKey "Price" 2) = some ⟨label, none⟩) ∧
      ∀ resolved, feedLayout.resolve ≠ .ok resolved := by
  have hlast : (⟨"Feed", "last", valueTypeKey "Price" 2, ""⟩ : StoredVariable) ∈
      feedLayout.stored := by
    decide +kernel
  obtain ⟨hentry, hresolve⟩ := (resolve_valueTypes consistent_feed valueType_feed extract_feed).1
    "Price" 2 (by decide +kernel) (.of_mem hlast)
  exact ⟨consistent_feed, valueType_feed, extract_feed, hentry, hresolve (by decide +kernel)⟩

/-- Declarations that are named consistently do not save a layout from unknown types. -/
theorem not_resolves_feed :
    ¬ ∀ (index : DeclarationIndex) (contract : ContractDefinition) (layout : Layout),
      (∀ declared ∈ declaredVariables index contract, declared.Consistent) →
        (∀ type ∈ namesIn (declaredVariables index contract),
          type.Described ∨ ∃ name number, type.ValueType name number) →
            extract index Locator.raw contract = .ok layout →
              ∀ id, layout.resolve ≠ .error (.unknownType id) := by
  intro h
  refine h feedIndex feed feedLayout consistent_feed valueType_feed extract_feed "Price" ?_
  decide +kernel

end

end Extraction

end StorageUpgrade
