import StorageUpgrade.Proofs.NestedTypeNames
import StorageUpgrade.Proofs.ReadValues
import StorageUpgrade.Proofs.WrittenValues
import StorageUpgrade.Source.Document

/-!
# Source trees that are kept as documents

A source tree is read back from the document that it is written as, with nothing changed in it, if
its numbers fit into 64 bits and it does not lie too deep within itself. Trees that another program
has written are not looked at here.
-/

namespace StorageUpgrade.Source

open Json (FieldReader Reader)

/-! ## Numbers that can be written -/

/-- Whether a number fits into 64 bits with a sign. -/
def FitsInt64 (number : Int) : Prop := -Int.pow 2 63 ≤ number ∧ number < Int.pow 2 63

instance (number : Int) : Decidable (FitsInt64 number) :=
  inferInstanceAs (Decidable (_ ∧ _))

def StructDefinition.ids (definition : StructDefinition) : List Int :=
  definition.id :: variablesIds definition.members

def ContractNode.ids : ContractNode → List Int
  | stateVariable declaration => declaration.ids
  | struct definition => definition.ids
  | enum definition => [definition.id]
  | other => []

def ContractDefinition.ids (contract : ContractDefinition) : List Int :=
  contract.id :: contract.nodes.flatMap ContractNode.ids

def UnitNode.ids : UnitNode → List Int
  | contract definition => definition.ids
  | struct definition => definition.ids
  | enum definition => [definition.id]
  | other => []

/-- All numbers in a source unit. -/
def SourceUnit.ids (unit : SourceUnit) : List Int :=
  unit.id :: unit.nodes.flatMap UnitNode.ids

theorem StructDefinition.ids_subset {definition : StructDefinition} {v : Variable}
    (h : v ∈ definition.members) : v.ids ⊆ definition.ids :=
  fun _ hid => List.mem_cons_of_mem _ (mem_variablesIds_iff.2 ⟨v, h, hid⟩)

theorem ContractDefinition.ids_subset {contract : ContractDefinition} {part : ContractNode}
    (h : part ∈ contract.nodes) : part.ids ⊆ contract.ids :=
  fun _ hid => List.mem_cons_of_mem _ (List.mem_flatMap.2 ⟨part, h, hid⟩)

theorem SourceUnit.ids_subset {unit : SourceUnit} {part : UnitNode} (h : part ∈ unit.nodes) :
    part.ids ⊆ unit.ids :=
  fun _ hid => List.mem_cons_of_mem _ (List.mem_flatMap.2 ⟨part, h, hid⟩)

/-- What is known of the numbers and the children of a function is known of its parameters. -/
theorem TypeName.forall_parameter {parameters returns : List Variable}
    {descriptions : TypeDescriptions} {P : TypeName → Prop}
    (hids : ∀ id ∈ (function parameters returns descriptions).ids, FitsInt64 id)
    (hchildren : ∀ inner ∈ (function parameters returns descriptions).children, P inner) :
    ∀ v ∈ parameters ++ returns, FitsInt64 v.id ∧ ∀ inner, v.typeName = some inner → P inner := by
  intro v hv
  constructor
  · exact hids v.id (ids_subset_of_parameter hv v.id_mem_ids)
  · intro inner hname
    exact hchildren inner (mem_children_of_parameter hv hname)

/-! ## Levels -/

theorem variablesToJson_eq_map (vs : List Variable) :
    variablesToJson vs = vs.map Variable.toJson := by
  induction vs with
  | nil => rfl
  | cons v vs ih => rw [variablesToJson, ih, List.map_cons, Variable.toJson]

theorem Variable.jsonFields_eq (declared : Variable) :
    declared.jsonFields = [
      ("id", .integer declared.id),
      ("name", .string declared.name),
      ("constant", .bool declared.constant),
      ("mutability", optionToJson (.string ·.text) declared.mutability),
      ("src", .string declared.src),
      ("typeName", optionToJson TypeName.toJson declared.typeName),
      ("typeDescriptions", declared.descriptions.toJson)] := by
  obtain ⟨id, name, constant, mutability, src, _ | typeName, descriptions⟩ := declared <;> rfl

/-- The type name of a variable lies deeper within what is written than the variable. -/
theorem Variable.levels_lt {declared : Variable} {name : TypeName}
    (h : declared.typeName = some name) :
    name.toJson.draft.levels < declared.toJson.draft.levels := by
  have hmem : ("typeName", name.toJson) ∈ declared.jsonFields := by
    rw [declared.jsonFields_eq, h]
    exact List.mem_of_getElem? (i := 5) rfl
  exact Json.levels_lt_of_mem_fields hmem

/-- The parameters or the results of a function, as they are written. -/
def parametersToJson (vs : List Variable) : Json :=
  .object [("parameters", .array (variablesToJson vs))]

theorem levels_lt_parametersToJson {vs : List Variable} {v : Variable} (h : v ∈ vs) :
    v.toJson.draft.levels < (parametersToJson vs).draft.levels := by
  have hitem : v.toJson ∈ variablesToJson vs := by
    rw [variablesToJson_eq_map]
    exact List.mem_map_of_mem h
  exact Nat.lt_trans (Json.levels_lt_of_mem_items hitem)
    (Json.levels_lt_of_mem_fields List.mem_cons_self)

theorem TypeName.levels_lt_of_mem_children {name inner : TypeName} (h : inner ∈ name.children) :
    inner.toJson.draft.levels < name.toJson.draft.levels := by
  cases name with
  | elementary => cases h
  | userDefined => cases h
  | array base =>
    rw [List.mem_singleton.1 h]
    exact Json.levels_lt_of_mem_fields (List.mem_cons_of_mem _ List.mem_cons_self)
  | mapping key value =>
    rcases List.mem_cons.1 h with rfl | h
    · exact Json.levels_lt_of_mem_fields (List.mem_cons_of_mem _ List.mem_cons_self)
    · rw [List.mem_singleton.1 h]
      exact Json.levels_lt_of_mem_fields
        (List.mem_cons_of_mem _ (List.mem_cons_of_mem _ List.mem_cons_self))
  | function parameters returns descriptions =>
    obtain ⟨v, hv, hname⟩ := List.mem_filterMap.1 h
    have hinner := Variable.levels_lt hname
    rcases List.mem_append.1 hv with hv | hv
    · have hlist : (parametersToJson parameters).draft.levels <
          (function parameters returns descriptions).toJson.draft.levels :=
        Json.levels_lt_of_mem_fields (List.mem_cons_of_mem _ List.mem_cons_self)
      exact Nat.lt_trans (Nat.lt_trans hinner (levels_lt_parametersToJson hv)) hlist
    · have hlist : (parametersToJson returns).draft.levels <
          (function parameters returns descriptions).toJson.draft.levels :=
        Json.levels_lt_of_mem_fields
          (List.mem_cons_of_mem _ (List.mem_cons_of_mem _ List.mem_cons_self))
      exact Nat.lt_trans (Nat.lt_trans hinner (levels_lt_parametersToJson hv)) hlist

/-! ## Reading type names and variables -/

section

variable {α : Type} {n : Nat}

/-- An absent value is written as `null`, and `null` is read as one. -/
theorem takes_optionToJson {value : Reader α} {write : α → Json} {a? : Option α}
    (h : ∀ a, a? = some a → value.Takes n (write a) a ∧ (write a).draft ≠ .null) :
    (Reader.nullable value).Takes n (optionToJson write a?) a? := by
  cases a? with
  | none => exact Reader.takes_null value n
  | some a =>
    obtain ⟨htakes, hnull⟩ := h a rfl
    exact htakes.nullable hnull

theorem takes_optionalText (n : Nat) (text? : Option String) :
    (Reader.nullable .string).Takes n (optionToJson .string text?) text? := by
  apply takes_optionToJson
  intro text _
  exact ⟨Reader.takes_string n text, nofun⟩

theorem TypeDescriptions.takes (descriptions : TypeDescriptions) :
    TypeDescriptions.reader.Takes 1 descriptions.toJson descriptions := by
  have hnames : ["typeIdentifier", "typeString"].Nodup := by decide
  have hid := takes_optionalText 0 descriptions.typeIdentifier
  have hstring := takes_optionalText 0 descriptions.typeString
  exact Reader.takes_record (((FieldReader.takes_field rfl hid).map mk).seq
    (FieldReader.takes_field rfl hstring)) hnames

theorem Mutability.takes (n : Nat) (mutability : Mutability) :
    Mutability.reader.Takes n (.string mutability.text) mutability := by
  apply Reader.takes_choice
  cases mutability <;> rfl

theorem TypeName.draft_ne_null (name : TypeName) : name.toJson.draft ≠ .null := by
  cases name <;> nofun

theorem TypeName.levels_pos (name : TypeName) : 1 ≤ name.toJson.draft.levels := by
  cases name <;> exact Nat.le_add_right 1 _

theorem Variable.nodup_jsonFields (declared : Variable) :
    (kindField :: declared.jsonFields.map (·.1)).Nodup := by
  have hnames : [kindField, "id", "name", "constant", "mutability", "src", "typeName",
      "typeDescriptions"].Nodup := by decide
  rw [declared.jsonFields_eq]
  exact hnames

/-- A variable is written with its descriptions, so at least two containers lie in each other. -/
theorem Variable.one_lt_levels (declared : Variable) : 1 < declared.toJson.draft.levels := by
  have hmem : ("typeDescriptions", declared.descriptions.toJson) ∈ declared.jsonFields := by
    rw [declared.jsonFields_eq]
    exact List.mem_of_getElem? (i := 6) rfl
  have hdescriptions : 1 ≤ declared.descriptions.toJson.draft.levels := Nat.le_add_right 1 _
  exact Nat.lt_of_le_of_lt hdescriptions (Json.levels_lt_of_mem_fields hmem)

/-- A variable is read from any fields among which its own are, with those that tell its kind. -/
theorem Variable.takes_fieldsWith {typeName : Reader TypeName} {declared : Variable}
    {given : List (String × Json)}
    (hgiven : ∀ name, name ≠ kindField → given.lookup name = declared.jsonFields.lookup name)
    (hid : FitsInt64 declared.id)
    (hname : ∀ name, declared.typeName = some name → typeName.Takes n name.toJson name)
    (hn : 1 ≤ n) : (fieldsWith typeName).Takes n given declared := by
  rw [declared.jsonFields_eq] at hgiven
  obtain ⟨id, label, constant, mutability, src, name?, descriptions⟩ := declared
  have hlabel := Reader.takes_string n label
  have hconstant := Reader.takes_bool n constant
  have hmutability : (Reader.nullable Mutability.reader).Takes n
      (optionToJson (.string ·.text) mutability) mutability := by
    apply takes_optionToJson
    intro mutability _
    exact ⟨mutability.takes n, nofun⟩
  have hsrc := Reader.takes_string n src
  have hname : (Reader.nullable typeName).Takes n (optionToJson TypeName.toJson name?) name? := by
    apply takes_optionToJson
    intro name heq
    exact ⟨hname name heq, name.draft_ne_null⟩
  have hdescriptions := descriptions.takes.mono hn
  exact (((((((FieldReader.takes_field (hgiven "id" (by decide)) (Reader.takes_int64 n hid)).map
    mk).seq (FieldReader.takes_field (hgiven "name" (by decide)) hlabel)).seq
    (FieldReader.takes_field (hgiven "constant" (by decide)) hconstant)).seq
    (FieldReader.takes_field (hgiven "mutability" (by decide)) hmutability)).seq
    (FieldReader.takes_field (hgiven "src" (by decide)) hsrc)).seq
    (FieldReader.takes_field (hgiven "typeName" (by decide)) hname)).seq
    (FieldReader.takes_field (hgiven "typeDescriptions" (by decide)) hdescriptions)

/-- The parameters or the results of a function. -/
theorem takes_parametersWith {typeName : Reader TypeName} {vs : List Variable}
    (h : ∀ v ∈ vs, FitsInt64 v.id ∧
      ∀ name, v.typeName = some name → typeName.Takes n name.toJson name)
    (hn : 1 ≤ n) :
    (TypeName.parametersWith typeName).Takes (n + 3) (parametersToJson vs) vs := by
  have hnames : ["parameters"].Nodup := by decide
  have hlist : (Reader.list (.record (Variable.fieldsWith typeName))).Takes (n + 2)
      (.array (vs.map Variable.toJson)) vs := by
    apply Reader.takes_list
    intro v hv
    exact Reader.takes_record (Variable.takes_fieldsWith (fun _ _ => rfl) (h v hv).1 (h v hv).2 hn)
      (List.nodup_cons.1 v.nodup_jsonFields).2
  unfold parametersToJson
  rw [variablesToJson_eq_map]
  exact Reader.takes_record (FieldReader.takes_field rfl hlist) hnames

end

theorem TypeName.recovers_readAt (name : TypeName) (hids : ∀ id ∈ name.ids, FitsInt64 id)
    {fuel : Nat} (hfuel : name.toJson.draft.levels ≤ fuel) :
    (readAt fuel).Recovers name.toJson name := by
  induction name using induction_children generalizing fuel with
  | step name ih =>
    cases fuel with
    | zero =>
      have hpos := name.levels_pos
      omega
    | succ fuel =>
      -- Whatever lies within the name is read with one level less, which is enough for it.
      have hinner : ∀ inner ∈ name.children,
          (readAt fuel).Takes name.toJson.draft.levels inner.toJson inner := by
        intro inner hmem
        have hlt := levels_lt_of_mem_children hmem
        have hids' : ∀ id ∈ inner.ids, FitsInt64 id := fun id hid =>
          hids id (ids_subset_of_mem_children hmem hid)
        exact (ih inner hmem hids' (by omega)).mono (Nat.le_of_lt hlt)
      have hone := name.levels_pos
      cases name with
      | elementary descriptions =>
        have hnames : [kindField, "typeDescriptions"].Nodup := by decide
        exact Reader.recovers_tagged rfl
          ((FieldReader.takes_field rfl descriptions.takes).map elementary) hnames
      | userDefined declaration descriptions =>
        have hnames : [kindField, "referencedDeclaration", "typeDescriptions"].Nodup := by decide
        have hid := Reader.takes_int64 1 (hids declaration List.mem_cons_self)
        exact Reader.recovers_tagged rfl (((FieldReader.takes_field rfl hid).map userDefined).seq
          (FieldReader.takes_field rfl descriptions.takes)) hnames
      | array base descriptions =>
        have hnames : [kindField, "baseType", "typeDescriptions"].Nodup := by decide
        have hbase := hinner base List.mem_cons_self
        exact Reader.recovers_tagged rfl (((FieldReader.takes_field rfl hbase).map array).seq
          (FieldReader.takes_field rfl (descriptions.takes.mono hone))) hnames
      | mapping key value descriptions =>
        have hnames : [kindField, "keyType", "valueType", "typeDescriptions"].Nodup := by decide
        have hkey := hinner key List.mem_cons_self
        have hvalue := hinner value (List.mem_cons_of_mem key List.mem_cons_self)
        exact Reader.recovers_tagged rfl ((((FieldReader.takes_field rfl hkey).map mapping).seq
          (FieldReader.takes_field rfl hvalue)).seq
          (FieldReader.takes_field rfl (descriptions.takes.mono hone))) hnames
      | function parameters returns descriptions =>
        have hnames : [kindField, "parameterTypes", "returnParameterTypes",
          "typeDescriptions"].Nodup := by decide
        have hvariables := forall_parameter hids hinner
        have hparameters := takes_parametersWith
          (fun v hv => hvariables v (List.mem_append_left returns hv)) hone
        have hreturns := takes_parametersWith
          (fun v hv => hvariables v (List.mem_append_right parameters hv)) hone
        have hdescriptions := descriptions.takes.mono (Nat.le_trans hone (Nat.le_add_right _ 3))
        exact Reader.recovers_tagged rfl
          ((((FieldReader.takes_field rfl hparameters).map function).seq
            (FieldReader.takes_field rfl hreturns)).seq
            (FieldReader.takes_field rfl hdescriptions)) hnames

theorem TypeName.recovers (name : TypeName) (hids : ∀ id ∈ name.ids, FitsInt64 id) :
    reader.Recovers name.toJson name :=
  fun setting hallows => name.recovers_readAt hids (Nat.le_refl _) setting hallows

/-! ## Reading declarations -/

namespace Variable

variable {declared : Variable} {n : Nat}

theorem takes_fields {given : List (String × Json)}
    (hgiven : ∀ name, name ≠ kindField → given.lookup name = declared.jsonFields.lookup name)
    (hids : ∀ id ∈ declared.ids, FitsInt64 id) (hn : declared.toJson.draft.levels ≤ n + 1) :
    fields.Takes n given declared := by
  have hname : ∀ name, declared.typeName = some name →
      TypeName.reader.Takes n name.toJson name := by
    intro name hname
    have hlt := levels_lt hname
    exact (name.recovers fun id hid => hids id (ids_subset hname hid)).mono (by omega)
  have hlevels := declared.one_lt_levels
  exact takes_fieldsWith hgiven (hids declared.id declared.id_mem_ids) hname (by omega)

theorem recovers (hids : ∀ id ∈ declared.ids, FitsInt64 id) :
    reader.Recovers declared.toJson declared := by
  apply Reader.recovers_record
  · apply takes_fields (fun _ _ => rfl) hids
    exact Nat.le_of_eq (Json.levels_object _)
  · exact (List.nodup_cons.1 declared.nodup_jsonFields).2

end Variable

theorem StructDefinition.takes_fields {definition : StructDefinition} (kind : String)
    (hids : ∀ id ∈ definition.ids, FitsInt64 id) :
    fields.Takes (Json.array (definition.members.map Variable.toJson)).draft.levels
      ((kindField, .string kind) :: definition.jsonFields) definition := by
  have hid := hids definition.id List.mem_cons_self
  have hmembers : (Reader.list Variable.reader).Recovers
      (.array (definition.members.map Variable.toJson)) definition.members := by
    apply Reader.recovers_list
    intro v hv
    apply Variable.recovers
    intro id hmem
    exact hids id (ids_subset hv hmem)
  exact (((FieldReader.takes_field rfl (Reader.takes_int64 _ hid)).map mk).seq
    (FieldReader.takes_field rfl (Reader.takes_string _ definition.name))).seq
    (FieldReader.takes_field rfl hmembers)

theorem EnumDefinition.takes_fields {definition : EnumDefinition} (kind : String)
    (hid : FitsInt64 definition.id) :
    fields.Takes 2 ((kindField, .string kind) :: definition.jsonFields) definition := by
  have hnames : ["name"].Nodup := by decide
  have hmembers : (Reader.list (.record (.required "name" .string))).Takes 2
      (.array (definition.members.map fun name => .object [("name", .string name)]))
      definition.members := by
    apply Reader.takes_list
    intro name _
    exact Reader.takes_record (FieldReader.takes_field rfl (Reader.takes_string 0 name)) hnames
  exact (((FieldReader.takes_field rfl (Reader.takes_int64 2 hid)).map mk).seq
    (FieldReader.takes_field rfl (Reader.takes_string 2 definition.name))).seq
    (FieldReader.takes_field rfl hmembers)

theorem nodup_definitionFields : [kindField, "id", "name", "members"].Nodup := by
  decide

theorem ContractNode.recovers (part : ContractNode) (hids : ∀ id ∈ part.ids, FitsInt64 id) :
    reader.Recovers part.toJson part := by
  cases part with
  | stateVariable declared =>
    have hfields : Variable.fields.Takes declared.toJson.draft.levels
        ((kindField, .string "VariableDeclaration") :: declared.jsonFields) declared := by
      apply Variable.takes_fields _ hids (Nat.le_succ _)
      intro name hname
      rw [List.lookup_cons, beq_false_of_ne hname]
    exact Reader.recovers_tagged rfl (hfields.map stateVariable) declared.nodup_jsonFields
  | struct definition =>
    exact Reader.recovers_tagged rfl ((StructDefinition.takes_fields _ hids).map struct)
      nodup_definitionFields
  | enum definition =>
    have hid := hids definition.id List.mem_cons_self
    exact Reader.recovers_tagged rfl ((EnumDefinition.takes_fields _ hid).map enum)
      nodup_definitionFields
  | other =>
    have hother : (pure other : FieldReader ContractNode).Takes 0
        [(kindField, .string "Other")] other := fun _ _ _ => rfl
    exact Reader.recovers_tagged rfl hother (List.nodup_cons.2 ⟨List.not_mem_nil, .nil⟩)

theorem ContractDefinition.takes_fields {contract : ContractDefinition} (kind : String)
    (hids : ∀ id ∈ contract.ids, FitsInt64 id) :
    fields.Takes (Json.array (contract.nodes.map ContractNode.toJson)).draft.levels
      ((kindField, .string kind) :: contract.jsonFields) contract := by
  have hid := hids contract.id List.mem_cons_self
  have hnodes : (Reader.list ContractNode.reader).Recovers
      (.array (contract.nodes.map ContractNode.toJson)) contract.nodes := by
    apply Reader.recovers_list
    intro part hpart
    apply ContractNode.recovers
    intro id hmem
    exact hids id (ids_subset hpart hmem)
  exact (((FieldReader.takes_field rfl (Reader.takes_int64 _ hid)).map mk).seq
    (FieldReader.takes_field rfl (Reader.takes_string _ contract.name))).seq
    (FieldReader.takes_field rfl hnodes)

theorem UnitNode.recovers (part : UnitNode) (hids : ∀ id ∈ part.ids, FitsInt64 id) :
    reader.Recovers part.toJson part := by
  cases part with
  | contract definition =>
    have hnames : [kindField, "id", "name", "nodes"].Nodup := by decide
    exact Reader.recovers_tagged rfl ((ContractDefinition.takes_fields _ hids).map contract) hnames
  | struct definition =>
    exact Reader.recovers_tagged rfl ((StructDefinition.takes_fields _ hids).map struct)
      nodup_definitionFields
  | enum definition =>
    have hid := hids definition.id List.mem_cons_self
    exact Reader.recovers_tagged rfl ((EnumDefinition.takes_fields _ hid).map enum)
      nodup_definitionFields
  | other =>
    have hother : (pure other : FieldReader UnitNode).Takes 0
        [(kindField, .string "Other")] other := fun _ _ _ => rfl
    exact Reader.recovers_tagged rfl hother (List.nodup_cons.2 ⟨List.not_mem_nil, .nil⟩)

theorem SourceUnit.recovers (unit : SourceUnit) (hids : ∀ id ∈ unit.ids, FitsInt64 id) :
    reader.Recovers unit.toJson unit := by
  have hnames : ["id", "absolutePath", "nodes"].Nodup := by decide
  have hid := hids unit.id List.mem_cons_self
  have hnodes : (Reader.list UnitNode.reader).Recovers
      (.array (unit.nodes.map UnitNode.toJson)) unit.nodes := by
    apply Reader.recovers_list
    intro part hpart
    apply UnitNode.recovers
    intro id hmem
    exact hids id (ids_subset hpart hmem)
  have hlevels : (Json.array (unit.nodes.map UnitNode.toJson)).draft.levels <
      unit.toJson.draft.levels :=
    Json.levels_lt_of_mem_fields (List.mem_of_getElem? (i := 2) rfl)
  unfold toJson at hlevels
  rw [Json.levels_object] at hlevels
  have hnodes := hnodes.mono (Nat.le_of_lt_succ hlevels)
  apply Reader.recovers_record
  · exact (((FieldReader.takes_field rfl (Reader.takes_int64 _ hid)).map mk).seq
      (FieldReader.takes_field rfl (Reader.takes_string _ unit.absolutePath))).seq
      (FieldReader.takes_field rfl hnodes)
  · exact hnames

/-! ## Plain values -/

theorem isPlain_integer {number : Int} (h : FitsInt64 number) :
    (Json.integer number).isPlain = true := by
  have hbound : Int.pow 2 63 = 9223372036854775808 := rfl
  obtain ⟨hlow, hhigh⟩ := h
  rw [hbound] at hlow hhigh
  show decide (number.natAbs < Nat.pow 2 64) = true
  apply decide_eq_true
  show number.natAbs < 18446744073709551616
  omega

@[simp]
theorem isPlain_string (text : String) : (Json.string text).isPlain = true := rfl

theorem isPlain_node {kind : String} {fields : List (String × Json)}
    (h : ∀ field ∈ fields, field.2.isPlain = true) : (node kind fields).isPlain = true := by
  apply Json.isPlain_object
  rw [List.forall_mem_cons]
  exact ⟨isPlain_string kind, h⟩

theorem isPlain_optionalText (text? : Option String) :
    (optionToJson .string text?).isPlain = true := by
  cases text? <;> rfl

@[simp]
theorem TypeDescriptions.isPlain_toJson (descriptions : TypeDescriptions) :
    descriptions.toJson.isPlain = true := by
  apply Json.isPlain_object
  simp [isPlain_optionalText]

theorem Variable.isPlain_jsonFields {declared : Variable} (hid : FitsInt64 declared.id)
    (hname : ∀ name, declared.typeName = some name → name.toJson.isPlain = true) :
    ∀ field ∈ declared.jsonFields, field.2.isPlain = true := by
  have hmutability : (optionToJson (fun mutability => Json.string mutability.text)
      declared.mutability).isPlain = true := by
    cases declared.mutability <;> rfl
  have hname' : (optionToJson TypeName.toJson declared.typeName).isPlain = true := by
    cases htypeName : declared.typeName with
    | none => rfl
    | some name => exact hname name htypeName
  have hbool : ∀ b, (Json.bool b).isPlain = true := fun _ => rfl
  rw [declared.jsonFields_eq]
  simp [isPlain_integer hid, hmutability, hname', hbool]

theorem isPlain_parametersToJson {vs : List Variable}
    (h : ∀ v ∈ vs, FitsInt64 v.id ∧ ∀ name, v.typeName = some name → name.toJson.isPlain = true) :
    (parametersToJson vs).isPlain = true := by
  have hlist : (Json.array (vs.map Variable.toJson)).isPlain = true := by
    apply Json.isPlain_array
    intro v hv
    exact Json.isPlain_object (Variable.isPlain_jsonFields (h v hv).1 (h v hv).2)
  unfold parametersToJson
  rw [variablesToJson_eq_map]
  apply Json.isPlain_object
  simp [hlist]

theorem TypeName.isPlain_toJson (name : TypeName) (hids : ∀ id ∈ name.ids, FitsInt64 id) :
    name.toJson.isPlain = true := by
  induction name using induction_children with
  | step name ih =>
    have hinner : ∀ inner ∈ name.children, inner.toJson.isPlain = true := fun inner hmem =>
      ih inner hmem fun id hid => hids id (ids_subset_of_mem_children hmem hid)
    cases name with
    | elementary descriptions =>
      apply isPlain_node
      simp
    | userDefined declaration descriptions =>
      have hdeclaration := isPlain_integer (hids declaration List.mem_cons_self)
      apply isPlain_node
      simp [hdeclaration]
    | array base descriptions =>
      apply isPlain_node
      simp [hinner base List.mem_cons_self]
    | mapping key value descriptions =>
      have hkey := hinner key List.mem_cons_self
      have hvalue := hinner value (List.mem_cons_of_mem key List.mem_cons_self)
      apply isPlain_node
      simp [hkey, hvalue]
    | function parameters returns descriptions =>
      have hvariables := forall_parameter hids hinner
      have hparameters := isPlain_parametersToJson
        fun v hv => hvariables v (List.mem_append_left returns hv)
      have hreturns := isPlain_parametersToJson
        fun v hv => hvariables v (List.mem_append_right parameters hv)
      show (node "FunctionTypeName" [("parameterTypes", parametersToJson parameters),
        ("returnParameterTypes", parametersToJson returns),
        ("typeDescriptions", descriptions.toJson)]).isPlain = true
      apply isPlain_node
      simp [hparameters, hreturns]

theorem Variable.isPlain_fields {declared : Variable} (hids : ∀ id ∈ declared.ids, FitsInt64 id) :
    ∀ field ∈ declared.jsonFields, field.2.isPlain = true := by
  apply isPlain_jsonFields (hids declared.id declared.id_mem_ids)
  intro name hname
  exact name.isPlain_toJson fun id hid => hids id (ids_subset hname hid)

theorem StructDefinition.isPlain_jsonFields {definition : StructDefinition}
    (hids : ∀ id ∈ definition.ids, FitsInt64 id) :
    ∀ field ∈ definition.jsonFields, field.2.isPlain = true := by
  have hid := isPlain_integer (hids definition.id List.mem_cons_self)
  have hmembers : (Json.array (definition.members.map Variable.toJson)).isPlain = true := by
    apply Json.isPlain_array
    intro v hv
    apply Json.isPlain_object
    apply Variable.isPlain_fields
    intro id hmem
    exact hids id (ids_subset hv hmem)
  simp [jsonFields, hid, hmembers]

theorem EnumDefinition.isPlain_jsonFields {definition : EnumDefinition}
    (hid : FitsInt64 definition.id) :
    ∀ field ∈ definition.jsonFields, field.2.isPlain = true := by
  have hmembers : (Json.array (definition.members.map fun name =>
      .object [("name", .string name)])).isPlain = true := Json.isPlain_array fun _ _ => rfl
  simp [jsonFields, isPlain_integer hid, hmembers]

theorem ContractNode.isPlain_toJson (part : ContractNode) (hids : ∀ id ∈ part.ids, FitsInt64 id) :
    part.toJson.isPlain = true := by
  cases part with
  | stateVariable declared => exact isPlain_node (Variable.isPlain_fields hids)
  | struct definition => exact isPlain_node (StructDefinition.isPlain_jsonFields hids)
  | enum definition =>
    exact isPlain_node (EnumDefinition.isPlain_jsonFields (hids definition.id List.mem_cons_self))
  | other => rfl

theorem ContractDefinition.isPlain_jsonFields {contract : ContractDefinition}
    (hids : ∀ id ∈ contract.ids, FitsInt64 id) :
    ∀ field ∈ contract.jsonFields, field.2.isPlain = true := by
  have hid := isPlain_integer (hids contract.id List.mem_cons_self)
  have hnodes : (Json.array (contract.nodes.map ContractNode.toJson)).isPlain = true := by
    apply Json.isPlain_array
    intro part hpart
    apply ContractNode.isPlain_toJson
    intro id hmem
    exact hids id (ids_subset hpart hmem)
  simp [jsonFields, hid, hnodes]

theorem UnitNode.isPlain_toJson (part : UnitNode) (hids : ∀ id ∈ part.ids, FitsInt64 id) :
    part.toJson.isPlain = true := by
  cases part with
  | contract definition => exact isPlain_node (ContractDefinition.isPlain_jsonFields hids)
  | struct definition => exact isPlain_node (StructDefinition.isPlain_jsonFields hids)
  | enum definition =>
    exact isPlain_node (EnumDefinition.isPlain_jsonFields (hids definition.id List.mem_cons_self))
  | other => rfl

theorem SourceUnit.isPlain_toJson (unit : SourceUnit) (hids : ∀ id ∈ unit.ids, FitsInt64 id) :
    unit.toJson.isPlain = true := by
  have hid := isPlain_integer (hids unit.id List.mem_cons_self)
  have hnodes : (Json.array (unit.nodes.map UnitNode.toJson)).isPlain = true := by
    apply Json.isPlain_array
    intro part hpart
    apply UnitNode.isPlain_toJson
    intro id hmem
    exact hids id (ids_subset hpart hmem)
  apply Json.isPlain_object
  simp [hid, hnodes]

/-! ## Source units -/

/-- A source unit is read back from its document, however the document is laid out, if its numbers
fit into 64 bits and no more containers lie within each other than a document may have. -/
theorem SourceUnit.ofDocument_write (unit : SourceUnit) (style : Json.Style)
    (hids : ∀ id ∈ unit.ids, FitsInt64 id)
    (hlevels : unit.toJson.draft.levels ≤ Json.documentLevels) :
    ofDocument (String.ofList (unit.toJson.write style 0 [])) = .ok unit := by
  unfold ofDocument
  rw [Json.readDocument_write reader style (unit.isPlain_toJson hids)]
  exact unit.recovers hids (.passing Json.documentLevels) hlevels

/-- A unit with nodes of every kind, and a variable with type names of every kind. -/
def registryUnit : SourceUnit :=
  let words : TypeName := .elementary ⟨some "t_uint256", some "uint256"⟩
  let plan : TypeName := .userDefined 4 ⟨some "t_struct$_Plan_$4_storage_ptr", none⟩
  let parameter : Variable := ⟨9, "", false, some .mutable, "90:7:0", some plan, ⟨none, none⟩⟩
  let result : Variable := ⟨-10, "é\n", true, none, "", none, ⟨none, some "uint256"⟩⟩
  let hook : TypeName := .function [parameter] [result] ⟨none, some "function (struct Plan)"⟩
  let hooks : TypeName := .mapping words (.array hook ⟨none, none⟩) ⟨some "", some "mapping"⟩
  ⟨Int.pow 2 63 - 1, "Registry.sol", [
    .other,
    .struct ⟨4, "Plan", [⟨3, "size", false, some .immutable, "", some words, ⟨none, none⟩⟩]⟩,
    .enum ⟨6, "Stage", ["Open", "Closed"]⟩,
    .contract ⟨20, "Registry", [
      .enum ⟨8, "Mode", []⟩,
      .stateVariable ⟨12, "hooks", false, some .constant, "120:9:0", some hooks, ⟨none, none⟩⟩,
      .other]⟩]⟩

theorem SourceUnit.ofDocument_write_registry :
    (∀ id ∈ registryUnit.ids, FitsInt64 id) ∧
      registryUnit.toJson.draft.levels ≤ Json.documentLevels ∧
      ofDocument (String.ofList (registryUnit.toJson.write .compact 0 [])) = .ok registryUnit := by
  have hids : ∀ id ∈ registryUnit.ids, FitsInt64 id := by decide +kernel
  have hlevels : registryUnit.toJson.draft.levels ≤ Json.documentLevels := by decide +kernel
  exact ⟨hids, hlevels, registryUnit.ofDocument_write .compact hids hlevels⟩

end StorageUpgrade.Source
