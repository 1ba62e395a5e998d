import Mathlib.Data.List.Forall2
import StorageUpgrade.Proofs.DictionaryClosure

/-!
# Declarations that say enough

Extraction asks for little: identifiers that can be read, a text to show, a declaration behind a
reference to a struct or an enum. It succeeds if all that is reached has these. Where it succeeds,
they were there for the type names that entries were made of; nobody asked the others.
-/

namespace StorageUpgrade

namespace Source

/-- A declaration that has a type name, and an identifier that can be read. -/
structure Variable.Typed (declared : Variable) : Prop where
  typeId : declared.typeId?.isSome = true
  named : declared.typeName.isSome = true

theorem Variable.Consistent.typed {declared : Variable} (h : declared.Consistent) :
    declared.Typed := by
  obtain ⟨name, id, hname, hid, -⟩ := h
  exact ⟨by rw [hid]; rfl, by rw [hname]; rfl⟩

end Source

namespace Extraction

open Source (ContractDefinition Declaration DeclarationIndex Locator TypeName Variable)

/-- A type name that lacks nothing an entry is made of. -/
structure Complete (index : DeclarationIndex) (name : TypeName) : Prop where
  typeId : name.typeId?.isSome = true
  label : name.descriptions.typeString.isSome = true
  /-- A reference to a struct or an enum leads to one. -/
  found : ∀ id ∈ name.typeId?, ∀ declaration ∈ name.declaration?, isStructOrEnum id = true →
    (index.declaration? [.struct, .enum] declaration).isSome = true
  fields : ∀ field ∈ fieldsOf index name, field.Typed

/-- A contract that lacks nothing its layout is made of. -/
structure Extractable (index : DeclarationIndex) (contract : ContractDefinition) : Prop where
  stored : ∀ declared ∈ storedVariables contract, declared.Typed
  reached : ∀ name, Reached index contract name → Complete index name

section

variable {index : DeclarationIndex} {contract : ContractDefinition} {name : TypeName}
  {work work' : Worklist} {layout layout' : Layout} {owner id : String}

theorem fieldsOf_of_memberDeclaration? {declaration : Declaration} (hid : name.typeId? = some id)
    (h : memberDeclaration? index id name = some declaration) :
    fieldsOf index name = declaration.fields := by
  rw [fieldsOf, hid, Option.bind_some, h]
  rfl

/-! ## What waits has been reached -/

/-- Recording a type name that is reached queues only type names that are. -/
theorem reached_of_record (hname : Reached index contract name)
    (hqueue : ∀ item ∈ work.queue, Reached index contract item.2)
    (h : record index work owner name layout = .ok (layout', work')) :
    ∀ item ∈ work'.queue, Reached index contract item.2 := by
  obtain ⟨id, -, ⟨-, -, rfl⟩ | ⟨entry, -, -, -, hgrows⟩⟩ := record_spec h
  · exact hqueue
  · obtain ⟨added, hadded, hnames⟩ := hgrows.queue
    intro item hitem
    rw [hadded, List.mem_append] at hitem
    rcases hitem with hold | hnew
    · exact hqueue item hold
    · exact .field hname (hnames item hnew)

theorem reached_of_stored (index : DeclarationIndex) {declared : Variable} {root : TypeName}
    (hdeclared : declared ∈ storedVariables contract) (hroot : declared.typeName = some root) :
    ∀ name ∈ root.descendants, Reached index contract name :=
  fun _ hname => .stored (mem_namesIn_iff.2 ⟨declared, hdeclared, root, hroot, hname⟩)

/-- At the outset only the type names in the declaration of the variable wait. -/
theorem reached_of_pushAll {index' : DeclarationIndex} {root : TypeName}
    (hroot : ∀ name ∈ root.descendants, Reached index contract name)
    (h : (workFor index' root).pushAll owner root.descendants = .ok work) :
    ∀ item ∈ work.queue, Reached index contract item.2 := by
  obtain ⟨added, hadded, hnames⟩ := (Worklist.grows_of_pushAll h).queue
  intro item hitem
  rw [hadded] at hitem
  exact hroot item.2 (hnames item hitem)

/-! ## Steps that succeed -/

/-- How a step reads the identifier of a type name. -/
theorem exists_rawId (owner : String) (h : name.typeId? = some id) :
    ∃ raw, rawIdOf owner name = .ok raw ∧
      (Identifier.normalize raw).mapError ExtractionError.identifier = .ok id := by
  obtain ⟨raw, hraw, hnormalize⟩ := Source.TypeDescriptions.typeId?_eq_some_iff.1 h
  exact ⟨raw, rawIdOf_eq_ok_iff.2 hraw, by rw [hnormalize]; rfl⟩

theorem exists_push (work : Worklist) (owner : String) (h : name.typeId?.isSome = true) :
    ∃ work', work.push owner name = .ok work' := by
  obtain ⟨id, hid⟩ := Option.isSome_iff_exists.1 h
  obtain ⟨raw, hrawId, -⟩ := exists_rawId owner hid
  unfold Worklist.push
  rw [hrawId]
  exact ⟨_, rfl⟩

theorem exists_pushAll (work : Worklist) (owner : String) {names : List TypeName}
    (h : ∀ name ∈ names, name.typeId?.isSome = true) :
    ∃ work', work.pushAll owner names = .ok work' := by
  induction names generalizing work with
  | nil => exact ⟨work, rfl⟩
  | cons name names ih =>
    rw [List.forall_mem_cons] at h
    obtain ⟨next, hpush⟩ := exists_push work owner h.1
    obtain ⟨work', hpushAll⟩ := ih next h.2
    refine ⟨work', ?_⟩
    unfold Worklist.pushAll
    rw [hpush]
    exact hpushAll

theorem exists_declared {declared : Variable} (h : declared.Typed) :
    ∃ id root, typeIdOf declared = .ok id ∧ typeNameOf declared = .ok root ∧
      declared.typeName = some root := by
  obtain ⟨id, hid⟩ := Option.isSome_iff_exists.1 h.typeId
  obtain ⟨root, hroot⟩ := Option.isSome_iff_exists.1 h.named
  exact ⟨id, root, typeIdOf_eq_ok_iff.2 hid, typeNameOf_eq_ok_iff.2 hroot, hroot⟩

theorem exists_readFields (work : Worklist) {fields : List Variable}
    (h : ∀ field ∈ fields, field.Typed)
    (hnames : ∀ name ∈ namesIn fields, name.typeId?.isSome = true) :
    ∃ members work', readFields work fields = .ok (members, work') := by
  induction fields generalizing work with
  | nil => exact ⟨[], work, rfl⟩
  | cons field fields ih =>
    rw [List.forall_mem_cons] at h
    obtain ⟨id, root, hid, hroot, hfield⟩ := exists_declared h.1
    have hsplit : namesIn (field :: fields) = root.descendants ++ namesIn fields := by
      simp [namesIn, hfield]
    rw [hsplit, List.forall_mem_append] at hnames
    obtain ⟨next, hpush⟩ := exists_pushAll work field.name hnames.1
    obtain ⟨members, work', hrest⟩ := ih next h.2 hnames.2
    refine ⟨⟨field.name, id⟩ :: members, work', ?_⟩
    unfold readFields
    rw [hid, ok_bind, hroot, ok_bind, hpush, ok_bind, hrest]
    rfl

theorem exists_readMembers (work : Worklist) (owner : String) (h : Complete index name)
    (hnames : ∀ sub ∈ namesIn (fieldsOf index name), sub.typeId?.isSome = true)
    (hid : name.typeId? = some id) :
    ∃ members work', readMembers index work owner id name = .ok (members, work') := by
  unfold readMembers
  split
  next => exact ⟨none, work, rfl⟩
  next declaration hdeclaration =>
    split
    next hkind =>
      have hfound := h.found id hid declaration hdeclaration hkind
      split
      next hnone =>
        rw [hnone] at hfound
        cases hfound
      next definition hsome =>
        have hmember : memberDeclaration? index id name = some (.struct definition) := by
          simp only [memberDeclaration?, hdeclaration, if_pos hkind, hsome]
        have hfields := h.fields
        rw [fieldsOf_of_memberDeclaration? hid hmember] at hnames hfields
        obtain ⟨members, work', hread⟩ := exists_readFields work hfields hnames
        refine ⟨some (.struct members), work', ?_⟩
        change readFields work definition.members = .ok (members, work') at hread
        rw [hread]
        rfl
      next definition hsome => exact ⟨some (.enum definition.members), work, rfl⟩
    next => exact ⟨none, work, rfl⟩

theorem exists_record (work : Worklist) (owner : String) (layout : Layout)
    (h : Complete index name)
    (hnames : ∀ sub ∈ namesIn (fieldsOf index name), sub.typeId?.isSome = true) :
    ∃ layout' work', record index work owner name layout = .ok (layout', work') := by
  obtain ⟨id, hid⟩ := Option.isSome_iff_exists.1 h.typeId
  obtain ⟨raw, hrawId, hread⟩ := exists_rawId owner hid
  obtain ⟨label, hlabel⟩ := Option.isSome_iff_exists.1 h.label
  obtain ⟨members, work', hmembers⟩ := exists_readMembers work owner h hnames hid
  have hlabelOf : labelOf owner name = .ok label := labelOf_eq_ok_iff.2 hlabel
  unfold record
  rw [hrawId, ok_bind, hread, ok_bind]
  split
  next => exact ⟨layout, work, rfl⟩
  next =>
    rw [hlabelOf, ok_bind, hmembers]
    exact ⟨_, work', rfl⟩

theorem exists_recordAll (h : Extractable index contract)
    (hqueue : ∀ item ∈ work.queue, Reached index contract item.2) :
    ∃ layout', recordAll index work layout = .ok layout' := by
  fun_induction recordAll index work layout with
  | case1 work layout => exact ⟨layout, rfl⟩
  | case2 work layout owner name queue hwork cause hstep =>
    rw [hwork, List.forall_mem_cons] at hqueue
    obtain ⟨layout', work', hrecord⟩ := exists_record { work with queue } owner layout
      (h.reached name hqueue.1) fun sub hsub => (h.reached sub (.field hqueue.1 hsub)).typeId
    rw [hstep] at hrecord
    cases hrecord
  | case3 work layout owner name queue hwork layout' work' hstep ih =>
    rw [hwork, List.forall_mem_cons] at hqueue
    exact ih (reached_of_record hqueue.1 hqueue.2 hstep)

theorem exists_addVariable (h : Extractable index contract) (locate : Locator) (layout : Layout)
    {declared : Variable} (hdeclared : declared ∈ storedVariables contract) :
    ∃ layout', addVariable index locate contract.name layout declared = .ok layout' := by
  obtain ⟨id, root, hid, hroot, hname⟩ := exists_declared (h.stored declared hdeclared)
  have hreached := reached_of_stored index hdeclared hname
  obtain ⟨work, hpush⟩ := exists_pushAll (workFor index root) declared.name
    fun name hsub => (h.reached name (hreached name hsub)).typeId
  unfold addVariable
  rw [hid, ok_bind, hroot, ok_bind, hpush, ok_bind]
  exact exists_recordAll h (reached_of_pushAll hreached hpush)

theorem exists_addVariables (h : Extractable index contract) (locate : Locator)
    (layout : Layout) {declared : List Variable} (hdeclared : declared ⊆ storedVariables contract) :
    ∃ layout', addVariables index locate contract.name layout declared = .ok layout' := by
  induction declared generalizing layout with
  | nil => exact ⟨layout, rfl⟩
  | cons first rest ih =>
    rw [List.cons_subset] at hdeclared
    obtain ⟨next, hfirst⟩ := exists_addVariable h locate layout hdeclared.1
    obtain ⟨layout', hrest⟩ := ih next hdeclared.2
    refine ⟨layout', ?_⟩
    unfold addVariables
    rw [hfirst]
    exact hrest

theorem Extractable.exists_layout (h : Extractable index contract) (locate : Locator) :
    ∃ layout, extract index locate contract = .ok layout :=
  exists_addVariables h locate ∅ (List.Subset.refl _)

/-! ## What a success tells -/

/-- The fields of a struct whose members have been read. -/
theorem Describes.typed {entry : TypeEntry} (h : Describes index name id entry) :
    ∀ field ∈ fieldsOf index name, field.Typed := by
  have hmembers := h.members
  intro field hfield
  cases hdeclaration : memberDeclaration? index id name with
  | none =>
    rw [fieldsOf, h.typeId, Option.bind_some, hdeclaration] at hfield
    cases hfield
  | some declaration =>
    rw [hdeclaration] at hmembers
    rw [fieldsOf_of_memberDeclaration? h.typeId hdeclaration] at hfield
    generalize entry.members = members? at hmembers
    cases hmembers with
    | struct hforall =>
      obtain ⟨member, -, hmember⟩ := exists_of_mem_forall₂ hforall.flip hfield
      exact ⟨by rw [hmember.type]; rfl, hmember.named⟩
    | enum definition => cases hfield

theorem found_of_readMembers {members : Option (Members String)}
    (h : readMembers index work owner id name = .ok (members, work')) :
    ∀ declaration ∈ name.declaration?, isStructOrEnum id = true →
      (index.declaration? [.struct, .enum] declaration).isSome = true := by
  intro declaration hdeclaration hkind
  rw [Option.mem_def] at hdeclaration
  simp only [readMembers, hdeclaration, if_pos hkind] at h
  split at h
  next => cases h
  next hsome => rw [hsome]; rfl
  next hsome => rw [hsome]; rfl

/-- A new entry is made of a type name that lacks nothing. -/
theorem complete_of_record (h : record index work owner name layout = .ok (layout', work'))
    (hid : name.typeId? = some id) (hnew : layout.defines id = false) : Complete index name := by
  obtain ⟨raw, hrawId, hread⟩ := exists_rawId owner hid
  have hlayout := record_spec h
  unfold record at h
  rw [hrawId, ok_bind, hread, ok_bind, if_neg (Bool.eq_false_iff.1 hnew)] at h
  obtain ⟨label, hlabel, h⟩ := bind_eq_ok_iff.1 h
  obtain ⟨⟨members, _⟩, hmembers, -⟩ := bind_eq_ok_iff.1 h
  obtain ⟨id', hid', ⟨hold, -, -⟩ | ⟨entry, -, -, hdescribes, -⟩⟩ := hlayout
  · rw [hid] at hid'
    cases hid'
    rw [hnew] at hold
    cases hold
  · refine ⟨by rw [hid]; rfl, ?_, ?_, hdescribes.typed⟩
    · rw [labelOf_eq_ok_iff.1 hlabel]
      rfl
    · intro other hother
      rw [Option.mem_def, hid] at hother
      cases hother
      exact found_of_readMembers hmembers

/-- Every entry is under the identifier of a type name that is reached and lacks nothing. -/
def Founded (index : DeclarationIndex) (contract : ContractDefinition) (layout : Layout) : Prop :=
  ∀ id, layout.defines id = true →
    ∃ name, Reached index contract name ∧ name.typeId? = some id ∧ Complete index name

theorem Founded.record (h : Founded index contract layout) (hname : Reached index contract name)
    (hrecord : record index work owner name layout = .ok (layout', work')) :
    Founded index contract layout' := by
  obtain ⟨id, hid, ⟨-, rfl, -⟩ | ⟨entry, hnew, rfl, -, -⟩⟩ := record_spec hrecord
  · exact h
  · intro id' hdefines
    rcases Layout.defines_define.1 hdefines with hold | rfl
    · exact h id' hold
    · exact ⟨name, hname, hid, complete_of_record hrecord hid hnew⟩

theorem Founded.recordAll (h : Founded index contract layout)
    (hqueue : ∀ item ∈ work.queue, Reached index contract item.2)
    (hrecord : recordAll index work layout = .ok layout') : Founded index contract layout' := by
  fun_induction Extraction.recordAll index work layout with
  | case1 work layout =>
    cases hrecord
    exact h
  | case2 => cases hrecord
  | case3 work layout owner name queue hwork next work' hstep ih =>
    rw [hwork, List.forall_mem_cons] at hqueue
    exact ih (h.record hqueue.1 hstep) (reached_of_record hqueue.1 hqueue.2 hstep) hrecord

theorem Founded.addVariable {locate : Locator} {declared : Variable}
    (h : Founded index contract layout) (hdeclared : declared ∈ storedVariables contract)
    (hadd : addVariable index locate contract.name layout declared = .ok layout') :
    Founded index contract layout' ∧ declared.Typed := by
  obtain ⟨id, htype, hadd⟩ := bind_eq_ok_iff.1 hadd
  obtain ⟨root, hroot, hadd⟩ := bind_eq_ok_iff.1 hadd
  obtain ⟨work, hpush, hrecord⟩ := bind_eq_ok_iff.1 hadd
  rw [typeIdOf_eq_ok_iff] at htype
  rw [typeNameOf_eq_ok_iff] at hroot
  have hentered : Founded index contract (layout.addVariable ⟨contract.name, declared.name, id,
    locate declared⟩) := h
  have hqueue := reached_of_pushAll (reached_of_stored index hdeclared hroot) hpush
  exact ⟨hentered.recordAll hqueue hrecord, by rw [htype]; rfl, by rw [hroot]; rfl⟩

theorem Founded.addVariables {locate : Locator} {declared : List Variable}
    (h : Founded index contract layout) (hdeclared : declared ⊆ storedVariables contract)
    (hadd : addVariables index locate contract.name layout declared = .ok layout') :
    Founded index contract layout' ∧ ∀ v ∈ declared, v.Typed := by
  induction declared generalizing layout with
  | nil =>
    cases hadd
    exact ⟨h, nofun⟩
  | cons first rest ih =>
    obtain ⟨next, hfirst, hrest⟩ := bind_eq_ok_iff.1 hadd
    rw [List.cons_subset] at hdeclared
    obtain ⟨hnext, htyped⟩ := h.addVariable hdeclared.1 hfirst
    obtain ⟨hlayout, hothers⟩ := ih hnext hdeclared.2 hrest
    exact ⟨hlayout, List.forall_mem_cons.2 ⟨htyped, hothers⟩⟩

theorem founded_of_extract {locate : Locator} (h : extract index locate contract = .ok layout) :
    Founded index contract layout ∧ ∀ declared ∈ storedVariables contract, declared.Typed := by
  have hempty : Founded index contract ∅ := nofun
  exact hempty.addVariables (List.Subset.refl _) h

end

end Extraction

end StorageUpgrade
