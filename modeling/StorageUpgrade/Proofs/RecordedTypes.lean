import StorageUpgrade.Proofs.ReachedTypes

/-!
# What recording a type does

One type name is taken from the queue. Unless its identifier is known, an entry is added that says
what the type name and the declaration behind it say, and the names in the fields are queued. These
are facts about steps that succeed; when they do is a matter of its own.
-/

namespace StorageUpgrade.Extraction

open Source (Declaration DeclarationIndex TypeName Variable)

/-! ## Reading declarations -/

theorem typeIdOf_eq_ok_iff {declared : Variable} {id : String} :
    typeIdOf declared = .ok id ↔ declared.typeId? = some id := by
  unfold typeIdOf Variable.typeId? Source.TypeDescriptions.typeId?
  cases declared.descriptions.typeIdentifier with
  | none => simp
  | some raw => cases h : Identifier.normalize raw <;> simp [h, Except.mapError, Except.toOption]

theorem typeNameOf_eq_ok_iff {declared : Variable} {name : TypeName} :
    typeNameOf declared = .ok name ↔ declared.typeName = some name := by
  unfold typeNameOf
  cases declared.typeName <;> simp

theorem rawIdOf_eq_ok_iff {owner raw : String} {name : TypeName} :
    rawIdOf owner name = .ok raw ↔ name.descriptions.typeIdentifier = some raw := by
  unfold rawIdOf
  cases name.descriptions.typeIdentifier <;> simp

theorem labelOf_eq_ok_iff {owner label : String} {name : TypeName} :
    labelOf owner name = .ok label ↔ name.descriptions.typeString = some label := by
  unfold labelOf
  cases name.descriptions.typeString <;> simp

/-! ## Queueing type names -/

/-- How a worklist changes while names are queued. Each of the names has been queued by then, now or
before; what was not, stays fresh. -/
structure Worklist.Grows (work : Worklist) (names : List TypeName) (work' : Worklist) : Prop where
  queue : ∃ added, work'.queue = work.queue ++ added ∧ ∀ item ∈ added, item.2 ∈ names
  fresh : ∀ raw ∈ work.fresh, raw ∈ work'.fresh ∨
    ∃ item ∈ work'.queue, item.2.descriptions.typeIdentifier = some raw
  used : ∀ name ∈ names, ∃ raw, name.descriptions.typeIdentifier = some raw ∧ raw ∉ work'.fresh
  subset : work'.fresh ⊆ work.fresh

namespace Worklist

variable {work work' work'' : Worklist} {names names' : List TypeName} {owner : String}

theorem Grows.refl (work : Worklist) : work.Grows [] work where
  queue := ⟨[], (List.append_nil _).symm, nofun⟩
  fresh _ hraw := .inl hraw
  used := nofun
  subset := List.Subset.refl _

theorem Grows.mem_queue (h : work.Grows names work') {item : String × TypeName}
    (hitem : item ∈ work.queue) : item ∈ work'.queue := by
  obtain ⟨added, hqueue, -⟩ := h.queue
  rw [hqueue]
  exact List.mem_append_left _ hitem

theorem Grows.trans (h : work.Grows names work') (h' : work'.Grows names' work'') :
    work.Grows (names ++ names') work'' where
  queue := by
    obtain ⟨added, hqueue, hadded⟩ := h.queue
    obtain ⟨added', hqueue', hadded'⟩ := h'.queue
    refine ⟨added ++ added', by rw [hqueue', hqueue, List.append_assoc], fun item hitem => ?_⟩
    rcases List.mem_append.1 hitem with hitem | hitem
    · exact List.mem_append_left _ (hadded item hitem)
    · exact List.mem_append_right _ (hadded' item hitem)
  fresh raw hraw := by
    rcases h.fresh raw hraw with hraw | ⟨item, hitem, hid⟩
    · exact h'.fresh raw hraw
    · exact .inr ⟨item, h'.mem_queue hitem, hid⟩
  used name hname := by
    rcases List.mem_append.1 hname with hname | hname
    · obtain ⟨raw, hid, hraw⟩ := h.used name hname
      exact ⟨raw, hid, fun hfresh => hraw (h'.subset hfresh)⟩
    · exact h'.used name hname
  subset := List.Subset.trans h'.subset h.subset

theorem grows_of_push {name : TypeName} (h : work.push owner name = .ok work') :
    work.Grows [name] work' := by
  obtain ⟨raw, hraw, h⟩ := bind_eq_ok_iff.1 h
  have hid := rawIdOf_eq_ok_iff.1 hraw
  cases pure_eq_ok_iff.1 h
  split
  next hfresh =>
    refine ⟨⟨[(owner, name)], rfl, by simp⟩, fun other hother => ?_, ?_, ?_⟩
    · by_cases heq : other = raw
      · exact .inr ⟨(owner, name), by simp, heq ▸ hid⟩
      · exact .inl (mem_without.2 ⟨hother, heq⟩)
    · rintro _ (_ | ⟨_, ⟨⟩⟩)
      exact ⟨raw, hid, fun hmem => (mem_without.1 hmem).2 rfl⟩
    · exact fun other hother => (mem_without.1 hother).1
  next hused =>
    refine ⟨⟨[], (List.append_nil _).symm, nofun⟩, fun _ hother => .inl hother, ?_, fun _ h => h⟩
    rintro _ (_ | ⟨_, ⟨⟩⟩)
    exact ⟨raw, hid, hused⟩

theorem grows_of_pushAll (h : work.pushAll owner names = .ok work') :
    work.Grows names work' := by
  induction names generalizing work with
  | nil =>
    cases h
    exact .refl _
  | cons name names ih =>
    obtain ⟨next, hpush, h⟩ := bind_eq_ok_iff.1 h
    exact (grows_of_push hpush).trans (ih h)

end Worklist

/-! ## Members -/

/-- A member of a struct and the declaration of the field that it is. -/
structure MemberOf (field : Variable) (member : Member String) : Prop where
  label : member.label = field.name
  type : field.typeId? = some member.type
  named : field.typeName.isSome = true

/-- The members that a type has from the declaration behind it. -/
inductive MembersOf : Option Declaration → Option (Members String) → Prop where
  | none : MembersOf none none
  | struct {definition : Source.StructDefinition} {members : List (Member String)} :
    List.Forall₂ MemberOf definition.members members →
      MembersOf (some (.struct definition)) (some (.struct members))
  | enum (definition : Source.EnumDefinition) :
    MembersOf (some (.enum definition)) (some (.enum definition.members))

theorem readFields_spec {work work' : Worklist} {fields : List Variable}
    {members : List (Member String)} (h : readFields work fields = .ok (members, work')) :
    List.Forall₂ MemberOf fields members ∧ work.Grows (namesIn fields) work' := by
  induction fields generalizing work members with
  | nil =>
    cases h
    exact ⟨.nil, .refl _⟩
  | cons field fields ih =>
    obtain ⟨type, htype, h⟩ := bind_eq_ok_iff.1 h
    obtain ⟨name, hname, h⟩ := bind_eq_ok_iff.1 h
    obtain ⟨next, hpush, h⟩ := bind_eq_ok_iff.1 h
    obtain ⟨⟨rest, _⟩, hrest, h⟩ := bind_eq_ok_iff.1 h
    cases pure_eq_ok_iff.1 h
    rw [typeNameOf_eq_ok_iff] at hname
    obtain ⟨hmembers, hgrows⟩ := ih hrest
    refine ⟨.cons ⟨rfl, typeIdOf_eq_ok_iff.1 htype, by rw [hname]; rfl⟩ hmembers, ?_⟩
    have hnames : namesIn (field :: fields) = name.descendants ++ namesIn fields := by
      simp [namesIn, hname]
    rw [hnames]
    exact (Worklist.grows_of_pushAll hpush).trans hgrows

theorem readMembers_spec {index : DeclarationIndex} {work work' : Worklist} {owner id : String}
    {name : TypeName} {members : Option (Members String)}
    (h : readMembers index work owner id name = .ok (members, work')) :
    MembersOf (memberDeclaration? index id name) members ∧
      work.Grows (namesIn (((memberDeclaration? index id name).map Declaration.fields).getD []))
        work' := by
  unfold readMembers at h
  unfold memberDeclaration?
  split at h
  next hnone =>
    cases h
    simp only [hnone]
    exact ⟨.none, .refl work⟩
  next declaration hdeclaration =>
    simp only [hdeclaration]
    split at h
    next hid =>
      rw [if_pos hid]
      split at h
      next => cases h
      next definition hfound =>
        rw [hfound]
        obtain ⟨⟨members, _⟩, hfields, h⟩ := bind_eq_ok_iff.1 h
        cases pure_eq_ok_iff.1 h
        obtain ⟨hmembers, hgrows⟩ := readFields_spec hfields
        exact ⟨.struct hmembers, hgrows⟩
      next definition hfound =>
        rw [hfound]
        cases h
        exact ⟨.enum definition, .refl work⟩
    next hid =>
      rw [if_neg hid]
      cases h
      exact ⟨.none, .refl work⟩

/-! ## Entries -/

/-- An entry that says what a type name and the declaration behind it say. -/
structure Describes (index : DeclarationIndex) (name : TypeName) (id : String)
    (entry : TypeEntry) : Prop where
  typeId : name.typeId? = some id
  label : name.descriptions.typeString = some entry.label
  members : MembersOf (memberDeclaration? index id name) entry.members

/-- Recording a type name leaves all as it is if its type is known. Otherwise one entry is added. -/
theorem record_spec {index : DeclarationIndex} {work work' : Worklist} {owner : String}
    {name : TypeName} {layout layout' : Layout}
    (h : record index work owner name layout = .ok (layout', work')) :
    ∃ id, name.typeId? = some id ∧
      ((layout.defines id = true ∧ layout' = layout ∧ work' = work) ∨
        ∃ entry, layout.defines id = false ∧ layout' = layout.define id entry ∧
          Describes index name id entry ∧ work.Grows (namesIn (fieldsOf index name)) work') := by
  obtain ⟨raw, hraw, h⟩ := bind_eq_ok_iff.1 h
  obtain ⟨id, hid, h⟩ := bind_eq_ok_iff.1 h
  have hnormalize : Identifier.normalize raw = .ok id := by
    cases hn : Identifier.normalize raw with
    | error cause =>
      rw [hn] at hid
      cases hid
    | ok text =>
      rw [hn] at hid
      cases hid
      rfl
  have htypeId : name.typeId? = some id :=
    Source.TypeDescriptions.typeId?_eq_some_iff.2 ⟨raw, rawIdOf_eq_ok_iff.1 hraw, hnormalize⟩
  refine ⟨id, htypeId, ?_⟩
  split at h
  next hdefines =>
    cases pure_eq_ok_iff.1 h
    exact .inl ⟨hdefines, rfl, rfl⟩
  next hdefines =>
    obtain ⟨label, hlabel, h⟩ := bind_eq_ok_iff.1 h
    obtain ⟨⟨members, _⟩, hmembers, h⟩ := bind_eq_ok_iff.1 h
    cases pure_eq_ok_iff.1 h
    obtain ⟨hmembersOf, hgrows⟩ := readMembers_spec hmembers
    refine .inr ⟨_, Bool.eq_false_iff.2 hdefines, rfl,
      ⟨htypeId, labelOf_eq_ok_iff.1 hlabel, hmembersOf⟩, ?_⟩
    rw [fieldsOf, htypeId]
    exact hgrows

end StorageUpgrade.Extraction
