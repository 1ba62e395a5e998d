import StorageUpgrade.Proofs.RecordedTypes

/-!
# What extraction covers

Each type name that has been met waits, or one with the same identifier waits, or the layout has an
entry for its type. One step of the search keeps this up for everything that the entries refer to,
so when nothing waits any more, all of it has entries. That the search comes to this end is part of
its definition; whether it fails on the way is not looked at here.
-/

namespace StorageUpgrade

theorem Layout.defines_define {layout : Layout} {id id' : String} {entry : TypeEntry} :
    (layout.define id entry).defines id' = true ↔ layout.defines id' = true ∨ id' = id := by
  have hdefines : ∀ l : Layout, l.defines id' = (l.type? id').isSome := fun _ => rfl
  rw [hdefines, hdefines, Layout.type?_define]
  cases layout.type? id' with
  | none => by_cases h : id' = id <;> simp [h]
  | some entry' => simp

theorem Layout.eq_or_eq_of_type?_define {layout : Layout} {id id' : String}
    {entry entry' : TypeEntry} (h : (layout.define id entry).type? id' = some entry') :
    layout.type? id' = some entry' ∨ id' = id ∧ entry' = entry := by
  rw [Layout.type?_define, Option.or_eq_some_iff] at h
  rcases h with hold | ⟨-, hnew⟩
  · exact .inl hold
  · by_cases heq : id' = id
    · rw [if_pos heq] at hnew
      exact .inr ⟨heq, (Option.some.inj hnew).symm⟩
    · rw [if_neg heq] at hnew
      cases hnew

namespace Extraction

open Source (ContractDefinition DeclarationIndex Locator TypeName Variable)

/-! ## Type names that are taken care of -/

/-- A type name whose type has an entry, or will have one when what waits has been recorded. -/
def Handled (layout : Layout) (queue : List (String × TypeName)) (name : TypeName) : Prop :=
  (∃ item ∈ queue, item.2.descriptions.typeIdentifier = name.descriptions.typeIdentifier) ∨
    ∃ id, name.typeId? = some id ∧ layout.defines id = true

section

variable {layout layout' : Layout} {queue queue' : List (String × TypeName)}
  {name name' : TypeName}

theorem handled_nil_iff :
    Handled layout [] name ↔ ∃ id, name.typeId? = some id ∧ layout.defines id = true := by
  simp [Handled]

theorem Handled.of_mem {item : String × TypeName} (h : item ∈ queue) :
    Handled layout queue item.2 :=
  .inl ⟨item, h, rfl⟩

/-- Only the identifier of a type name matters. -/
theorem Handled.congr (h : Handled layout queue name)
    (hid : name.descriptions.typeIdentifier = name'.descriptions.typeIdentifier) :
    Handled layout queue name' := by
  rcases h with ⟨item, hitem, heq⟩ | ⟨id, htype, hdefines⟩
  · exact .inl ⟨item, hitem, heq.trans hid⟩
  · have htype' : name'.typeId? = some id := by
      rw [← htype, TypeName.typeId?, TypeName.typeId?, Source.TypeDescriptions.typeId?,
        Source.TypeDescriptions.typeId?, hid]
    exact .inr ⟨id, htype', hdefines⟩

/-- Care is still taken if it is of what waits, and no entry is lost. -/
theorem Handled.step (h : Handled layout queue name)
    (hqueue : ∀ item ∈ queue, Handled layout' queue' item.2)
    (hdefines : ∀ id, layout.defines id = true → layout'.defines id = true) :
    Handled layout' queue' name := by
  rcases h with ⟨item, hitem, heq⟩ | ⟨id, htype, hdefined⟩
  · exact (hqueue item hitem).congr heq
  · exact .inr ⟨id, htype, hdefines id hdefined⟩

end

/-! ## Invariants -/

/-- Care is taken of all that a type name refers to: what it is made of, and the types of the fields
of the struct that it stands for. -/
structure Settled (index : DeclarationIndex) (layout : Layout) (queue : List (String × TypeName))
    (name : TypeName) : Prop where
  children : ∀ child ∈ name.children, Handled layout queue child
  fields : ∀ sub ∈ namesIn (fieldsOf index name), Handled layout queue sub

/-- Every entry is that of a type name that is reached, and care is taken of what that refers to. -/
def Recorded (index : DeclarationIndex) (contract : ContractDefinition) (layout : Layout)
    (queue : List (String × TypeName)) : Prop :=
  ∀ id entry, layout.type? id = some entry → ∃ name, Reached index contract name ∧
    Describes index name id entry ∧ Settled index layout queue name

/-- What holds between two steps of the search for the types of one variable. `names` are those that
may be met. -/
structure Covers (index : DeclarationIndex) (contract : ContractDefinition) (names : List TypeName)
    (layout : Layout) (work : Worklist) : Prop where
  queued : ∀ item ∈ work.queue, Reached index contract item.2 ∧
    ∀ child ∈ item.2.children, Handled layout work.queue child
  recorded : Recorded index contract layout work.queue
  tracked : ∀ name ∈ names, ∀ raw, name.descriptions.typeIdentifier = some raw →
    raw ∈ work.fresh ∨ Handled layout work.queue name

section

variable {index : DeclarationIndex} {contract : ContractDefinition} {layout layout' : Layout}
  {queue queue' : List (String × TypeName)} {names added : List TypeName} {name : TypeName}
  {work work' : Worklist} {owner id : String} {fresh : List String}

theorem Settled.step (h : Settled index layout queue name)
    (hstep : ∀ n, Handled layout queue n → Handled layout' queue' n) :
    Settled index layout' queue' name :=
  ⟨fun child hchild => hstep child (h.children child hchild),
    fun sub hsub => hstep sub (h.fields sub hsub)⟩

theorem Recorded.step (h : Recorded index contract layout queue)
    (hstep : ∀ n, Handled layout queue n → Handled layout queue' n) :
    Recorded index contract layout queue' := by
  intro id entry hentry
  obtain ⟨name, hreached, hdescribes, hsettled⟩ := h id entry hentry
  exact ⟨name, hreached, hdescribes, hsettled.step hstep⟩

/-- An item in front of those that wait makes no difference to what is put behind them. -/
theorem Worklist.Grows.cons (h : Worklist.Grows ⟨fresh, queue⟩ added work')
    (item : String × TypeName) :
    Worklist.Grows ⟨fresh, item :: queue⟩ added ⟨work'.fresh, item :: work'.queue⟩ where
  queue := by
    obtain ⟨new, hqueue, hnew⟩ := h.queue
    have hcons : item :: work'.queue = item :: queue ++ new := congrArg (item :: ·) hqueue
    exact ⟨new, hcons, hnew⟩
  fresh raw hraw := by
    rcases h.fresh raw hraw with hfresh | ⟨other, hother, hid⟩
    · exact .inl hfresh
    · exact .inr ⟨other, List.mem_cons_of_mem _ hother, hid⟩
  used := h.used
  subset := h.subset

/-- Queueing type names with all that they are made of takes care of them. -/
theorem Covers.grow (h : Covers index contract names layout work)
    (hgrows : work.Grows added work') (hnames : added ⊆ names)
    (hreached : ∀ name ∈ added, Reached index contract name)
    (hclosed : ∀ name ∈ added, ∀ child ∈ name.children, child ∈ added) :
    Covers index contract names layout work' ∧
      (∀ n, Handled layout work.queue n → Handled layout work'.queue n) ∧
      ∀ name ∈ added, Handled layout work'.queue name := by
  have hstep : ∀ n, Handled layout work.queue n → Handled layout work'.queue n := by
    intro n hn
    exact hn.step (fun item hitem => .of_mem (hgrows.mem_queue hitem)) (fun _ => id)
  have htracked : ∀ name ∈ names, ∀ raw, name.descriptions.typeIdentifier = some raw →
      raw ∈ work'.fresh ∨ Handled layout work'.queue name := by
    intro name hname raw hid
    rcases h.tracked name hname raw hid with hfresh | hhandled
    · rcases hgrows.fresh raw hfresh with hfresh | ⟨item, hitem, heq⟩
      · exact .inl hfresh
      · exact .inr (.inl ⟨item, hitem, heq.trans hid.symm⟩)
    · exact .inr (hstep name hhandled)
  have hadded : ∀ name ∈ added, Handled layout work'.queue name := by
    intro name hname
    obtain ⟨raw, hid, hused⟩ := hgrows.used name hname
    exact (htracked name (hnames hname) raw hid).resolve_left hused
  refine ⟨⟨?_, h.recorded.step hstep, htracked⟩, hstep, hadded⟩
  obtain ⟨new, hqueue, hnew⟩ := hgrows.queue
  intro item hitem
  rw [hqueue, List.mem_append] at hitem
  rcases hitem with hitem | hitem
  · obtain ⟨hitemReached, hchildren⟩ := h.queued item hitem
    exact ⟨hitemReached, fun child hchild => hstep child (hchildren child hchild)⟩
  · have hmem := hnew item hitem
    exact ⟨hreached _ hmem, fun child hchild => hadded child (hclosed _ hmem child hchild)⟩

/-- The first of those that wait may go once its type has an entry. -/
theorem Covers.drop (h : Covers index contract names layout ⟨fresh, (owner, name) :: queue⟩)
    (hid : name.typeId? = some id) (hlayout : ∀ id, layout.defines id = true →
      layout'.defines id = true) (hdefines : layout'.defines id = true)
    (hentries : ∀ id' entry, layout'.type? id' = some entry → layout.type? id' = some entry ∨
      Describes index name id' entry ∧
        ∀ sub ∈ namesIn (fieldsOf index name), Handled layout ((owner, name) :: queue) sub) :
    Covers index contract names layout' ⟨fresh, queue⟩ ∧
      ∀ n, Handled layout ((owner, name) :: queue) n → Handled layout' queue n := by
  have hstep : ∀ n, Handled layout ((owner, name) :: queue) n → Handled layout' queue n := by
    intro n hn
    refine hn.step (fun item hitem => ?_) hlayout
    rcases List.mem_cons.1 hitem with rfl | hitem
    · exact .inr ⟨id, hid, hdefines⟩
    · exact .of_mem hitem
  obtain ⟨hreached, hchildren⟩ := h.queued (owner, name) List.mem_cons_self
  refine ⟨⟨?_, ?_, ?_⟩, hstep⟩
  · intro item hitem
    obtain ⟨hitemReached, hitemChildren⟩ := h.queued item (List.mem_cons_of_mem _ hitem)
    exact ⟨hitemReached, fun child hchild => hstep child (hitemChildren child hchild)⟩
  · intro id' entry hentry
    rcases hentries id' entry hentry with hold | ⟨hdescribes, hfields⟩
    · obtain ⟨other, hother, hdescribes, hsettled⟩ := h.recorded id' entry hold
      exact ⟨other, hother, hdescribes, hsettled.step hstep⟩
    · exact ⟨name, hreached, hdescribes, Settled.step ⟨hchildren, hfields⟩ hstep⟩
  · intro other hother raw hraw
    exact (h.tracked other hother raw hraw).imp_right (hstep other)

/-! ## The search for the types of one variable -/

/-- Taking one type name from the queue keeps the invariant, and care of all that had been met. -/
theorem Covers.record (h : Covers index contract names layout ⟨fresh, (owner, name) :: queue⟩)
    (hnames : namesIn (indexedFields index) ⊆ names)
    (hrecord : record index ⟨fresh, queue⟩ owner name layout = .ok (layout', work')) :
    Covers index contract names layout' work' ∧ layout'.stored = layout.stored ∧
      ∀ n, Handled layout ((owner, name) :: queue) n → Handled layout' work'.queue n := by
  obtain ⟨hreached, -⟩ := h.queued (owner, name) List.mem_cons_self
  obtain ⟨id, hid, ⟨hdefines, rfl, rfl⟩ | ⟨entry, -, rfl, hdescribes, hgrows⟩⟩ :=
    record_spec hrecord
  · obtain ⟨hcovers, hstep⟩ := h.drop hid (fun _ hold => hold) hdefines
      fun _ _ hentry => .inl hentry
    exact ⟨hcovers, rfl, hstep⟩
  · obtain ⟨hgrown, hkept, hfields⟩ := h.grow (hgrows.cons (owner, name))
      (List.Subset.trans (namesIn_subset (fieldsOf_subset index name)) hnames)
      (fun sub hsub => .field hreached hsub)
      (fun sub hsub child hchild => child_mem_namesIn hsub hchild)
    have hentries : ∀ id' entry', (layout.define id entry).type? id' = some entry' →
        layout.type? id' = some entry' ∨ Describes index name id' entry' ∧
          ∀ sub ∈ namesIn (fieldsOf index name),
            Handled layout ((owner, name) :: work'.queue) sub := by
      intro id' entry' hentry
      rcases Layout.eq_or_eq_of_type?_define hentry with hold | ⟨rfl, rfl⟩
      · exact .inl hold
      · exact .inr ⟨hdescribes, hfields⟩
    obtain ⟨hcovers, hstep⟩ := hgrown.drop hid
      (fun _ hold => Layout.defines_define.2 (.inl hold)) (Layout.defines_define.2 (.inr rfl))
      hentries
    exact ⟨hcovers, rfl, fun n hn => hstep n (hkept n hn)⟩

/-- When nothing waits any more, care has been taken by entries alone. -/
theorem Covers.recordAll (h : Covers index contract names layout work)
    (hnames : namesIn (indexedFields index) ⊆ names)
    (hrecord : recordAll index work layout = .ok layout') :
    Recorded index contract layout' [] ∧ layout'.stored = layout.stored ∧
      ∀ n, Handled layout work.queue n → Handled layout' [] n := by
  fun_induction Extraction.recordAll index work layout with
  | case1 work layout hqueue =>
    cases hrecord
    have hrecorded := h.recorded
    rw [hqueue] at hrecorded ⊢
    exact ⟨hrecorded, rfl, fun n hn => hn⟩
  | case2 => cases hrecord
  | case3 work layout owner name queue hqueue next work' hstep ih =>
    obtain ⟨fresh, _⟩ := work
    subst hqueue
    obtain ⟨hnext, hstored, hkept⟩ := h.record hnames hstep
    obtain ⟨hrecorded, hstored', hkept'⟩ := ih hnext hrecord
    exact ⟨hrecorded, hstored'.trans hstored, fun n hn => hkept' n (hkept n hn)⟩

/-- At the outset every identifier that may be met is fresh. -/
theorem covers_workFor (h : Recorded index contract layout []) (index' : DeclarationIndex)
    (root : TypeName) :
    Covers index contract (root.descendants ++ namesIn (indexedFields index')) layout
      (workFor index' root) where
  queued := nofun
  recorded := h
  tracked name hname raw hid := by
    refine .inl (List.mem_filterMap.2 ⟨name, ?_, hid⟩)
    rw [List.flatMap_cons]
    exact hname

end

/-! ## Variables -/

/-- A variable in a layout and its declaration, with entries for all that its type is made of. -/
structure StoredAs (locate : Locator) (contract : String) (layout : Layout) (declared : Variable)
    (stored : StoredVariable) : Prop where
  contract : stored.contract = contract
  label : stored.label = declared.name
  typeId : declared.typeId? = some stored.typeId
  src : stored.src = locate declared
  handled : ∀ name ∈ namesIn [declared], Handled layout [] name

section

variable {index : DeclarationIndex} {locate : Locator} {contract : ContractDefinition}
  {layout layout' : Layout}

theorem addVariable_spec {declared : Variable} (h : Recorded index contract layout [])
    (hdeclared : declared ∈ storedVariables contract)
    (hadd : addVariable index locate contract.name layout declared = .ok layout') :
    Recorded index contract layout' [] ∧
      (∀ n, Handled layout [] n → Handled layout' [] n) ∧
      ∃ stored, layout'.stored = layout.stored ++ [stored] ∧
        StoredAs locate contract.name layout' declared stored := by
  obtain ⟨typeId, htype, hadd⟩ := bind_eq_ok_iff.1 hadd
  obtain ⟨root, hroot, hadd⟩ := bind_eq_ok_iff.1 hadd
  obtain ⟨work, hpush, hrecord⟩ := bind_eq_ok_iff.1 hadd
  have htypeId := typeIdOf_eq_ok_iff.1 htype
  have hroot' := typeNameOf_eq_ok_iff.1 hroot
  have hnamesIn : namesIn [declared] = root.descendants := by
    simp [namesIn, hroot']
  have hreached : ∀ name ∈ root.descendants, Reached index contract name := by
    intro name hname
    have hsub : [declared] ⊆ storedVariables contract := by simpa using hdeclared
    exact .stored (namesIn_subset hsub (hnamesIn ▸ hname))
  let stored : StoredVariable :=
    { contract := contract.name, label := declared.name, typeId, src := locate declared }
  have hentered : Recorded index contract (layout.addVariable stored) [] := by
    intro id entry hentry
    obtain ⟨name, hname, hdescribes, hsettled⟩ := h id entry hentry
    exact ⟨name, hname, hdescribes, hsettled.step fun n hn => hn⟩
  obtain ⟨hcovers, -, hnames⟩ := (covers_workFor hentered index root).grow
    (Worklist.grows_of_pushAll hpush) (List.subset_append_left _ _) hreached
    (fun name hname child hchild => TypeName.child_mem_descendants hname hchild)
  obtain ⟨hrecorded, hstored, hkept⟩ :=
    hcovers.recordAll (List.subset_append_right _ _) hrecord
  have hnow : ∀ n, Handled layout [] n → Handled layout' [] n := by
    intro n hn
    refine hkept n (.inr ?_)
    exact handled_nil_iff.1 hn
  refine ⟨hrecorded, hnow, stored, hstored, rfl, rfl, htypeId, rfl, ?_⟩
  intro name hname
  exact hkept name (hnames name (hnamesIn ▸ hname))

theorem addVariables_spec {declared : List Variable} (h : Recorded index contract layout [])
    (hdeclared : declared ⊆ storedVariables contract)
    (hadd : addVariables index locate contract.name layout declared = .ok layout') :
    Recorded index contract layout' [] ∧
      (∀ n, Handled layout [] n → Handled layout' [] n) ∧
      ∃ stored, layout'.stored = layout.stored ++ stored ∧
        List.Forall₂ (StoredAs locate contract.name layout') declared stored := by
  induction declared generalizing layout with
  | nil =>
    cases hadd
    exact ⟨h, fun n hn => hn, [], (List.append_nil _).symm, .nil⟩
  | cons first rest ih =>
    obtain ⟨next, hfirst, hrest⟩ := bind_eq_ok_iff.1 hadd
    rw [List.cons_subset] at hdeclared
    obtain ⟨hnext, hkept, stored, hstored, hfirst⟩ := addVariable_spec h hdeclared.1 hfirst
    obtain ⟨hrecorded, hkept', others, hothers, hforall⟩ := ih hnext hdeclared.2 hrest
    have hfirst' : StoredAs locate contract.name layout' first stored :=
      { hfirst with handled := fun name hname => hkept' name (hfirst.handled name hname) }
    refine ⟨hrecorded, fun n hn => hkept' n (hkept n hn), stored :: others, ?_,
      .cons hfirst' hforall⟩
    rw [hothers, hstored, List.append_assoc, List.singleton_append]

/-- What an extracted layout consists of: the stored variables in their order, and entries of type
names that are reached, with entries for all that these refer to. -/
theorem extract_spec (h : extract index locate contract = .ok layout) :
    Recorded index contract layout [] ∧
      List.Forall₂ (StoredAs locate contract.name layout) (storedVariables contract)
        layout.stored := by
  have hempty : Recorded index contract ∅ [] := nofun
  obtain ⟨hrecorded, -, stored, hstored, hforall⟩ :=
    addVariables_spec hempty (List.Subset.refl _) h
  rw [show layout.stored = stored from hstored]
  exact ⟨hrecorded, hforall⟩

end

end Extraction

end StorageUpgrade
