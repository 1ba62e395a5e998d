import Mathlib.Data.Finset.Card
import StorageUpgrade.Proofs.BoundedRuns
import StorageUpgrade.Proofs.DictionaryClosure

/-!
# Steps of the work queue

The types of a variable are loaded from a queue, which each step may make shorter or, for a struct,
longer by any number of type names. An identifier that has been in the queue does not come in again,
so it ends empty after no more steps than there are identifiers: those in the variable's type name
and in the fields of the structs in the index. Every variable starts with a queue of its own.
-/

namespace StorageUpgrade.Extraction

open Source (ContractDefinition DeclarationIndex Locator TypeName Variable)

/-! ## Loading from a queue -/

/-- The type names that wait and those that have been taken, each with the declaration that it was
met in, and the identifiers of both. -/
structure WorkQueue where
  queued : List String
  waiting : List (String × TypeName)
  taken : List (String × TypeName)

namespace WorkQueue

def empty : WorkQueue := ⟨[], [], []⟩

/-- All that has come into the queue, in order. -/
def entries (queue : WorkQueue) : List (String × TypeName) := queue.taken ++ queue.waiting

def put (queue : WorkQueue) (raw : String) (entry : String × TypeName) : WorkQueue :=
  if raw ∈ queue.queued then queue
  else { queue with queued := queue.queued ++ [raw], waiting := queue.waiting ++ [entry] }

/-- Takes the first of those that wait. -/
def take (queue : WorkQueue) (entry : String × TypeName)
    (waiting : List (String × TypeName)) : WorkQueue :=
  { queue with waiting, taken := queue.taken ++ [entry] }

end WorkQueue

/-- Loading types, which may fail, and has no outcome when it takes too many steps. -/
abbrev LoadM := BoundedRun ExtractionError WorkQueue

def enqueue (owner : String) (name : TypeName) : LoadM Unit := do
  let raw ← rawIdOf owner name
  modify (·.put raw (owner, name))

def enqueueAll (owner : String) (names : List TypeName) : LoadM Unit :=
  names.forM (enqueue owner)

def loadFields : List Variable → LoadM (List (Member String))
  | [] => return []
  | field :: fields => do
    let type ← typeIdOf field
    let name ← typeNameOf field
    enqueueAll field.name name.descendants
    let members ← loadFields fields
    return ⟨field.name, type⟩ :: members

def loadMembers (index : DeclarationIndex) (owner id : String) (name : TypeName) :
    LoadM (Option (Members String)) :=
  match name.declaration? with
  | none => return none
  | some declaration =>
    if isStructOrEnum id then
      match index.declaration? [.struct, .enum] declaration with
      | none => throw (.unresolvedReference owner declaration)
      | some (.struct definition) => do
        let members ← loadFields definition.members
        return some (.struct members)
      | some (.enum definition) => return some (.enum definition.members)
    else return none

def loadType (index : DeclarationIndex) (owner : String) (name : TypeName) (layout : Layout) :
    LoadM Layout := do
  let raw ← rawIdOf owner name
  let id ← (Identifier.normalize raw).mapError ExtractionError.identifier
  if layout.defines id then
    return layout
  else
    let label ← labelOf owner name
    let members ← loadMembers index owner id name
    return layout.define id { label, members }

/-- Loads all that waits and what comes in meanwhile, with at most `steps` taken from the queue. -/
def drainWithin (index : DeclarationIndex) : Nat → Layout → LoadM Layout
  | 0, layout => do
    match (← get).waiting with
    | [] => return layout
    | _ :: _ => .exhausted
  | steps + 1, layout => do
    match (← get).waiting with
    | [] => return layout
    | (owner, name) :: waiting =>
      modify (·.take (owner, name) waiting)
      let layout ← loadType index owner name layout
      drainWithin index steps layout

/-- Loads the types of one variable. -/
def loadTypesWithin (steps : Nat) (index : DeclarationIndex) (declared : Variable)
    (layout : Layout) : LoadM Layout := do
  let name ← typeNameOf declared
  enqueueAll declared.name name.descendants
  drainWithin index steps layout

/-! ## What comes into the queue -/

/-- Nothing comes in twice, and nothing but the identifiers of a pool. What has been taken is
given, as loading a type does not change it. -/
structure WorkQueue.Tracks (pool : List String) (taken : List (String × TypeName))
    (queue : WorkQueue) : Prop where
  nodup : queue.queued.Nodup
  subset : ∀ raw ∈ queue.queued, raw ∈ pool
  entries : queue.entries.map (·.2.descriptions.typeIdentifier) = queue.queued.map some
  taken_eq : queue.taken = taken

/-- What is left to queue of a pool, and what waits. -/
def WorkQueue.work (pool : List String) (queue : WorkQueue) : Worklist :=
  ⟨pool.filter (· ∉ queue.queued), queue.waiting⟩

/-- Every identifier of the type names is in the pool. -/
def Pooled (pool : List String) (names : List TypeName) : Prop :=
  ∀ name ∈ names, ∀ raw, name.descriptions.typeIdentifier = some raw → raw ∈ pool

section

variable {pool : List String} {taken : List (String × TypeName)} {queue : WorkQueue}
  {raw owner : String} {name : TypeName} {names : List TypeName}

theorem WorkQueue.tracks_empty (pool : List String) : WorkQueue.empty.Tracks pool [] where
  nodup := List.nodup_nil
  subset := by
    intro raw h
    cases h
  entries := rfl
  taken_eq := rfl

theorem WorkQueue.Tracks.put (h : queue.Tracks pool taken) (hraw : raw ∈ pool)
    (hname : name.descriptions.typeIdentifier = some raw) :
    (queue.put raw (owner, name)).Tracks pool taken := by
  by_cases hqueued : raw ∈ queue.queued
  · rwa [WorkQueue.put, if_pos hqueued]
  · rw [WorkQueue.put, if_neg hqueued]
    constructor
    · show (queue.queued ++ [raw]).Nodup
      rw [← List.concat_eq_append]
      exact (List.nodup_concat _ _).2 ⟨hqueued, h.nodup⟩
    · show ∀ other ∈ queue.queued ++ [raw], other ∈ pool
      intro other hother
      rcases List.mem_append.1 hother with hold | hnew
      · exact h.subset other hold
      · rw [List.mem_singleton] at hnew
        exact hnew ▸ hraw
    · have hentries : (queue.taken ++ queue.waiting).map (·.2.descriptions.typeIdentifier) =
          queue.queued.map some := h.entries
      show (queue.taken ++ (queue.waiting ++ [(owner, name)])).map _ =
        (queue.queued ++ [raw]).map some
      rw [← List.append_assoc, List.map_append, hentries, List.map_append, List.map_singleton,
        List.map_singleton, hname]
    · exact h.taken_eq

/-- An identifier of the pool that has not been queued is fresh, and stops being so. -/
theorem WorkQueue.push_work (hraw : raw ∈ pool) (entry : String × TypeName) :
    (if raw ∈ (queue.work pool).fresh then
      ⟨without raw (queue.work pool).fresh, (queue.work pool).queue ++ [entry]⟩
    else queue.work pool) = (queue.put raw entry).work pool := by
  by_cases hqueued : raw ∈ queue.queued
  · have hfresh : raw ∉ (queue.work pool).fresh := by
      simp [WorkQueue.work, hqueued]
    rw [if_neg hfresh, WorkQueue.put, if_pos hqueued]
  · have hfresh : raw ∈ (queue.work pool).fresh := by
      simp [WorkQueue.work, hqueued, hraw]
    rw [if_pos hfresh, WorkQueue.put, if_neg hqueued]
    simp [WorkQueue.work, without, List.filter_filter, and_comm]

/-- A step that changes nothing but the work. -/
def onWork (step : Worklist → Except ExtractionError Worklist) :
    StateT Worklist (Except ExtractionError) Unit :=
  fun work => (step work).map fun work => ((), work)

theorem onWork_eq_ok_iff {step : Worklist → Except ExtractionError Worklist}
    {work work' : Worklist} : onWork step work = .ok ((), work') ↔ step work = .ok work' := by
  cases h : step work <;> simp [onWork, h, Except.map]

theorem onWork_eq_error_iff {step : Worklist → Except ExtractionError Worklist} {work : Worklist}
    {error : ExtractionError} : onWork step work = .error error ↔ step work = .error error := by
  cases h : step work <;> simp [onWork, h, Except.map]

theorem follows_enqueue (owner : String)
    (hname : ∀ raw, name.descriptions.typeIdentifier = some raw → raw ∈ pool) :
    Follows (WorkQueue.Tracks pool taken) (WorkQueue.work pool) (enqueue owner name)
      (onWork (·.push owner name)) := by
  intro queue hqueue
  cases hid : name.descriptions.typeIdentifier with
  | none =>
    have hraw : rawIdOf owner name = .error (.missingTypeIdentifier owner) := by
      rw [rawIdOf, hid]
    refine ⟨queue, hqueue, .inr ⟨.missingTypeIdentifier owner, ?_, ?_⟩⟩
    · simp only [onWork, Worklist.push, hraw]
      rfl
    · rw [enqueue, hraw]
      rfl
  | some raw =>
    have hraw : rawIdOf owner name = .ok raw := rawIdOf_eq_ok_iff.2 hid
    have hpool := hname raw hid
    refine ⟨queue.put raw (owner, name), hqueue.put hpool hid, .inl ⟨(), ?_, ?_⟩⟩
    · rw [← WorkQueue.push_work hpool]
      simp only [onWork, Worklist.push, hraw]
      rfl
    · rw [enqueue, hraw]
      rfl

theorem follows_enqueueAll (owner : String) (hnames : Pooled pool names) :
    Follows (WorkQueue.Tracks pool taken) (WorkQueue.work pool) (enqueueAll owner names)
      (onWork (·.pushAll owner names)) := by
  induction names with
  | nil => exact .pure ()
  | cons name names ih =>
    obtain ⟨hname, hnames⟩ := List.forall_mem_cons.1 hnames
    apply ((follows_enqueue owner hname).bind fun _ => ih hnames).congr
    intro work
    show ((work.push owner name).map _ >>= _) = ((work.push owner name >>= _).map _)
    cases work.push owner name <;> rfl

theorem follows_loadFields {fields : List Variable} (hfields : Pooled pool (namesIn fields)) :
    Follows (WorkQueue.Tracks pool taken) (WorkQueue.work pool) (loadFields fields)
      (readFields · fields) := by
  induction fields with
  | nil => exact .pure []
  | cons field fields ih =>
    apply Follows.lift_bind
    intro type htype
    apply Follows.lift_bind
    intro name hname
    have hpooled : Pooled pool name.descendants := fun sub hsub =>
      hfields sub (mem_namesIn_iff.2
        ⟨field, List.mem_cons_self, name, typeNameOf_eq_ok_iff.1 hname, hsub⟩)
    have hrest : Pooled pool (namesIn fields) := fun sub hsub =>
      hfields sub (namesIn_subset (List.subset_cons_self field fields) hsub)
    apply ((follows_enqueueAll field.name hpooled).bind fun _ => (ih hrest).bind
      fun members => .pure (Member.mk field.name type :: members)).congr
    intro work
    show ((work.pushAll field.name name.descendants).map _ >>= _) =
      (work.pushAll field.name name.descendants >>= _)
    cases work.pushAll field.name name.descendants <;> rfl

end

/-! ## Loading a type -/

section

variable {index : DeclarationIndex} {pool : List String} {taken : List (String × TypeName)}
  {name : TypeName} {owner id : String} {layout : Layout}

theorem follows_loadMembers (hpool : Pooled pool (namesIn (indexedFields index)))
    (owner id : String) (name : TypeName) :
    Follows (WorkQueue.Tracks pool taken) (WorkQueue.work pool) (loadMembers index owner id name)
      (readMembers index · owner id name) := by
  unfold loadMembers readMembers
  cases name.declaration? with
  | none => exact .pure none
  | some declaration =>
    by_cases hkind : isStructOrEnum id = true
    · simp only [hkind, ↓reduceIte]
      cases hfound : index.declaration? [.struct, .enum] declaration with
      | none => exact .throw (ExtractionError.unresolvedReference owner declaration)
      | some found =>
        cases found with
        | enum definition => exact .pure _
        | struct definition =>
          have hindexed : namesIn definition.members ⊆ namesIn (indexedFields index) := by
            apply namesIn_subset
            intro field hfield
            obtain ⟨hfind, -⟩ := Option.filter_eq_some_iff.1 hfound
            exact List.mem_flatMap.2 ⟨.struct definition, List.mem_of_find?_eq_some hfind, hfield⟩
          apply ((follows_loadFields fun name hname => hpool name (hindexed hname)).bind
            fun members => .pure (some (Members.struct members))).congr
          intro work
          rfl
    · simp only [hkind]
      exact .pure none

theorem follows_loadType (hpool : Pooled pool (namesIn (indexedFields index))) (owner : String)
    (name : TypeName) (layout : Layout) :
    Follows (WorkQueue.Tracks pool taken) (WorkQueue.work pool)
      (loadType index owner name layout) (record index · owner name layout) := by
  unfold loadType record
  apply Follows.lift_bind
  intro raw hraw
  apply Follows.lift_bind
  intro id hid
  by_cases hdefines : layout.defines id = true
  · simp only [hdefines, ↓reduceIte]
    exact .pure layout
  · simp only [hdefines]
    apply Follows.lift_bind
    intro label hlabel
    exact (follows_loadMembers hpool owner id name).bind fun members => .pure _

/-! ## The queue becomes empty -/

theorem WorkQueue.Tracks.take {queue : WorkQueue} {entry : String × TypeName}
    {waiting : List (String × TypeName)} (h : queue.Tracks pool taken)
    (hwaiting : queue.waiting = entry :: waiting) :
    (queue.take entry waiting).Tracks pool (taken ++ [entry]) where
  nodup := h.nodup
  subset := h.subset
  entries := by
    have hentries : (queue.take entry waiting).entries = queue.entries := by
      rw [WorkQueue.entries, WorkQueue.entries, hwaiting]
      exact List.append_assoc queue.taken [entry] waiting
    rw [hentries]
    exact h.entries
  taken_eq := congrArg (· ++ [entry]) h.taken_eq

/-- Of each identifier of the pool there is at most one entry. -/
theorem WorkQueue.Tracks.length_le {queue : WorkQueue} (h : queue.Tracks pool taken) :
    taken.length + queue.waiting.length ≤ pool.toFinset.card := by
  have hlength : queue.entries.length = queue.queued.length := by
    have heq := congrArg List.length h.entries
    rwa [List.length_map, List.length_map] at heq
  have hentries : queue.entries.length = taken.length + queue.waiting.length := by
    rw [WorkQueue.entries, List.length_append, h.taken_eq]
  rw [← hentries, hlength, ← List.toFinset_card_of_nodup h.nodup]
  apply Finset.card_le_card
  intro raw hraw
  exact List.mem_toFinset.2 (h.subset raw (List.mem_toFinset.1 hraw))

theorem recordAll_nil (fresh : List String) :
    recordAll index ⟨fresh, []⟩ layout = .ok layout := by
  rw [recordAll]

theorem recordAll_cons (fresh : List String) (queue : List (String × TypeName)) :
    recordAll index ⟨fresh, (owner, name) :: queue⟩ layout =
      record index ⟨fresh, queue⟩ owner name layout >>= fun result =>
        recordAll index result.2 result.1 := by
  rw [recordAll]
  split
  next hnil => cases hnil
  next hcons =>
    cases hcons
    split
    next hrecord =>
      rw [hrecord]
      rfl
    next hrecord =>
      rw [hrecord]
      rfl

theorem drainWithin_of_nil {steps : Nat} {queue : WorkQueue} (h : queue.waiting = []) :
    drainWithin index steps layout queue = some (.ok layout, queue) := by
  cases steps with
  | zero =>
    show (match queue.waiting with
      | [] => return layout
      | _ :: _ => BoundedRun.exhausted : LoadM Layout) queue = _
    rw [h]
    rfl
  | succ steps =>
    show (match queue.waiting with
      | [] => return layout
      | (owner, name) :: waiting => _ : LoadM Layout) queue = _
    rw [h]
    rfl

theorem drainWithin_of_cons {steps : Nat} {queue : WorkQueue} {waiting : List (String × TypeName)}
    (h : queue.waiting = (owner, name) :: waiting) :
    drainWithin index (steps + 1) layout queue =
      (loadType index owner name layout >>= drainWithin index steps : LoadM Layout)
        (queue.take (owner, name) waiting) := by
  show (match queue.waiting with
    | [] => return layout
    | (owner, name) :: waiting => _ : LoadM Layout) queue = _
  rw [h]
  rfl

theorem WorkQueue.work_of_waiting {queue : WorkQueue} {waiting : List (String × TypeName)}
    (h : queue.waiting = waiting) :
    queue.work pool = ⟨pool.filter (· ∉ queue.queued), waiting⟩ := by
  rw [WorkQueue.work, h]

/-- What has been taken and the steps that are left are together as many as the pool has
identifiers, so as long as something waits there is a step left. -/
theorem exists_drainWithin (hpool : Pooled pool (namesIn (indexedFields index))) (layout : Layout)
    {steps : Nat} {queue : WorkQueue} (hqueue : queue.Tracks pool taken)
    (hsteps : pool.toFinset.card ≤ steps + taken.length) :
    ∃ after taken', after.Tracks pool taken' ∧
      drainWithin index steps layout queue =
        some (recordAll index (queue.work pool) layout, after) ∧
      (after.waiting = [] ∨
        ∃ error, recordAll index (queue.work pool) layout = .error error) := by
  induction steps generalizing queue taken layout with
  | zero =>
    have hlength := hqueue.length_le
    have hwaiting : queue.waiting = [] := List.eq_nil_of_length_eq_zero (by omega)
    rw [WorkQueue.work_of_waiting hwaiting, recordAll_nil]
    exact ⟨queue, taken, hqueue, drainWithin_of_nil hwaiting, .inl hwaiting⟩
  | succ steps ih =>
    cases hwaiting : queue.waiting with
    | nil =>
      rw [WorkQueue.work_of_waiting hwaiting, recordAll_nil]
      exact ⟨queue, taken, hqueue, drainWithin_of_nil hwaiting, .inl hwaiting⟩
    | cons entry waiting =>
      obtain ⟨owner, name⟩ := entry
      rw [WorkQueue.work_of_waiting hwaiting, recordAll_cons, drainWithin_of_cons hwaiting]
      obtain ⟨next, hnext, ⟨layout', hstep, hrun⟩ | ⟨error, hstep, hrun⟩⟩ :=
        follows_loadType hpool owner name layout _ (hqueue.take hwaiting)
      · have hleft : pool.toFinset.card ≤ steps + (taken ++ [(owner, name)]).length := by
          rw [List.length_append, List.length_singleton]
          omega
        obtain ⟨after, taken', hafter, hdrain, hend⟩ := ih layout' hnext hleft
        change record index ⟨pool.filter (· ∉ queue.queued), waiting⟩ owner name layout = _ at hstep
        rw [BoundedRun.bind_of_ok hrun, hdrain, hstep, ok_bind]
        exact ⟨after, taken', hafter, rfl, hend⟩
      · change record index ⟨pool.filter (· ∉ queue.queued), waiting⟩ owner name layout = _ at hstep
        rw [BoundedRun.bind_of_error hrun, hstep, error_bind]
        exact ⟨next, _, hnext, rfl, .inr ⟨error, rfl⟩⟩

end

/-! ## Extracting with queues -/

/-- The identifiers in the type name of a variable and in the fields of the structs in an index. -/
def occurringIds (index : DeclarationIndex) (declared : Variable) : List String :=
  (namesIn (declared :: indexedFields index)).filterMap (·.descriptions.typeIdentifier)

/-- The number of different identifiers that may occur while the types of a variable are loaded. -/
def stepBound (index : DeclarationIndex) (declared : Variable) : Nat :=
  (occurringIds index declared).toFinset.card

/-- What came of loading the types of a variable, and the queue afterwards. -/
structure Load where
  declared : Variable
  outcome : Except ExtractionError Layout
  queue : WorkQueue

/-- The queue has become empty unless there was an error. Each identifier came into it at most once,
so it took no more steps than there are identifiers that may occur. -/
structure Load.Bounded (index : DeclarationIndex) (load : Load) : Prop where
  ends : load.queue.waiting = [] ∨ ∃ error, load.outcome = .error error
  once : (load.queue.entries.map (·.2.descriptions.typeIdentifier)).Nodup
  occurs : ∀ entry ∈ load.queue.entries, ∃ raw ∈ occurringIds index load.declared,
    entry.2.descriptions.typeIdentifier = some raw
  steps_le : load.queue.taken.length ≤ stepBound index load.declared

/-- Adds a variable and its types, with a queue for them that is empty at first. -/
def addVariableWithin (steps : Nat) (index : DeclarationIndex) (locate : Locator)
    (contract : String) (layout : Layout) (declared : Variable) :
    BoundedRun ExtractionError (List Load) Layout := do
  let typeId ← typeIdOf declared
  let stored := { contract, label := declared.name, typeId, src := locate declared }
  let (outcome, queue) ←
    (loadTypesWithin steps index declared (layout.addVariable stored) .empty : Option _)
  modify (· ++ [⟨declared, outcome, queue⟩])
  outcome

def addVariablesWithin (steps : Variable → Nat) (index : DeclarationIndex) (locate : Locator)
    (contract : String) (layout : Layout) :
    List Variable → BoundedRun ExtractionError (List Load) Layout
  | [] => return layout
  | declared :: rest => do
    let layout ← addVariableWithin (steps declared) index locate contract layout declared
    addVariablesWithin steps index locate contract layout rest

/-- Extracts a layout, with a bound on the steps for each variable. -/
def extractWithin (steps : Variable → Nat) (index : DeclarationIndex) (locate : Locator)
    (contract : ContractDefinition) : Option (Except ExtractionError Layout × List Load) :=
  addVariablesWithin steps index locate contract.name ∅
    (contract.variables.filter (·.isStored)) []

section

variable {index : DeclarationIndex} {declared : Variable} {layout : Layout}

theorem pooled_occurringIds (index : DeclarationIndex) (declared : Variable) :
    Pooled (occurringIds index declared) (namesIn (declared :: indexedFields index)) :=
  fun name hname _ hid => List.mem_filterMap.2 ⟨name, hname, hid⟩

theorem work_empty {name : TypeName} (h : declared.typeName = some name) :
    WorkQueue.empty.work (occurringIds index declared) = workFor index name := by
  simp [WorkQueue.work, WorkQueue.empty, workFor, occurringIds, namesIn, rawIds, indexedFields, h]

/-- Loads the types of a variable, in as many steps as it takes. -/
def loadTypes (index : DeclarationIndex) (declared : Variable) (layout : Layout) :
    Except ExtractionError Layout := do
  let name ← typeNameOf declared
  let work ← (workFor index name).pushAll declared.name name.descendants
  recordAll index work layout

theorem exists_loadTypesWithin (index : DeclarationIndex) (declared : Variable) (layout : Layout) :
    ∃ queue taken, queue.Tracks (occurringIds index declared) taken ∧
      loadTypesWithin (stepBound index declared) index declared layout .empty =
        some (loadTypes index declared layout, queue) ∧
      (queue.waiting = [] ∨ ∃ error, loadTypes index declared layout = .error error) := by
  unfold loadTypesWithin loadTypes
  have hempty := WorkQueue.tracks_empty (occurringIds index declared)
  cases hname : typeNameOf declared with
  | error error => exact ⟨.empty, [], hempty, rfl, .inl rfl⟩
  | ok name =>
    have hpooled := pooled_occurringIds index declared
    have htypeName := typeNameOf_eq_ok_iff.1 hname
    have hindexed : Pooled (occurringIds index declared) (namesIn (indexedFields index)) :=
      fun sub hsub => hpooled sub (namesIn_subset (List.subset_cons_self _ _) hsub)
    have hroot : Pooled (occurringIds index declared) name.descendants := fun sub hsub =>
      hpooled sub (mem_namesIn_iff.2 ⟨declared, List.mem_cons_self, name, htypeName, hsub⟩)
    rw [ok_bind, ← work_empty htypeName]
    show ∃ queue taken, _ ∧ (enqueueAll declared.name name.descendants >>= fun _ =>
      drainWithin index (stepBound index declared) layout) WorkQueue.empty = _ ∧ _
    obtain ⟨queue, hqueue, ⟨_, hstep, hrun⟩ | ⟨error, hstep, hrun⟩⟩ :=
      follows_enqueueAll declared.name hroot .empty hempty
    · rw [BoundedRun.bind_of_ok hrun, onWork_eq_ok_iff.1 hstep, ok_bind]
      obtain ⟨after, taken, hafter, hdrain, hend⟩ :=
        exists_drainWithin hindexed layout hqueue (Nat.le_refl _)
      exact ⟨after, taken, hafter, hdrain, hend⟩
    · rw [BoundedRun.bind_of_error hrun, onWork_eq_error_iff.1 hstep, error_bind]
      exact ⟨queue, [], hqueue, rfl, .inr ⟨error, rfl⟩⟩

theorem Load.bounded_of_tracks {outcome : Except ExtractionError Layout} {queue : WorkQueue}
    {taken : List (String × TypeName)} (h : queue.Tracks (occurringIds index declared) taken)
    (hend : queue.waiting = [] ∨ ∃ error, outcome = .error error) :
    Load.Bounded index ⟨declared, outcome, queue⟩ where
  ends := hend
  once := by
    rw [h.entries]
    exact h.nodup.map (Option.some_injective String)
  occurs entry hentry := by
    have hmem := List.mem_map_of_mem (f := (·.2.descriptions.typeIdentifier)) hentry
    rw [h.entries] at hmem
    obtain ⟨raw, hraw, hid⟩ := List.mem_map.1 hmem
    exact ⟨raw, h.subset raw hraw, hid.symm⟩
  steps_le := by
    have hlength := h.length_le
    rw [← h.taken_eq] at hlength
    show queue.taken.length ≤ (occurringIds index declared).toFinset.card
    omega

/-- The loads so far have all come to an end. -/
def AllBounded (index : DeclarationIndex) (loads : List Load) : Prop :=
  ∀ load ∈ loads, load.Bounded index

theorem addVariableWithin_of_load {steps : Nat} {locate : Locator} {contract typeId : String}
    {outcome : Except ExtractionError Layout} {queue : WorkQueue} {loads : List Load}
    (htype : typeIdOf declared = .ok typeId)
    (hload : loadTypesWithin steps index declared
      (layout.addVariable ⟨contract, declared.name, typeId, locate declared⟩) .empty =
        some (outcome, queue)) :
    addVariableWithin steps index locate contract layout declared loads =
      some (outcome, loads ++ [⟨declared, outcome, queue⟩]) := by
  unfold addVariableWithin
  rw [htype]
  show (liftM (loadTypesWithin steps index declared _ .empty : Option _) >>= fun result => _ :
    BoundedRun ExtractionError (List Load) Layout) loads = _
  rw [hload]
  cases outcome <;> rfl

variable {loads : List Load}

theorem exists_addVariableWithin (hloads : AllBounded index loads) (locate : Locator)
    (contract : String) (layout : Layout) (declared : Variable) :
    ∃ after, AllBounded index after ∧
      addVariableWithin (stepBound index declared) index locate contract layout declared loads =
        some (addVariable index locate contract layout declared, after) := by
  unfold addVariable
  cases htype : typeIdOf declared with
  | error error =>
    refine ⟨loads, hloads, ?_⟩
    unfold addVariableWithin
    rw [htype]
    rfl
  | ok typeId =>
    obtain ⟨queue, taken, hqueue, hload, hend⟩ := exists_loadTypesWithin index declared
      (layout.addVariable ⟨contract, declared.name, typeId, locate declared⟩)
    refine ⟨_, ?_, addVariableWithin_of_load htype hload⟩
    intro load hmem
    rcases List.mem_append.1 hmem with hold | hnew
    · exact hloads load hold
    · rw [List.mem_singleton] at hnew
      exact hnew ▸ Load.bounded_of_tracks hqueue hend

theorem exists_addVariablesWithin (hloads : AllBounded index loads) (locate : Locator)
    (contract : String) (layout : Layout) (declared : List Variable) :
    ∃ after, AllBounded index after ∧
      addVariablesWithin (stepBound index) index locate contract layout declared loads =
        some (addVariables index locate contract layout declared, after) := by
  induction declared generalizing layout loads with
  | nil => exact ⟨loads, hloads, rfl⟩
  | cons first rest ih =>
    unfold addVariablesWithin addVariables
    obtain ⟨next, hnext, hrun⟩ := exists_addVariableWithin hloads locate contract layout first
    cases hfirst : addVariable index locate contract layout first with
    | error error =>
      rw [hfirst] at hrun
      rw [BoundedRun.bind_of_error hrun]
      exact ⟨next, hnext, rfl⟩
    | ok layout' =>
      rw [hfirst] at hrun
      rw [BoundedRun.bind_of_ok hrun, ok_bind]
      exact ih hnext layout'

end

/-- Extraction ends on every tree. Of each variable, the queue becomes empty or there is an error;
no identifier comes into it twice, and the steps are no more than the different identifiers in the
name of its type and in the fields of the structs in the index. -/
theorem extractWithin_ends (index : DeclarationIndex) (locate : Locator)
    (contract : ContractDefinition) :
    ∃ loads, extractWithin (stepBound index) index locate contract =
        some (extract index locate contract, loads) ∧
      ∀ load ∈ loads, load.Bounded index := by
  have hnone : AllBounded index [] := by
    intro load hload
    cases hload
  obtain ⟨loads, hloads, hrun⟩ := exists_addVariablesWithin hnone locate contract.name ∅
    (contract.variables.filter (·.isStored))
  exact ⟨loads, hrun, hloads⟩

/-- A struct that holds itself is loaded in three steps for either variable, which is as many as
there are identifiers. -/
theorem extractWithin_ends_nodes :
    ∃ loads, extractWithin (stepBound nodesIndex) nodesIndex Locator.raw nodes =
        some (extract nodesIndex Locator.raw nodes, loads) ∧
      (∀ load ∈ loads, load.Bounded nodesIndex) ∧
      loads.map (·.queue.taken.length) = [3, 3] ∧
      loads.map (fun load => stepBound nodesIndex load.declared) = [3, 3] := by
  obtain ⟨loads, hextract, hbounded⟩ := extractWithin_ends nodesIndex Locator.raw nodes
  have hcounts : (extractWithin (stepBound nodesIndex) nodesIndex Locator.raw nodes).map
      (fun result => result.2.map fun load =>
        (load.queue.taken.length, stepBound nodesIndex load.declared)) = some [(3, 3), (3, 3)] := by
    decide +kernel
  rw [hextract] at hcounts
  have hpairs := Option.some.inj hcounts
  refine ⟨loads, hextract, hbounded, ?_, ?_⟩
  · have hfst := congrArg (List.map Prod.fst) hpairs
    rwa [List.map_map] at hfst
  · have hsnd := congrArg (List.map Prod.snd) hpairs
    rwa [List.map_map] at hsnd

end StorageUpgrade.Extraction
