import StorageUpgrade.Json.Record
import StorageUpgrade.Outcome

/-!
# Values that readers take

A reader takes a value for what it stands for wherever the containers of the value may lie within
each other. There is one lemma for each way in which a reader is put together, so that the reader of
a format can be followed along its definition. Nothing is said here of values that are refused, and
of drafts that are not those of a value.
-/

namespace StorageUpgrade

theorem mapM_eq_ok {ε α β : Type} {f : α → Except ε β} {g : α → β} {as : List α}
    (h : ∀ a ∈ as, f a = .ok (g a)) : as.mapM f = .ok (as.map g) := by
  induction as with
  | nil => rfl
  | cons a as ih =>
    rw [List.forall_mem_cons] at h
    rw [List.mapM_cons, h.1, ok_bind, ih h.2]
    rfl

namespace Json

variable {α β : Type}

/-! ## Drafts of values -/

theorem itemDrafts_eq_map (vs : List Json) : itemDrafts vs = vs.map draft := by
  induction vs with
  | nil => rfl
  | cons v vs ih => rw [itemDrafts, ih, List.map_cons]

theorem fieldDrafts_eq_map (fields : List (String × Json)) :
    fieldDrafts fields = fields.map fun (name, v) => (some name, v.draft) := by
  induction fields with
  | nil => rfl
  | cons field fields ih => rw [fieldDrafts, ih, List.map_cons]

theorem Draft.itemLevels_le {drafts : List Draft} {n : Nat} (h : ∀ v ∈ drafts, v.levels ≤ n) :
    itemLevels drafts ≤ n := by
  induction drafts with
  | nil => exact Nat.zero_le n
  | cons v drafts ih =>
    rw [List.forall_mem_cons] at h
    exact Nat.max_le.2 ⟨h.1, ih h.2⟩

theorem levels_array_le {write : α → Json} {as : List α} {n : Nat}
    (h : ∀ a ∈ as, (write a).draft.levels ≤ n) : (array (as.map write)).draft.levels ≤ n + 1 := by
  have hitems : Draft.itemLevels (itemDrafts (as.map write)) ≤ n := by
    refine Draft.itemLevels_le fun draft hdraft => ?_
    rw [itemDrafts_eq_map, List.map_map] at hdraft
    obtain ⟨a, ha, rfl⟩ := List.mem_map.1 hdraft
    exact h a ha
  change 1 + Draft.itemLevels (itemDrafts (as.map write)) ≤ n + 1
  omega

theorem levels_array (items : List Json) :
    (array items).draft.levels = Draft.itemLevels (itemDrafts items) + 1 :=
  Nat.add_comm _ _

theorem levels_object (fields : List (String × Json)) :
    (object fields).draft.levels = Draft.fieldLevels (fieldDrafts fields) + 1 :=
  Nat.add_comm _ _

theorem levels_lt_of_mem_items {v : Json} {items : List Json} (h : v ∈ items) :
    v.draft.levels < (array items).draft.levels := by
  rw [levels_array]
  induction items with
  | nil => cases h
  | cons first items ih =>
    rw [itemDrafts, Draft.itemLevels]
    rcases List.mem_cons.1 h with rfl | h
    · omega
    · have hlt := ih h
      omega

theorem levels_lt_of_mem_fields {name : String} {v : Json} {fields : List (String × Json)}
    (h : (name, v) ∈ fields) : v.draft.levels < (object fields).draft.levels := by
  rw [levels_object]
  induction fields with
  | nil => cases h
  | cons first fields ih =>
    rw [fieldDrafts, Draft.fieldLevels]
    rcases List.mem_cons.1 h with rfl | h
    · show v.draft.levels < max v.draft.levels _ + 1
      omega
    · have hlt := ih h
      omega

mutual

/-- Nothing of a value goes wrong. -/
theorem isComplete_draft (v : Json) : v.draft.isComplete = true := by
  cases v with
  | array items => exact itemsComplete_itemDrafts items
  | object fields => exact fieldsComplete_fieldDrafts fields
  | _ => rfl

theorem itemsComplete_itemDrafts (vs : List Json) :
    Draft.itemsComplete (itemDrafts vs) = true := by
  cases vs with
  | nil => rfl
  | cons v vs =>
    exact Bool.and_eq_true_iff.2 ⟨isComplete_draft v, itemsComplete_itemDrafts vs⟩

theorem fieldsComplete_fieldDrafts (fields : List (String × Json)) :
    Draft.fieldsComplete (fieldDrafts fields) = true := by
  match fields with
  | [] => rfl
  | (name, v) :: fields =>
    exact Bool.and_eq_true_iff.2 ⟨isComplete_draft v, fieldsComplete_fieldDrafts fields⟩

end

/-! ## Levels that are allowed -/

/-- Whether so many containers may lie within each other from here on. -/
def Setting.Allows : Setting → Nat → Prop
  | passing levels, n => n ≤ levels
  | held, _ => True

section

variable {setting : Setting} {n m : Nat}

theorem Setting.Allows.mono (h : setting.Allows m) (hle : n ≤ m) : setting.Allows n := by
  cases setting with
  | passing levels => exact Nat.le_trans hle h
  | held => trivial

theorem Setting.Allows.enter (h : setting.Allows (n + 1)) :
    ∃ inner, setting.enter = .ok inner ∧ inner.Allows n := by
  cases setting with
  | passing levels =>
    cases levels with
    | zero => cases h
    | succ levels => exact ⟨passing levels, rfl, Nat.le_of_succ_le_succ h⟩
  | held => exact ⟨held, rfl, trivial⟩

theorem Setting.Allows.accept {v : Json} (h : setting.Allows n) (hlevels : v.draft.levels ≤ n) :
    setting.accept v.draft = .ok () := by
  cases setting with
  | passing levels => exact accept_draft (Nat.le_trans hlevels h)
  | held => rfl

end

/-! ## Readers -/

/-- A reader takes a value for `a` wherever `levels` containers may lie within each other. -/
def Reader.Takes (value : Reader α) (levels : Nat) (v : Json) (a : α) : Prop :=
  ∀ setting : Setting, setting.Allows levels → value setting v.draft = .ok a

namespace Reader

section

variable {value : Reader α} {n : Nat} {v : Json} {a : α}

theorem takes_string (n : Nat) (text : String) : string.Takes n (.string text) text :=
  fun _ _ => rfl

theorem takes_bool (n : Nat) (b : Bool) : bool.Takes n (.bool b) b :=
  fun _ _ => rfl

theorem takes_int64 {number : Int} (n : Nat)
    (h : -Int.pow 2 63 ≤ number ∧ number < Int.pow 2 63) :
    int64.Takes n (.integer number) number :=
  fun _ _ => if_pos h

theorem takes_choice {choices : List (String × α)} {name : String} (n : Nat)
    (h : choices.lookup name = some a) : (choice choices).Takes n (.string name) a := by
  intro setting hallows
  show chosen choices name = .ok a
  rw [chosen, h]

theorem takes_null (value : Reader α) (n : Nat) : (nullable value).Takes n .null none :=
  fun _ _ => rfl

theorem Takes.mono {m : Nat} (h : value.Takes n v a) (hle : n ≤ m) : value.Takes m v a :=
  fun setting hallows => h setting (hallows.mono hle)

theorem Takes.map (h : value.Takes n v a) (f : α → β) : (value.map f).Takes n v (f a) := by
  intro setting hallows
  rw [Reader.map, h setting hallows]
  rfl

theorem takes_list {write : α → Json} {as : List α}
    (h : ∀ a ∈ as, value.Takes n (write a) a) :
    (list value).Takes (n + 1) (.array (as.map write)) as := by
  intro setting hallows
  obtain ⟨inner, henter, hinner⟩ := hallows.enter
  have hitems : as.mapM (fun a => value inner (write a).draft) = .ok (as.map id) :=
    mapM_eq_ok fun a ha => h a ha inner hinner
  rw [List.map_id] at hitems
  rw [draft, itemDrafts_eq_map, list, henter, ok_bind, List.map_map, List.mapM_map]
  exact hitems

theorem takes_entries {write : β → Json} {g : β → α} {entries : List (String × β)}
    (h : ∀ entry ∈ entries, value.Takes n (write entry.2) (g entry.2)) :
    (Reader.entries value).Takes (n + 1)
      (.object (entries.map fun (key, b) => (key, write b)))
      (entries.map fun (key, b) => (key, g b)) := by
  intro setting hallows
  obtain ⟨inner, henter, hinner⟩ := hallows.enter
  rw [draft, fieldDrafts_eq_map, Reader.entries, henter, ok_bind, List.map_map, List.mapM_map]
  refine mapM_eq_ok fun entry hentry => ?_
  change (value inner (write entry.2).draft).map _ = _
  rw [h entry hentry inner hinner]
  rfl

theorem Takes.nullable (h : value.Takes n v a) (hnull : v.draft ≠ .null) :
    (nullable value).Takes n v (some a) := by
  intro setting hallows
  rw [Reader.nullable, h setting hallows]
  · rfl
  · exact hnull

theorem Takes.either (h : value.Takes n v a) (hlevels : v.draft.levels ≤ n) (other : Reader α) :
    (either value other).Takes n v a := by
  intro setting hallows
  rw [Reader.either, whole, hallows.accept hlevels, ok_bind, h .held trivial]

theorem Takes.either_second {first : Reader α} {error : DocumentError}
    (hfirst : first .held v.draft = .error error) (h : value.Takes n v a)
    (hlevels : v.draft.levels ≤ n) : (Reader.either first value).Takes n v a := by
  intro setting hallows
  rw [Reader.either, whole, hallows.accept hlevels, ok_bind, hfirst]
  exact h .held trivial

end

end Reader

/-! ## Records -/

/-- A reader of fields takes those that are given by their names for `a`. -/
def FieldReader.Takes (fields : FieldReader α) (levels : Nat) (given : List (String × Json))
    (a : α) : Prop :=
  ∀ setting index, Setting.Allows setting levels →
    fields.read setting index (.named (fieldDrafts given)) = .ok a

section

variable {n : Nat} {given : List (String × Json)} {name : String} {value : Reader α} {v : Json}
  {a : α}

theorem Fields.find?_fieldDrafts (name : String) (given : List (String × Json)) :
    (Fields.find? name (fieldDrafts given)).map (·.1) = (given.lookup name).map draft := by
  unfold Fields.find?
  generalize 0 = start
  induction given generalizing start with
  | nil => rfl
  | cons field given ih =>
    obtain ⟨other, v⟩ := field
    rw [fieldDrafts, List.zipIdx_cons]
    by_cases hname : other = name
    · subst hname
      rw [List.find?_cons_of_pos (by simp), List.lookup_cons_self]
      rfl
    · have hne : (name == other) = false := beq_false_of_ne fun heq => hname heq.symm
      rw [List.find?_cons_of_neg (by simpa using hname), ih (start + 1), List.lookup_cons, hne]

theorem FieldReader.takes_field {unnamed left : Option α} (hgiven : given.lookup name = some v)
    (h : value.Takes n v a) : (field name unnamed left value).Takes n given a := by
  intro setting index hallows
  have hfind := Fields.find?_fieldDrafts name given
  rw [hgiven, Option.map_some, Option.map_eq_some_iff] at hfind
  obtain ⟨⟨_, place⟩, hfind, rfl⟩ := hfind
  simp only [field, hfind, h setting hallows]
  rfl

theorem FieldReader.takes_missing {left : Option α} (hgiven : given.lookup name = none) (n : Nat) :
    (field name (some a) left value).Takes n given a := by
  intro setting index hallows
  have hfind := Fields.find?_fieldDrafts name given
  rw [hgiven, Option.map_none, Option.map_eq_none_iff] at hfind
  simp only [field, hfind]
  rfl

theorem FieldReader.Takes.map {fields : FieldReader α} (h : fields.Takes n given a) (f : α → β) :
    (f <$> fields).Takes n given (f a) := by
  intro setting index hallows
  change (fields.read setting index _).map f = _
  rw [h setting index hallows]
  rfl

theorem FieldReader.Takes.seq {fields : FieldReader (α → β)} {more : FieldReader α} {f : α → β}
    (h : fields.Takes n given f) (hmore : more.Takes n given a) :
    (fields <*> more).Takes n given (f a) := by
  intro setting index hallows
  change both id (fields.read setting index _) (more.read setting _ _) = _
  rw [h setting index hallows, hmore setting _ hallows]
  rfl

/-- The names of an object are those of a record, or others that are passed over. -/
theorem Fields.checkNames_fieldDrafts (known : List String) {place : Nat} {seen : List String}
    (hnames : (given.map (·.1)).Nodup) (hseen : ∀ field ∈ given, field.1 ∉ seen) :
    Fields.checkNames known place seen (fieldDrafts given) = .ok () := by
  induction given generalizing place seen with
  | nil => rfl
  | cons field given ih =>
    obtain ⟨name, v⟩ := field
    rw [List.map_cons, List.nodup_cons] at hnames
    rw [List.forall_mem_cons] at hseen
    rw [fieldDrafts, checkNames]
    by_cases hknown : name ∈ known
    · rw [if_pos hknown, if_neg hseen.1]
      refine ih hnames.2 fun field hfield hmem => ?_
      rcases List.mem_cons.1 hmem with heq | hmem
      · have hname : field.1 ∈ given.map (·.1) := List.mem_map_of_mem hfield
        exact hnames.1 (heq ▸ hname)
      · exact hseen.2 field hfield hmem
    · rw [if_neg hknown, if_pos (isComplete_draft v)]
      exact ih hnames.2 hseen.2

theorem FieldReader.Takes.run {fields : FieldReader α} (h : fields.Takes n given a)
    (hnames : (given.map (·.1)).Nodup) {setting : Setting} (hallows : setting.Allows n) :
    fields.run setting (.named (fieldDrafts given)) = .ok a := by
  rw [FieldReader.run, h setting 0 hallows, Fields.check,
    Fields.checkNames_fieldDrafts _ hnames (by simp)]
  rfl

/-- A record is read from an object that has all its fields and no name twice. -/
theorem Reader.takes_record {fields : FieldReader α} (h : fields.Takes n given a)
    (hnames : (given.map (·.1)).Nodup) :
    (Reader.record fields).Takes (n + 1) (.object given) a := by
  intro setting hallows
  obtain ⟨inner, henter, hinner⟩ := hallows.enter
  rw [draft, Reader.record, henter, ok_bind]
  exact h.run hnames hinner

/-! ## Values of any depth -/

/-- A reader takes a value for `a` wherever the value may stand at all. -/
def Reader.Recovers (value : Reader α) (v : Json) (a : α) : Prop := value.Takes v.draft.levels v a

theorem Reader.recovers_list {write : α → Json} {as : List α}
    (h : ∀ a ∈ as, value.Recovers (write a) a) :
    (Reader.list value).Recovers (.array (as.map write)) as := by
  unfold Reader.Recovers
  rw [levels_array]
  apply Reader.takes_list
  intro a ha
  have hlt := levels_lt_of_mem_items (List.mem_map_of_mem (f := write) ha)
  rw [levels_array] at hlt
  exact (h a ha).mono (Nat.le_of_lt_succ hlt)

theorem Reader.recovers_record {fields : FieldReader α}
    (h : fields.Takes (Draft.fieldLevels (fieldDrafts given)) given a)
    (hnames : (given.map (·.1)).Nodup) : (Reader.record fields).Recovers (.object given) a := by
  unfold Reader.Recovers
  rw [levels_object]
  exact Reader.takes_record h hnames

/-! ## Records of several kinds -/

theorem Kinds.ofFields_fieldDrafts {kinds : Kinds α} {tag : String} {setting : Setting}
    (fields : FieldReader α) (hnames : tag ∉ given.map (·.1))
    (haccept : ∀ field ∈ given, setting.accept field.2.draft = .ok ()) :
    kinds.ofFields tag setting (some fields) (fieldDrafts given) = .ok fields := by
  induction given with
  | nil => rfl
  | cons field given ih =>
    obtain ⟨name, v⟩ := field
    rw [List.map_cons, List.mem_cons, not_or] at hnames
    rw [List.forall_mem_cons] at haccept
    have hname : name ≠ tag := fun heq => hnames.1 heq.symm
    rw [fieldDrafts, ofFields, if_neg hname, haccept.1, ok_bind]
    exact ih hnames.2 haccept.2

/-- A record with its kind in front is read as one of that kind. It is taken in first, so behind
that nothing is asked of the levels of its fields. -/
theorem Reader.recovers_tagged {kinds : Kinds α} {tag kind : String} {fields : FieldReader α}
    (hkind : (kinds.known.lookup kind).or kinds.other = some fields)
    (h : fields.Takes n ((tag, .string kind) :: given) a)
    (hnames : (tag :: given.map (·.1)).Nodup) :
    (Reader.tagged tag kinds).Recovers (.object ((tag, .string kind) :: given)) a := by
  intro setting hallows
  rw [levels_object] at hallows
  obtain ⟨inner, henter, hinner⟩ := hallows.enter
  have hkind' : kinds.ofFields tag inner none (fieldDrafts ((tag, .string kind) :: given)) =
      .ok fields := by
    have htag : kinds.ofTag inner (draft (.string kind)) = .ok fields := by
      show Kinds.ofTag.orError ((kinds.known.lookup kind).or kinds.other) = .ok fields
      rw [hkind]
      rfl
    rw [fieldDrafts, Kinds.ofFields, if_pos rfl]
    show (kinds.ofTag inner (draft (.string kind)) >>= _) = _
    rw [htag, ok_bind]
    apply Kinds.ofFields_fieldDrafts fields (List.nodup_cons.1 hnames).1
    intro field hfield
    apply hinner.accept
    have hlt := levels_lt_of_mem_fields (List.mem_cons_of_mem (tag, .string kind) hfield)
    rw [levels_object] at hlt
    exact Nat.le_of_lt_succ hlt
  rw [draft, Reader.tagged, henter, ok_bind, hkind', ok_bind]
  exact h.run hnames trivial

end

end Json

end StorageUpgrade
