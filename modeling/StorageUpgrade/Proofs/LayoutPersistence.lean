import StorageUpgrade.Layout.Document
import StorageUpgrade.Proofs.ReadValues
import StorageUpgrade.Proofs.WrittenValues

/-!
# Layouts that are kept as documents

A layout is read back from the document that it is written as, whatever its strings are and whether
or not its identifiers mean anything. The one thing that a document does not tell apart is an enum
without names and a struct without fields. Documents that were written otherwise are not looked at
here.
-/

namespace StorageUpgrade

open Json (FieldReader Reader)

/-! ## What is read back -/

/-- An enum without names is written like a struct without fields, and read as one. -/
def Members.asRead : Members String → Members String
  | enum [] => struct []
  | members => members

def TypeEntry.asRead (entry : TypeEntry) : TypeEntry :=
  { entry with members := entry.members.map Members.asRead }

def Dictionary.mapValues {α β : Type} (f : α → β) (d : Dictionary α) : Dictionary β :=
  ⟨d.entries.map fun (key, value) => (key, f value), List.pairwise_map.2 d.sorted⟩

def Layout.asRead (layout : Layout) : Layout :=
  { layout with types := layout.types.mapValues TypeEntry.asRead }

theorem Members.asRead_eq_self_iff {members : Members String} :
    members.asRead = members ↔ members ≠ .enum [] := by
  unfold asRead
  split
  next => simp
  next hne => simpa using hne

theorem TypeEntry.asRead_eq_self_iff {entry : TypeEntry} :
    entry.asRead = entry ↔ entry.members ≠ some (.enum []) := by
  obtain ⟨label, _ | members⟩ := entry
  · simp [asRead]
  · simp [asRead, Members.asRead_eq_self_iff]

theorem Dictionary.mapValues_eq_self_iff {α : Type} {f : α → α} {d : Dictionary α} :
    d.mapValues f = d ↔ ∀ entry ∈ d.entries, f entry.2 = entry.2 := by
  have hentries : d.mapValues f = d ↔ (d.mapValues f).entries = d.entries.map id := by
    rw [List.map_id]
    exact ⟨congrArg Dictionary.entries, Dictionary.ext⟩
  rw [hentries, mapValues, List.map_inj_left]
  refine forall_congr' fun entry => imp_congr_right fun _ => ?_
  exact ⟨congrArg Prod.snd, fun h => Prod.ext rfl h⟩

/-- A layout is left as it is unless it has an enum without names. -/
theorem Layout.asRead_eq_self_iff {layout : Layout} :
    layout.asRead = layout ↔
      ∀ entry ∈ layout.types.entries, entry.2.members ≠ some (.enum []) := by
  have htypes : layout.asRead = layout ↔
      layout.types.mapValues TypeEntry.asRead = layout.types :=
    ⟨congrArg Layout.types, congrArg (Layout.mk layout.stored)⟩
  rw [htypes, Dictionary.mapValues_eq_self_iff]
  exact forall_congr' fun entry => imp_congr_right fun _ => TypeEntry.asRead_eq_self_iff

/-! ## Members and entries -/

theorem Member.takes (member : Member String) : Member.reader.Takes 1 member.toJson member := by
  have hnames : ["label", "type"].Nodup := by decide
  have hlabel := Reader.takes_string 0 member.label
  have htype := Reader.takes_string 0 member.type
  exact Reader.takes_record (((FieldReader.takes_field rfl hlabel).map mk).seq
    (FieldReader.takes_field rfl htype)) hnames

theorem Members.levels_toJson_le (members : Members String) :
    members.toJson.draft.levels ≤ 2 := by
  cases members with
  | struct fields => exact Json.levels_array_le fun _ _ => Nat.le_refl 1
  | enum names => exact Json.levels_array_le fun _ _ => Nat.zero_le 1

/-- Members are read as those of a struct if they can be, so names are read as such unless there are
none. -/
theorem Members.takes (members : Members String) :
    Members.reader.Takes 2 members.toJson members.asRead := by
  have hlevels := members.levels_toJson_le
  have hfields : ∀ fields, (Reader.list Member.reader).Takes 2 (struct fields).toJson fields :=
    fun fields => Reader.takes_list fun member _ => member.takes
  have hnames : ∀ names, (Reader.list .string).Takes 2 (enum names).toJson names :=
    fun names => Reader.takes_list fun name _ => Reader.takes_string 1 name
  match members with
  | struct fields => exact ((hfields fields).map struct).either hlevels _
  | enum [] => exact ((hfields []).map struct).either hlevels _
  | enum (name :: names) => exact ((hnames (name :: names)).map enum).either_second rfl hlevels

theorem TypeEntry.takes (entry : TypeEntry) :
    TypeEntry.reader.Takes 3 entry.toJson entry.asRead := by
  obtain ⟨label, members⟩ := entry
  have hlabel := Reader.takes_string 2 label
  cases members with
  | none =>
    have hnames : ["label"].Nodup := by decide
    exact Reader.takes_record (((FieldReader.takes_field rfl hlabel).map mk).seq
      (FieldReader.takes_missing rfl 2)) hnames
  | some members =>
    have hnames : ["label", "members"].Nodup := by decide
    have hnull : members.toJson.draft ≠ .null := by cases members <;> nofun
    have hmembers := members.takes.nullable hnull
    exact Reader.takes_record (((FieldReader.takes_field rfl hlabel).map mk).seq
      (FieldReader.takes_field rfl hmembers)) hnames

theorem StoredVariable.takes (stored : StoredVariable) :
    StoredVariable.reader.Takes 1 stored.toJson stored := by
  have hnames : ["contract", "label", "type", "src"].Nodup := by decide
  have hcontract := Reader.takes_string 0 stored.contract
  have hlabel := Reader.takes_string 0 stored.label
  have htype := Reader.takes_string 0 stored.typeId
  have hsrc := Reader.takes_string 0 stored.src
  exact Reader.takes_record (((((FieldReader.takes_field rfl hcontract).map mk).seq
    (FieldReader.takes_field rfl hlabel)).seq (FieldReader.takes_field rfl htype)).seq
      (FieldReader.takes_field rfl hsrc)) hnames

/-! ## Layouts -/

theorem Dictionary.takes {α : Type} {value : Reader α} {write : α → Json} {g : α → α}
    {n : Nat} (d : Dictionary α)
    (h : ∀ entry ∈ d.entries, value.Takes n (write entry.2) (g entry.2)) :
    (Dictionary.reader value).Takes (n + 1) (d.toJson write) (d.mapValues g) := by
  have hentries := (Reader.takes_entries h).map Dictionary.ofList
  have hsorted : Dictionary.ofList (d.mapValues g).entries = d.mapValues g :=
    Dictionary.ext (Dictionary.entries_ofList (d.mapValues g).sorted)
  exact hsorted ▸ hentries

theorem Layout.takes (layout : Layout) : Layout.reader.Takes 5 layout.toJson layout.asRead := by
  have hnames : ["storage", "types"].Nodup := by decide
  have hlevels : 2 ≤ 4 := by decide
  have hstored := Reader.takes_list fun stored (_ : stored ∈ layout.stored) => stored.takes
  have htypes := layout.types.takes fun entry _ => entry.2.takes
  exact Reader.takes_record (((FieldReader.takes_field rfl (hstored.mono hlevels)).map mk).seq
    (FieldReader.takes_field rfl htypes)) hnames

theorem TypeEntry.isPlain_toJson (entry : TypeEntry) : entry.toJson.isPlain = true := by
  obtain ⟨label, _ | members⟩ := entry
  · rfl
  · have hmembers : members.toJson.isPlain = true := by
      cases members with
      | struct fields => exact Json.isPlain_array fun _ _ => rfl
      | enum names => exact Json.isPlain_array fun _ _ => rfl
    have hlabel : (Json.string label).isPlain = true := rfl
    exact Json.isPlain_object (by simp [hlabel, hmembers])

theorem Layout.isPlain_toJson (layout : Layout) : layout.toJson.isPlain = true := by
  have hstored : (Json.array (layout.stored.map StoredVariable.toJson)).isPlain = true :=
    Json.isPlain_array fun _ _ => rfl
  have htypes : (layout.types.toJson TypeEntry.toJson).isPlain = true := by
    refine Json.isPlain_object fun field hfield => ?_
    obtain ⟨entry, -, rfl⟩ := List.mem_map.1 hfield
    exact entry.2.isPlain_toJson
  exact Json.isPlain_object (by simp [hstored, htypes])

/-- The document of a layout is read, and gives the layout back with nothing changed but enums
without names. -/
theorem Layout.ofDocument_toDocument (layout : Layout) :
    Layout.ofDocument layout.toDocument = .ok layout.asRead ∧
      (Layout.ofDocument layout.toDocument = .ok layout ↔
        ∀ entry ∈ layout.types.entries, entry.2.members ≠ some (.enum [])) := by
  have hlevels : Json.Setting.Allows (.passing Json.documentLevels) 5 := by
    show 5 ≤ 127
    decide
  have hread : Layout.ofDocument layout.toDocument = .ok layout.asRead := by
    unfold ofDocument toDocument Json.indented
    rw [Json.readDocument_write Layout.reader .indented layout.isPlain_toJson]
    exact layout.takes _ hlevels
  refine ⟨hread, ?_⟩
  rw [hread, Except.ok.injEq]
  exact asRead_eq_self_iff

/-- A label with a quote, a control character and a character beyond ASCII. -/
example :
    let layout : Members String → Layout := fun members =>
      ⟨[], .ofList [("t_enum(E)2", ⟨"\"é\u0001", some members⟩)]⟩
    (Layout.ofDocument (layout (.enum [])).toDocument).toOption = some (layout (.struct [])) := by
  decide +kernel

end StorageUpgrade
