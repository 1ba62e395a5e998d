/-!
# Sorted dictionaries

Entries are kept in strict order of their keys, so two dictionaries with the same entries are
equal, whatever was put into them first.
-/

namespace StorageUpgrade

structure Dictionary (α : Type) where
  entries : List (String × α)
  sorted : entries.Pairwise (·.1 < ·.1)
  deriving DecidableEq

namespace Dictionary

variable {α : Type}

/-- Puts an entry at its place among sorted entries, over an entry of the same key. -/
def insertEntry (key : String) (value : α) : List (String × α) → List (String × α)
  | [] => [(key, value)]
  | (k, v) :: rest =>
    if key < k then (key, value) :: (k, v) :: rest
    else if key = k then (key, value) :: rest
    else (k, v) :: insertEntry key value rest

def lookup? (key : String) : List (String × α) → Option α
  | [] => none
  | (k, v) :: rest => if key = k then some v else lookup? key rest

theorem lt_of_mem_insertEntry {key bound : String} {value : α} {entries : List (String × α)}
    (hk : bound < key) (h : ∀ e ∈ entries, bound < e.1) :
    ∀ e ∈ insertEntry key value entries, bound < e.1 := by
  induction entries with
  | nil => simpa [insertEntry] using hk
  | cons entry rest ih =>
    obtain ⟨k, v⟩ := entry
    rw [List.forall_mem_cons] at h
    unfold insertEntry
    split
    · exact List.forall_mem_cons.2 ⟨hk, List.forall_mem_cons.2 h⟩
    · split
      · exact List.forall_mem_cons.2 ⟨hk, h.2⟩
      · exact List.forall_mem_cons.2 ⟨h.1, ih h.2⟩

theorem sorted_insertEntry (key : String) (value : α) {entries : List (String × α)}
    (h : entries.Pairwise (·.1 < ·.1)) :
    (insertEntry key value entries).Pairwise (·.1 < ·.1) := by
  induction entries with
  | nil => simp [insertEntry]
  | cons entry rest ih =>
    obtain ⟨k, v⟩ := entry
    rw [List.pairwise_cons] at h
    unfold insertEntry
    split
    next hlt =>
      refine List.pairwise_cons.2 ⟨?_, List.pairwise_cons.2 h⟩
      intro e he
      rcases List.mem_cons.1 he with rfl | he
      · exact hlt
      · exact String.lt_trans hlt (h.1 e he)
    next hge =>
      split
      next heq => exact List.pairwise_cons.2 ⟨heq ▸ h.1, h.2⟩
      next hne =>
        have hlt : k < key := Std.lt_of_le_of_ne (String.not_lt.1 hge) (Ne.symm hne)
        exact List.pairwise_cons.2 ⟨lt_of_mem_insertEntry hlt h.1, ih h.2⟩

theorem lookup?_insertEntry (key key' : String) (value : α) (entries : List (String × α)) :
    lookup? key' (insertEntry key value entries) =
      if key' = key then some value else lookup? key' entries := by
  fun_induction insertEntry key value entries with
  | case1 => simp [lookup?]
  | case2 k v rest _ => simp [lookup?]
  | case3 v rest _ => grind [lookup?]
  | case4 k v rest _ _ ih => grind [lookup?]

theorem mem_of_lookup? {key : String} {value : α} {entries : List (String × α)}
    (h : lookup? key entries = some value) : (key, value) ∈ entries := by
  fun_induction lookup? key entries with
  | case1 => cases h
  | case2 v rest => cases h; exact List.mem_cons_self
  | case3 k v rest _ ih => exact List.mem_cons_of_mem _ (ih h)

def empty : Dictionary α := ⟨[], .nil⟩

instance : EmptyCollection (Dictionary α) := ⟨empty⟩

def keys (d : Dictionary α) : List String := d.entries.map (·.1)

def size (d : Dictionary α) : Nat := d.entries.length

def get? (d : Dictionary α) (key : String) : Option α := lookup? key d.entries

def contains (d : Dictionary α) (key : String) : Bool := (d.get? key).isSome

/-- Puts a value under a key, in place of the value that the key has. -/
def insert (d : Dictionary α) (key : String) (value : α) : Dictionary α :=
  ⟨insertEntry key value d.entries, sorted_insertEntry key value d.sorted⟩

/-- Puts a value under a key that has none. -/
def insertNew (d : Dictionary α) (key : String) (value : α) : Dictionary α :=
  if d.contains key then d else d.insert key value

/-- The dictionary of the given entries; of two with one key the later stands. -/
def ofList (entries : List (String × α)) : Dictionary α :=
  entries.foldl (fun d e => d.insert e.1 e.2) ∅

@[ext]
theorem ext {d d' : Dictionary α} (h : d.entries = d'.entries) : d = d' := by
  cases d
  cases d'
  cases h
  rfl

theorem insertEntry_of_forall_lt {key : String} {value : α} {entries : List (String × α)}
    (h : ∀ e ∈ entries, e.1 < key) : insertEntry key value entries = entries ++ [(key, value)] := by
  induction entries with
  | nil => rfl
  | cons entry rest ih =>
    obtain ⟨k, v⟩ := entry
    rw [List.forall_mem_cons] at h
    have hge : ¬ key < k := String.lt_asymm h.1
    have hne : ¬ key = k := fun heq => String.lt_irrefl k (heq ▸ h.1)
    rw [insertEntry, if_neg hge, if_neg hne, ih h.2, List.cons_append]

theorem entries_foldl_insert {d : Dictionary α} {rest : List (String × α)}
    (h : (d.entries ++ rest).Pairwise (·.1 < ·.1)) :
    (rest.foldl (fun d e => d.insert e.1 e.2) d).entries = d.entries ++ rest := by
  induction rest generalizing d with
  | nil => exact (List.append_nil _).symm
  | cons entry rest ih =>
    have hlt : ∀ e ∈ d.entries, e.1 < entry.1 := fun e he =>
      (List.pairwise_append.1 h).2.2 e he entry List.mem_cons_self
    have hinsert : (d.insert entry.1 entry.2).entries = d.entries ++ [entry] :=
      insertEntry_of_forall_lt hlt
    have hsplit : d.entries ++ entry :: rest = (d.insert entry.1 entry.2).entries ++ rest := by
      rw [hinsert, List.append_assoc, List.singleton_append]
    rw [hsplit] at h ⊢
    exact ih h

/-- Entries that are sorted already make up a dictionary as they are. -/
theorem entries_ofList {entries : List (String × α)} (h : entries.Pairwise (·.1 < ·.1)) :
    (ofList entries).entries = entries := by
  unfold ofList
  rw [entries_foldl_insert]
  · rfl
  · exact h

@[simp]
theorem get?_insert (d : Dictionary α) (key key' : String) (value : α) :
    (d.insert key value).get? key' = if key' = key then some value else d.get? key' :=
  lookup?_insertEntry key key' value d.entries

theorem get?_foldl_insert_of_notMem {key : String} {entries : List (String × α)}
    (h : key ∉ entries.map (·.1)) (d : Dictionary α) :
    (entries.foldl (fun d e => d.insert e.1 e.2) d).get? key = d.get? key := by
  induction entries generalizing d with
  | nil => rfl
  | cons entry rest ih =>
    rw [List.map_cons, List.mem_cons, not_or] at h
    rw [List.foldl_cons, ih h.2, get?_insert, if_neg h.1]

theorem get?_foldl_insert_of_mem {key : String} {value : α} {entries : List (String × α)}
    (hkeys : (entries.map (·.1)).Nodup) (h : (key, value) ∈ entries) (d : Dictionary α) :
    (entries.foldl (fun d e => d.insert e.1 e.2) d).get? key = some value := by
  induction entries generalizing d with
  | nil => cases h
  | cons entry rest ih =>
    rw [List.map_cons, List.nodup_cons] at hkeys
    rw [List.foldl_cons]
    rcases List.mem_cons.1 h with rfl | h
    · rw [get?_foldl_insert_of_notMem hkeys.1, get?_insert, if_pos rfl]
    · exact ih hkeys.2 h _

/-- Where no key comes twice, every entry is found under its key. -/
theorem get?_ofList_of_mem {key : String} {value : α} {entries : List (String × α)}
    (hkeys : (entries.map (·.1)).Nodup) (h : (key, value) ∈ entries) :
    (ofList entries).get? key = some value :=
  get?_foldl_insert_of_mem hkeys h ∅

theorem nodup_keys (d : Dictionary α) : d.keys.Nodup := by
  refine List.pairwise_map.2 (d.sorted.imp ?_)
  intro e e' hlt heq
  rw [heq] at hlt
  exact String.lt_irrefl e'.1 hlt

theorem get?_insertNew (d : Dictionary α) (key key' : String) (value : α) :
    (d.insertNew key value).get? key' =
      (d.get? key').or (if key' = key then some value else none) := by
  unfold insertNew contains
  by_cases hk : key' = key
  · subst hk
    cases h : d.get? key' <;> simp [h]
  · cases h : d.get? key' <;> split <;> simp [h, hk]

end Dictionary

end StorageUpgrade
