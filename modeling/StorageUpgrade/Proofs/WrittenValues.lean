import StorageUpgrade.Json.Document
import StorageUpgrade.Proofs.WrittenTokens

/-!
# Written values are read back

The draft that is read from the tokens of a value is the draft of that value, and nothing of it is
left over. So a plain value, written in either layout, is read back as it was.
-/

namespace StorageUpgrade.Json

/-- No value begins with the end of an array. -/
theorem head?_tokens (v : Json) : ∃ token ∈ v.tokens.head?, token ≠ .closeArray := by
  cases v with
  | array items => cases items <;> exact ⟨_, rfl, nofun⟩
  | object fields => rcases fields with _ | ⟨⟨name, v⟩, fields⟩ <;> exact ⟨_, rfl, nofun⟩
  | _ => exact ⟨_, rfl, nofun⟩

theorem length_tokens_pos (v : Json) : 0 < v.tokens.length := by
  obtain ⟨token, htoken, -⟩ := v.head?_tokens
  exact List.length_pos_of_mem (List.mem_of_mem_head? htoken)

namespace Draft

section

variable {budget : Nat} {tokens rest : List Token} {item : Draft}

theorem read_openArray (budget : Nat) (h : tokens.head? ≠ some .closeArray) :
    read (budget + 1) (.openArray :: tokens) =
      (.array (readItems budget tokens).1, (readItems budget tokens).2) := by
  rw [read]
  intro rest hrest
  exact h (hrest ▸ rfl)

theorem read_openObject (budget : Nat) (name : Option String) (tokens : List Token) :
    read (budget + 1) (.openObject :: .string name :: tokens) =
      (.object (readFields budget (.string name :: tokens)).1,
        (readFields budget (.string name :: tokens)).2) := by
  rw [read]
  nofun

theorem readItems_comma (h : read budget tokens = (item, .comma :: rest)) :
    readItems (budget + 1) tokens =
      (item :: (readItems budget rest).1, (readItems budget rest).2) := by
  rw [readItems, h]

theorem readItems_close (h : read budget tokens = (item, .closeArray :: rest)) :
    readItems (budget + 1) tokens = ([item], rest) := by
  rw [readItems, h]

theorem readFields_comma (name : Option String) (h : read budget tokens = (item, .comma :: rest)) :
    readFields (budget + 1) (.string name :: .colon :: tokens) =
      ((name, item) :: (readFields budget rest).1, (readFields budget rest).2) := by
  rw [readFields, h]

theorem readFields_close (name : Option String)
    (h : read budget tokens = (item, .closeObject :: rest)) :
    readFields (budget + 1) (.string name :: .colon :: tokens) = ([(name, item)], rest) := by
  rw [readFields, h]

end

mutual

/-- A draft is read from the tokens of a value, whatever stands behind them. -/
theorem read_tokens (budget : Nat) (v : Json) (rest : List Token)
    (h : v.tokens.length ≤ budget) : read budget (v.tokens ++ rest) = (v.draft, rest) := by
  have hpos := v.length_tokens_pos
  match budget with
  | 0 => omega
  | budget + 1 =>
    match v with
    | .null | .bool _ | .integer _ | .decimal _ | .string _ => rfl
    | .array [] | .object [] => rfl
    | .array (v :: vs) =>
      have hitems := readItems_tokens budget v vs rest (Nat.le_of_succ_le_succ h)
      obtain ⟨token, htoken, hopen⟩ := v.head?_tokens
      have hhead : (v.tokens ++ itemTokens vs ++ rest).head? ≠ some .closeArray := by
        rw [List.append_assoc, List.head?_append, htoken]
        exact fun heq => hopen (Option.some.inj heq)
      have hread := read_openArray budget hhead
      rw [hitems] at hread
      exact hread
    | .object ((name, v) :: fields) =>
      have hfields := readFields_tokens budget name v fields rest (Nat.le_of_succ_le_succ h)
      have hread := read_openObject budget (some name)
        (.colon :: (v.tokens ++ fieldTokens fields ++ rest))
      rw [hfields] at hread
      exact hread

theorem readItems_tokens (budget : Nat) (v : Json) (vs : List Json) (rest : List Token)
    (h : (v.tokens ++ itemTokens vs).length ≤ budget) :
    readItems budget (v.tokens ++ itemTokens vs ++ rest) = (itemDrafts (v :: vs), rest) := by
  have hpos := v.length_tokens_pos
  rw [List.length_append] at h
  rw [List.append_assoc]
  match budget with
  | 0 => omega
  | budget + 1 =>
    match vs with
    | [] =>
      have hclose : (itemTokens []).length = 1 := rfl
      have hitem := read_tokens budget v (.closeArray :: rest) (by omega)
      exact readItems_close hitem
    | v' :: vs =>
      have hcomma : (itemTokens (v' :: vs)).length = (v'.tokens ++ itemTokens vs).length + 1 := rfl
      have hitem := read_tokens budget v (.comma :: (v'.tokens ++ itemTokens vs ++ rest))
        (by omega)
      have hitems := readItems_tokens budget v' vs rest (by omega)
      have hread := readItems_comma hitem
      rw [hitems] at hread
      exact hread

theorem readFields_tokens (budget : Nat) (name : String) (v : Json)
    (fields : List (String × Json)) (rest : List Token)
    (h : (.string (some name) :: .colon :: (v.tokens ++ fieldTokens fields)).length ≤ budget) :
    readFields budget (.string (some name) :: .colon :: (v.tokens ++ fieldTokens fields ++ rest)) =
      (fieldDrafts ((name, v) :: fields), rest) := by
  rw [List.length_cons, List.length_cons, List.length_append] at h
  rw [List.append_assoc]
  match budget with
  | 0 => omega
  | budget + 1 =>
    match fields with
    | [] =>
      have hitem := read_tokens budget v (.closeObject :: rest) (by omega)
      exact readFields_close (some name) hitem
    | (name', v') :: fields =>
      have hcomma : (fieldTokens ((name', v') :: fields)).length =
          (.string (some name') :: .colon :: (v'.tokens ++ fieldTokens fields)).length + 1 := rfl
      have hitem := read_tokens budget v (.comma :: .string (some name') :: .colon ::
        (v'.tokens ++ fieldTokens fields ++ rest)) (by omega)
      have hfields := readFields_tokens budget name' v' fields rest (by omega)
      have hread := readFields_comma (some name) hitem
      rw [hfields] at hread
      exact hread

end

/-- The draft of a text that a plain value is written as, with nothing behind it. -/
theorem ofText_write (style : Style) {v : Json} (h : v.isPlain = true) :
    ofText (String.ofList (v.write style 0 [])) = (v.draft, []) := by
  have htokens : v.tokens.length ≤ 2 * v.tokens.length + 1 := by omega
  have hread := read_tokens (2 * v.tokens.length + 1) v [] htokens
  rw [List.append_nil] at hread
  rw [ofText, String.toList_ofList, readAll_write style h]
  exact hread

end Draft

/-- What a document with a plain value is read as depends on the value alone. -/
theorem readDocument_write {α : Type} (value : Reader α) (style : Style) {v : Json}
    (h : v.isPlain = true) : readDocument value (String.ofList (v.write style 0 [])) =
      value (.passing documentLevels) v.draft := by
  unfold readDocument
  rw [Draft.ofText_write style h]
  change (value (.passing documentLevels) v.draft >>= fun a => pure a) = _
  exact bind_pure _

end StorageUpgrade.Json
