import StorageUpgrade.Proofs.EscapedText
import StorageUpgrade.Proofs.MarkedReferences

/-!
# Identifiers that are normalized already

A normalized identifier has no escapes left. If it names no pointer into storage either, nothing is
changed by normalizing it again, and it has the structure of the identifier that it comes from.
-/

namespace StorageUpgrade

namespace Text

theorem mem_of_mem_replaceFrom {old new text : List Char} {skip : Nat} {c : Char}
    (h : c ∈ replaceFrom old new skip text) : c ∈ new ∨ c ∈ text := by
  fun_induction replaceFrom old new skip text with
  | case1 => cases h
  | case2 d rest skip ih => exact (ih h).imp_right (List.mem_cons_of_mem d)
  | case3 d rest hold ih =>
    rcases List.mem_append.1 h with hnew | hrest
    · exact .inl hnew
    · exact (ih hrest).imp_right (List.mem_cons_of_mem d)
  | case4 d rest hold ih =>
    rcases List.mem_cons.1 h with heq | hrest
    · exact .inr (heq ▸ List.mem_cons_self)
    · exact (ih hrest).imp_right (List.mem_cons_of_mem d)

/-- Nothing is replaced in a text in which the word does not occur. -/
theorem replace_eq_self {old text : List Char} (new : List Char) (h : ¬ old <:+: text) :
    replace old new text = text := by
  induction text with
  | nil => rfl
  | cons c text ih =>
    have hfront : ¬ old <+: c :: text := fun hprefix => h hprefix.isInfix
    have hrest : ¬ old <:+: text := fun hinfix => h (List.infix_cons hinfix)
    rw [replace_cons new c text hfront, ih hrest]

/-- Text in which no occurrence begins is passed over. -/
theorem replace_append_of_notMem {old left : List Char} (hold : old ≠ [])
    (h : ∀ c ∈ old.head?, c ∉ left) (new right : List Char) :
    replace old new (left ++ right) = left ++ replace old new right := by
  induction left with
  | nil => rfl
  | cons d left ih =>
    obtain ⟨c, word, rfl⟩ := List.exists_cons_of_ne_nil hold
    have hc : c ∉ d :: left := h c rfl
    have hfront : ¬ c :: word <+: d :: (left ++ right) := fun hprefix =>
      hc (List.mem_cons.2 (.inl (List.cons_prefix_cons.1 hprefix).1))
    have hleft : ∀ b ∈ (c :: word).head?, b ∉ left := by
      rintro b ⟨⟩ hb
      exact hc (List.mem_cons_of_mem d hb)
    rw [List.cons_append, replace_cons new d _ hfront, ih hleft, List.cons_append]

end Text

namespace Identifier

theorem mapDecoded_eq_ok_iff {f : List Char → List Char} {raw text : String} :
    mapDecoded f raw = .ok text ↔
      ∃ decoded, Escape.decode raw.toList = .ok decoded ∧ f decoded = text.toList := by
  unfold mapDecoded
  cases Escape.decode raw.toList with
  | error position => simp
  | ok decoded => simp [String.ofList_eq]

theorem decode_eq_ok_iff_toList {raw text : String} :
    decode raw = .ok text ↔ Escape.decode raw.toList = .ok text.toList := by
  simp [decode, mapDecoded_eq_ok_iff]

theorem normalize_eq_ok_iff {raw text : String} : normalize raw = .ok text ↔
    ∃ decoded, Escape.decode raw.toList = .ok decoded ∧
      Text.replace storagePointerWord storageWord decoded = text.toList :=
  mapDecoded_eq_ok_iff

theorem stabilize_eq_ok_iff {raw text : String} : stabilize raw = .ok text ↔
    ∃ decoded, Escape.decode raw.toList = .ok decoded ∧
      Stable.eraseNumbers decoded = text.toList := by
  rw [stabilize_eq_mapDecoded, mapDecoded_eq_ok_iff]

theorem dollar_not_mem_of_normalize {raw text : String} (h : normalize raw = .ok text) :
    '$' ∉ text.toList := by
  obtain ⟨decoded, hdecode, hreplace⟩ := normalize_eq_ok_iff.1 h
  have hdecoded : '$' ∉ decoded := Escape.dollar_not_mem_of_decodeFrom hdecode
  have hword : '$' ∉ storageWord := by decide
  intro hmem
  rw [← hreplace] at hmem
  exact (Text.mem_of_mem_replaceFrom hmem).elim hword hdecoded

/-- Text without escapes and pointers is normalized. -/
theorem normalize_eq_self {text : String} (hescape : '$' ∉ text.toList)
    (hpointer : ¬ storagePointerWord <:+: text.toList) : normalize text = .ok text := by
  have hdecode : Escape.decode text.toList = .ok text.toList :=
    Escape.decodeFrom_of_dollar_not_mem hescape 0
  exact normalize_eq_ok_iff.2 ⟨_, hdecode, Text.replace_eq_self storageWord hpointer⟩

/-- A normalized identifier that names no pointer into storage stays as it is. -/
theorem normalize_of_normalize {raw text : String} (h : normalize raw = .ok text)
    (hpointer : ¬ storagePointerWord <:+: text.toList) : normalize text = .ok text :=
  normalize_eq_self (dollar_not_mem_of_normalize h) hpointer

theorem parse_eq_ok_iff {raw : String} {expr : TypeExpr} : parse raw = .ok expr ↔
    ∃ text, normalize raw = .ok text ∧ TypeExpr.read? text.toList = some (expr, []) := by
  unfold parse
  cases normalize raw with
  | error cause => simp
  | ok text =>
    rw [ok_bind]
    split <;> simp_all

/-- The structure of an identifier is that of its normalized form. -/
theorem parse_of_normalize {raw text : String} (h : normalize raw = .ok text)
    (hpointer : ¬ storagePointerWord <:+: text.toList) : parse text = parse raw := by
  unfold parse
  rw [h, normalize_of_normalize h hpointer]

end Identifier

end StorageUpgrade
