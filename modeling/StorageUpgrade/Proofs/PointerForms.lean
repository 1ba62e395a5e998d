import StorageUpgrade.Proofs.DecodedText
import StorageUpgrade.Proofs.FoldedPointers

/-!
# Both forms of a location

Wherever a text names storage it may name a pointer into storage instead: normalizing gives the same
text for all these forms. No two occurrences of the words for storage and for a pointer overlap, so
what is written for one of them is replaced whatever is written for the others. The one exception is
an ending that is written twice: one of the two is left, and normalizing once more takes it away.
-/

namespace StorageUpgrade

namespace Text

/-! ## Words that do not overlap themselves -/

/-- A word that begins with no end of its own but the whole. -/
def Unbordered (word : List Char) : Prop :=
  ∀ back ∈ word.tails, back ≠ [] → back <+: word → back = word

instance (word : List Char) : Decidable (Unbordered word) :=
  inferInstanceAs (Decidable (∀ back ∈ word.tails, _))

namespace Unbordered

variable {word left right : List Char}

theorem eq_nil_of_append_eq (h : Unbordered word) {front back : List Char} (hne : back ≠ [])
    (hword : front ++ back = word) (hback : back <+: word) : front = [] := by
  have heq : back = word := h back ((List.mem_tails back word).2 ⟨front, hword⟩) hne hback
  rwa [heq, List.append_left_eq_self] at hword

/-- A word that begins before an occurrence of it is over before that begins. -/
theorem prefix_of_prefix_append (h : Unbordered word) (hleft : left ≠ [])
    (hfound : word <+: left ++ (word ++ right)) : word <+: left := by
  rcases List.prefix_or_prefix_of_prefix hfound (List.prefix_append left _) with
    hword | ⟨back, hword⟩
  · exact hword
  · by_cases hne : back = []
    · rw [hne, List.append_nil] at hword
      exact hword ▸ List.prefix_rfl
    · have hbehind : left ++ back <+: left ++ (word ++ right) := hword.symm ▸ hfound
      have hlength : back.length ≤ word.length := by
        rw [← hword, List.length_append]
        omega
      have hback : back <+: word := List.prefix_of_prefix_length_le
        ((List.prefix_append_right_inj left).1 hbehind) (List.prefix_append word right) hlength
      exact absurd (h.eq_nil_of_append_eq hne hword hback) hleft

/-- A word that ends behind an occurrence of it begins behind that. -/
theorem suffix_of_suffix_append (h : Unbordered word) (hleft : left = [] ∨ word <:+ left)
    (hright : right ≠ []) (hsuffix : word <:+ left ++ right) : word <:+ right := by
  rcases List.suffix_or_suffix_of_suffix hsuffix (List.suffix_append left right) with
    hword | ⟨front, hword⟩
  · exact hword
  · have hfront : front <:+ left := List.suffix_append_self_iff.1 (hword.symm ▸ hsuffix)
    rcases hleft with rfl | hleft
    · exact hsuffix
    · have hlength : front.length ≤ word.length := by
        rw [← hword, List.length_append]
        omega
      have hback : front <:+ word := List.suffix_of_suffix_length_le hfront hleft hlength
      by_cases hne : front = []
      · rw [hne, List.nil_append] at hword
        exact hword ▸ List.suffix_rfl
      · have hwhole := h front ((List.mem_tails front word).2 hback) hne ⟨right, hword⟩
        rw [hwhole, List.append_right_eq_self] at hword
        exact absurd hword hright

end Unbordered

/-! ## Replacing unbordered words -/

/-- An occurrence of an unbordered word is replaced, whatever stands before it. -/
theorem replace_append_found {old : List Char} (h : Unbordered old) (hold : old ≠ [])
    (new left right : List Char) :
    replace old new (left ++ (old ++ right)) =
      replace old new left ++ (new ++ replace old new right) := by
  induction left using replace_induction hold with
  | nil => exact replace_append new right hold
  | found rest ih =>
    rw [List.append_assoc, replace_append new _ hold, ih, replace_append new rest hold,
      List.append_assoc]
  | passed c rest hfront ih =>
    have hfront' : ¬ old <+: c :: (rest ++ (old ++ right)) := fun hfound =>
      hfront (h.prefix_of_prefix_append (List.cons_ne_nil c rest) hfound)
    rw [List.cons_append, replace_cons new c _ hfront', ih, replace_cons new c rest hfront,
      List.cons_append]

/-- A shorter word in place of one that occurs makes a text shorter. -/
theorem length_replace_lt {old new text : List Char} (hlength : new.length < old.length)
    (h : old <:+: text) : (replace old new text).length < text.length := by
  have hold : old ≠ [] := by
    rintro rfl
    exact Nat.not_lt_zero _ hlength
  induction text using replace_induction hold with
  | nil => exact absurd (List.infix_nil.1 h) hold
  | found rest =>
    have hrest := length_replace_le (Nat.le_of_lt hlength) rest
    rw [replace_append new rest hold, List.length_append, List.length_append]
    omega
  | passed c rest hfront ih =>
    have hrest := ih ((List.infix_cons_iff.1 h).resolve_left hfront)
    rw [replace_cons new c rest hfront, List.length_cons, List.length_cons]
    omega

theorem replace_eq_self_iff {old new text : List Char} (hlength : new.length < old.length) :
    replace old new text = text ↔ ¬ old <:+: text := by
  refine ⟨fun heq hoccurs => ?_, replace_eq_self new⟩
  have hlt := length_replace_lt hlength hoccurs
  rw [heq] at hlt
  exact Nat.lt_irrefl _ hlt

end Text

namespace Identifier

theorem unbordered_storageWord : Text.Unbordered storageWord := by
  decide

theorem unbordered_storagePointerWord : Text.Unbordered storagePointerWord := by
  decide

theorem storagePointerWord_ne_nil : storagePointerWord ≠ [] := by
  decide

/-! ## Pointers written for references -/

/-- The text with pointers in place of some of its references to storage. Which ones, is said by the
places where they end. -/
def writePointers (chosen : Nat → Bool) (text : List Char) : List Char :=
  text.zipIdx.flatMap fun (c, place) =>
    if chosen place && storageWord.isSuffixOf (text.take (place + 1)) then c :: pointerEnding
    else [c]

theorem writePointers_append (chosen : Nat → Bool) (text : List Char) (c : Char) :
    writePointers chosen (text ++ [c]) = writePointers chosen text ++
      if chosen text.length && storageWord.isSuffixOf (text ++ [c]) then c :: pointerEnding
      else [c] := by
  have htake : ∀ item ∈ text.zipIdx, (text ++ [c]).take (item.2 + 1) = text.take (item.2 + 1) := by
    intro item hitem
    have hplace := List.snd_lt_of_mem_zipIdx hitem
    exact List.take_append_of_le_length (by omega)
  unfold writePointers
  rw [List.zipIdx_append, List.flatMap_append]
  congr 1
  · refine List.flatMap_congr fun item hitem => ?_
    obtain ⟨d, place⟩ := item
    simp only [htake (d, place) hitem]
  · have hwhole : (text ++ [c]).take (text.length + 1) = text ++ [c] := by simp
    simp only [List.zipIdx_singleton, List.flatMap_singleton, Nat.zero_add, hwhole]

theorem mem_writePointers {chosen : Nat → Bool} {text : List Char} {c : Char}
    (h : c ∈ writePointers chosen text) : c ∈ text ∨ c ∈ pointerEnding := by
  obtain ⟨⟨d, place⟩, hitem, hc⟩ := List.mem_flatMap.1 h
  have hd : d ∈ text := List.fst_mem_of_mem_zipIdx hitem
  simp only at hc
  split at hc
  · rcases List.mem_cons.1 hc with rfl | hending
    · exact .inl hd
    · exact .inr hending
  · exact .inl (List.mem_singleton.1 hc ▸ hd)

/-- The text cut behind the references that pointers are written for. -/
theorem exists_cut (chosen : Nat → Bool) (text : List Char) :
    ∃ (pieces : List (List Char)) (rest : List Char),
      (∀ piece ∈ pieces, storageWord <:+ piece) ∧ text = pieces.flatten ++ rest ∧
      writePointers chosen text = (pieces.map (· ++ pointerEnding)).flatten ++ rest := by
  induction text using List.reverseRecOn with
  | nil => exact ⟨[], [], List.forall_mem_nil _, rfl, rfl⟩
  | append_singleton text c ih =>
    obtain ⟨pieces, rest, hpieces, htext, hwrite⟩ := ih
    rw [writePointers_append, hwrite]
    split
    next hchosen =>
      rw [Bool.and_eq_true, List.isSuffixOf_iff_suffix] at hchosen
      have hleft : pieces.flatten = [] ∨ storageWord <:+ pieces.flatten := by
        rcases List.eq_nil_or_concat' pieces with rfl | ⟨before, last, rfl⟩
        · exact .inl rfl
        · have hlast := hpieces last (List.mem_append_right _ List.mem_cons_self)
          rw [List.flatten_append, List.flatten_singleton]
          exact .inr (List.suffix_append_of_suffix hlast)
      have hsuffix := hchosen.2
      rw [htext, List.append_assoc] at hsuffix
      have hpiece := unbordered_storageWord.suffix_of_suffix_append hleft (by simp) hsuffix
      refine ⟨pieces ++ [rest ++ [c]], [], ?_, by simp [htext], by simp⟩
      exact List.forall_mem_append.2 ⟨hpieces, List.forall_mem_singleton.2 hpiece⟩
    next => exact ⟨pieces, rest ++ [c], hpieces, by simp [htext], by simp⟩

/-- Cut that way, each piece is replaced apart from what stands behind it. -/
theorem replace_cut {pieces : List (List Char)} {rest : List Char}
    (hpieces : ∀ piece ∈ pieces, storageWord <:+ piece)
    (h : ¬ storagePointerWord <:+: pieces.flatten ++ rest) :
    Text.replace storagePointerWord storageWord
      ((pieces.map (· ++ pointerEnding)).flatten ++ rest) = pieces.flatten ++ rest := by
  induction pieces with
  | nil => exact Text.replace_eq_self storageWord h
  | cons piece pieces ih =>
    rw [List.forall_mem_cons] at hpieces
    obtain ⟨front, rfl⟩ := hpieces.1
    rw [List.flatten_cons, List.append_assoc] at h ⊢
    have hfront : ¬ storagePointerWord <:+: front := fun hoccurs =>
      h (hoccurs.trans (List.append_assoc front _ _ ▸ List.infix_append_left))
    have hrest : ¬ storagePointerWord <:+: pieces.flatten ++ rest := fun hoccurs =>
      h (List.infix_append_of_infix_right hoccurs)
    have hwritten : front ++ storageWord ++ pointerEnding = front ++ storagePointerWord := by
      rw [storagePointerWord_eq, List.append_assoc]
    rw [List.map_cons, List.flatten_cons, hwritten, List.append_assoc, List.append_assoc,
      Text.replace_append_found unbordered_storagePointerWord storagePointerWord_ne_nil,
      Text.replace_eq_self storageWord hfront, ih hpieces.2 hrest, List.append_assoc]

/-! ## Endings written twice -/

/-- The ending of a pointer is no part of another one. -/
theorem replace_pointerEnding_append (text : List Char) :
    Text.replace storagePointerWord storageWord (pointerEnding ++ text) =
      pointerEnding ++ Text.replace storagePointerWord storageWord text := by
  have hsplit : pointerEnding = '_' :: "ptr".toList := by decide
  have hfront : ¬ storagePointerWord <+: '_' :: ("ptr".toList ++ text) := by
    rw [show storagePointerWord = '_' :: 's' :: "torage_ptr".toList by decide,
      show "ptr".toList = ['p', 't', 'r'] by decide]
    simp
  have hrest : ∀ c ∈ storagePointerWord.head?, c ∉ "ptr".toList := by
    rintro c ⟨⟩
    decide
  rw [hsplit, List.cons_append, Text.replace_cons storageWord _ _ hfront,
    Text.replace_append_of_notMem storagePointerWord_ne_nil hrest, List.cons_append]

/-- A pointer is left in the result of the pass where its ending stood twice, and nowhere else. -/
theorem storagePointerWord_infix_replace_iff {text : List Char} :
    storagePointerWord <:+: Text.replace storagePointerWord storageWord text ↔
      storagePointerWord ++ pointerEnding <:+: text := by
  refine ⟨doubled_of_infix_replace, ?_⟩
  rintro ⟨left, right, rfl⟩
  rw [List.append_assoc, List.append_assoc,
    Text.replace_append_found unbordered_storagePointerWord storagePointerWord_ne_nil,
    replace_pointerEnding_append, ← List.append_assoc storageWord, ← storagePointerWord_eq]
  exact List.infix_append' _ _ _

/-! ## Normalizing -/

theorem normalize_of_dollar_not_mem {text : String} (h : '$' ∉ text.toList) : normalize text =
    .ok (String.ofList (Text.replace storagePointerWord storageWord text.toList)) := by
  refine normalize_eq_ok_iff.2 ⟨text.toList, Escape.decodeFrom_of_dollar_not_mem h 0, ?_⟩
  rw [String.toList_ofList]

theorem normalize_of_decode {raw text : String} (h : decode raw = .ok text) : normalize raw =
    .ok (String.ofList (Text.replace storagePointerWord storageWord text.toList)) := by
  rw [← normalize_of_dollar_not_mem (dollar_not_mem_of_decode h)]
  exact (mapDecoded_of_decode _ h).symm

/-- Text with any choice of its references to storage written as pointers is normalized to the text
itself. Normalizing an identifier once more changes nothing exactly if no ending of a pointer stands
twice in its decoded text. -/
theorem normalize_folds :
    (∀ (text : String) (chosen : Nat → Bool), '$' ∉ text.toList →
      ¬ "_storage_ptr".toList <:+: text.toList →
        normalize (String.ofList (writePointers chosen text.toList)) = .ok text) ∧
    ∀ raw text : String, decode raw = .ok text →
      (normalize raw >>= normalize = normalize raw ↔
        ¬ "_storage_ptr_ptr".toList <:+: text.toList) := by
  constructor
  · intro text chosen hdollar hpointer
    obtain ⟨pieces, rest, hpieces, htext, hwrite⟩ := exists_cut chosen text.toList
    have hdollar' : '$' ∉ (String.ofList (writePointers chosen text.toList)).toList := by
      rw [String.toList_ofList]
      intro hmem
      exact (mem_writePointers hmem).elim hdollar (by decide)
    rw [htext] at hpointer
    rw [normalize_of_dollar_not_mem hdollar', String.toList_ofList, hwrite,
      replace_cut hpieces hpointer, ← htext, String.ofList_toList]
  · intro raw text hdecode
    have hfolded := normalize_of_decode hdecode
    have hdollar := dollar_not_mem_of_normalize hfolded
    have hlength : storageWord.length < storagePointerWord.length := by decide
    have hdoubled : "_storage_ptr_ptr".toList = storagePointerWord ++ pointerEnding := by decide
    rw [hfolded, ok_bind, normalize_of_dollar_not_mem hdollar, Except.ok.injEq,
      String.ofList_inj, String.toList_ofList, Text.replace_eq_self_iff hlength,
      storagePointerWord_infix_replace_iff, hdoubled]

/-- The first and the last reference are written as pointers, and the one between them is not. -/
theorem normalize_folds_mapping :
    normalize "t_mapping(t_string_storage_ptr,t_array(t_struct(S)4_storage)dyn_storage_ptr)" =
        .ok "t_mapping(t_string_storage,t_array(t_struct(S)4_storage)dyn_storage)" ∧
      normalize "t_struct$_S_$4_storage_ptr_ptr" >>= normalize ≠
        normalize "t_struct$_S_$4_storage_ptr_ptr" := by
  have hwrite : String.ofList (writePointers (fun place => place ∈ [25, 66])
      "t_mapping(t_string_storage,t_array(t_struct(S)4_storage)dyn_storage)".toList) =
      "t_mapping(t_string_storage_ptr,t_array(t_struct(S)4_storage)dyn_storage_ptr)" := by
    decide +kernel
  have hdecode : decode "t_struct$_S_$4_storage_ptr_ptr" =
      .ok "t_struct(S)4_storage_ptr_ptr" := by decide +kernel
  constructor
  · rw [← hwrite]
    exact normalize_folds.1 _ _ (by decide +kernel) (by decide +kernel)
  · intro heq
    exact (normalize_folds.2 _ _ hdecode).1 heq (by decide +kernel)

end Identifier

end StorageUpgrade
