import Mathlib.Data.List.Infix
import StorageUpgrade.Proofs.Normalization

/-!
# Pointers that normalizing leaves

The single pass of `normalize` joins what it writes with the text behind it, and does not look at
it again. The result still names a pointer into storage only if the ending of a pointer stood twice
in the text: the text behind a replacement can continue it to a pointer, and no pointer comes about
in any other way.
-/

namespace StorageUpgrade

namespace Text

/-- No end of the word can overlap the front of a replacement. -/
def MeetsNowhere (word new : List Char) : Prop :=
  ∀ behind ∈ word.tails, behind ≠ [] → ¬ behind <+: new ∧ ¬ new <+: behind

instance (word new : List Char) : Decidable (MeetsNowhere word new) :=
  inferInstanceAs (Decidable (∀ behind ∈ word.tails, _))

section

variable {old new word text : List Char}

/-- Behind a character that is left alone, the result begins as the text does. -/
theorem cons_prefix_of_prefix_replace {c : Char} (hfront : ¬ old <+: text)
    (hrest : ∀ rest, word <+: replace old new rest → word <+: rest)
    (h : c :: word <+: replace old new text) : c :: word <+: text := by
  cases text with
  | nil => exact absurd h (by simp [replace, replaceFrom])
  | cons d text =>
    rw [replace_cons new d text hfront, List.cons_prefix_cons] at h
    exact List.cons_prefix_cons.2 ⟨h.1, hrest text h.2⟩

/-- A word that no replacement can be a part of is at the front of the result only if it was at the
front of the text. -/
theorem prefix_of_prefix_replace (hold : old ≠ []) (hword : MeetsNowhere word new)
    (h : word <+: replace old new text) : word <+: text := by
  induction word generalizing text with
  | nil => exact List.nil_prefix
  | cons c word ih =>
    by_cases hfront : old <+: text
    · obtain ⟨rest, rfl⟩ := hfront
      rw [replace_append new rest hold] at h
      obtain ⟨hnew, hbehind⟩ := hword (c :: word) (by simp) (List.cons_ne_nil c word)
      rcases List.prefix_or_prefix_of_prefix h (List.prefix_append new _) with hc | hc
      · exact absurd hc hnew
      · exact absurd hc hbehind
    · have hrest : MeetsNowhere word new := fun behind hbehind =>
        hword behind (List.mem_cons_of_mem (c :: word) hbehind)
      exact cons_prefix_of_prefix_replace hfront (fun _ => ih hrest) h

end

end Text

namespace Identifier

/-- What makes a reference to storage a pointer. -/
def pointerEnding : List Char := "_ptr".toList

theorem storagePointerWord_eq : storagePointerWord = storageWord ++ pointerEnding := by
  decide

/-- A pointer that begins within a replacement begins with all of it. -/
theorem eq_of_append_eq_storagePointerWord {front back : List Char}
    (h : front ++ back = storagePointerWord) (hfront : front <:+ storageWord) :
    front = [] ∨ front = storageWord := by
  have htails : ∀ front ∈ storageWord.tails, front <+: storagePointerWord →
      front = [] ∨ front = storageWord := by decide
  exact htails front ((List.mem_tails front storageWord).2 hfront) ⟨back, h⟩

theorem storagePointerWord_prefix_of_prefix_replace {text : List Char}
    (hfront : ¬ storagePointerWord <+: text)
    (h : storagePointerWord <+: Text.replace storagePointerWord storageWord text) :
    storagePointerWord <+: text := by
  have hne : storagePointerWord ≠ [] := by decide
  have hword : storagePointerWord = '_' :: "storage_ptr".toList := by decide
  have hrest : ∀ rest, "storage_ptr".toList <+: Text.replace storagePointerWord storageWord rest →
      "storage_ptr".toList <+: rest := fun rest =>
    Text.prefix_of_prefix_replace hne (by decide)
  have hcons : '_' :: "storage_ptr".toList <+:
      Text.replace storagePointerWord storageWord text := hword ▸ h
  exact hword ▸ Text.cons_prefix_of_prefix_replace hfront hrest hcons

/-- A pointer in the result of the pass stands where the ending of a pointer was doubled. -/
theorem doubled_of_infix_replace {text : List Char}
    (h : storagePointerWord <:+: Text.replace storagePointerWord storageWord text) :
    storagePointerWord ++ pointerEnding <:+: text := by
  have hne : storagePointerWord ≠ [] := by decide
  induction text using Text.replace_induction hne with
  | nil => exact absurd h (by decide)
  | found rest ih =>
    rw [Text.replace_append storageWord rest hne, List.infix_append_iff] at h
    have hbehind (hrest : storagePointerWord <:+:
        Text.replace storagePointerWord storageWord rest) :
        storagePointerWord ++ pointerEnding <:+: storagePointerWord ++ rest :=
      (ih hrest).trans (List.suffix_append _ _).isInfix
    rcases h with hword | hrest | ⟨front, back, heq, hsuffix, hprefix⟩
    · exact absurd hword.length_le (by decide)
    · exact hbehind hrest
    · rcases eq_of_append_eq_storagePointerWord heq.symm hsuffix with rfl | rfl
      · exact hbehind (heq ▸ hprefix.isInfix)
      · obtain rfl : pointerEnding = back :=
          List.append_cancel_left (storagePointerWord_eq.symm.trans heq)
        have hrest : pointerEnding <+: rest :=
          Text.prefix_of_prefix_replace hne (by decide) hprefix
        exact ((List.prefix_append_right_inj storagePointerWord).2 hrest).isInfix
  | passed c rest hfront ih =>
    have hreplace := Text.replace_cons storageWord c rest hfront
    rw [hreplace, List.infix_cons_iff, ← hreplace] at h
    rcases h with hprefix | hrest
    · exact absurd (storagePointerWord_prefix_of_prefix_replace hfront hprefix) hfront
    · exact List.infix_cons (ih hrest)

end Identifier

end StorageUpgrade
