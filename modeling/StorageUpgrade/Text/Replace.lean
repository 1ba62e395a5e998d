/-!
# Replacing a word in a text

Occurrences are replaced in one pass from left to right, and the search goes on behind each of
them: what a replacement joins together is not looked at again.
-/

namespace StorageUpgrade.Text

/-- Replaces every occurrence of `old` by `new`, after passing over `skip` characters that belong
to an occurrence already replaced. -/
def replaceFrom (old new : List Char) (skip : Nat) : List Char → List Char
  | [] => []
  | c :: rest =>
    match skip with
    | skip + 1 => replaceFrom old new skip rest
    | 0 =>
      if old.isPrefixOf (c :: rest) then new ++ replaceFrom old new (old.length - 1) rest
      else c :: replaceFrom old new 0 rest

/-- Replaces every occurrence of the word `old`, which is not empty, by `new`. -/
def replace (old new text : List Char) : List Char :=
  replaceFrom old new 0 text

theorem replaceFrom_append (old new left right : List Char) :
    replaceFrom old new left.length (left ++ right) = replace old new right := by
  induction left with
  | nil => rfl
  | cons c left ih => simpa [replaceFrom] using ih

/-- An occurrence at the front is replaced, and the search goes on behind it. -/
theorem replace_append {old : List Char} (new text : List Char) (h : old ≠ []) :
    replace old new (old ++ text) = new ++ replace old new text := by
  match old with
  | c :: word =>
    have hp : (c :: word).isPrefixOf (c :: (word ++ text)) = true :=
      List.isPrefixOf_iff_prefix.2 ⟨text, rfl⟩
    simp [replace, replaceFrom, hp, replaceFrom_append]

theorem replace_cons {old : List Char} (new : List Char) (c : Char) (text : List Char)
    (h : ¬ old <+: c :: text) : replace old new (c :: text) = c :: replace old new text := by
  have h' : old.isPrefixOf (c :: text) = false := by
    simpa [← List.isPrefixOf_iff_prefix] using h
  simp [replace, replaceFrom, h']

/-- Replacing goes over a text from one occurrence of the word to the next: what holds of the empty
text, and can be carried back over an occurrence and over a character that none begins with, holds
of every text. -/
@[elab_as_elim]
theorem replace_induction {old : List Char} (hold : old ≠ []) {motive : List Char → Prop}
    (text : List Char) (nil : motive [])
    (found : ∀ rest, motive rest → motive (old ++ rest))
    (passed : ∀ c rest, ¬ old <+: c :: rest → motive rest → motive (c :: rest)) :
    motive text := by
  induction hlength : text.length using Nat.strongRecOn generalizing text with
  | _ length ih =>
    by_cases hfront : old <+: text
    · obtain ⟨rest, rfl⟩ := hfront
      have hpos : 0 < old.length := List.length_pos_iff.2 hold
      rw [List.length_append] at hlength
      exact found rest (ih rest.length (by omega) rest rfl)
    · cases text with
      | nil => exact nil
      | cons c rest =>
        rw [List.length_cons] at hlength
        exact passed c rest hfront (ih rest.length (by omega) rest rfl)

theorem length_replaceFrom_le {old new : List Char} (h : new.length ≤ old.length) (skip : Nat)
    (text : List Char) : (replaceFrom old new skip text).length ≤ text.length - skip := by
  fun_induction replaceFrom old new skip text with
  | case1 => simp
  | case2 c rest skip ih =>
    rw [List.length_cons]
    omega
  | case3 c rest hold ih =>
    have hprefix := (List.isPrefixOf_iff_prefix.1 hold).length_le
    rw [List.length_cons] at hprefix ⊢
    rw [List.length_append]
    omega
  | case4 c rest _ ih =>
    rw [List.length_cons, List.length_cons]
    omega

theorem length_replace_le {old new : List Char} (h : new.length ≤ old.length)
    (text : List Char) : (replace old new text).length ≤ text.length :=
  length_replaceFrom_le h 0 text

end StorageUpgrade.Text
