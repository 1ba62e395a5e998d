import StorageUpgrade.Proofs.BracketMatching

/-!
# Which characters are erased

The stable form of an identifier is its decoded text without certain positions: those of the number
behind each reference, up to and with one underscore that follows the number. A reference is found by
matching brackets, in text whose brackets match and in text whose brackets do not. All other
characters stay, in their order.
-/

namespace StorageUpgrade.Identifier

namespace Stable

variable {passed closing digits rest : List Char} {c : Char}

/-! ## Numbers -/

/-- The digits at the front of a text, with the underscore behind them if there is one. -/
def leadingNumber (text : List Char) : List Char :=
  let digits := text.takeWhile Char.isDigit
  if digits ≠ [] ∧ (text.dropWhile Char.isDigit).head? = some '_' then digits ++ ['_'] else digits

theorem length_leadingNumber_le (text : List Char) :
    (leadingNumber text).length ≤ (text.takeWhile Char.isDigit).length + 1 := by
  simp only [leadingNumber]
  split <;> simp

/-- Whether the position `i` belongs to the number behind a reference. -/
def InNumber (text : List Char) (i : Nat) : Prop :=
  ∃ j ≤ i, EndsReference (text.take j) ∧ i < j + (leadingNumber (text.drop j)).length

instance (text : List Char) : DecidablePred (InNumber text) :=
  fun i => inferInstanceAs (Decidable (∃ j ≤ i, _ ∧ _))

/-- The characters of a text that do not belong to the numbers behind references. -/
def outsideNumbers (text : List Char) : List Char :=
  (text.zipIdx.filter fun (_, i) => ¬ InNumber text i).map Prod.fst

theorem length_lt_leadingNumber_iff :
    digits.length < (leadingNumber (digits ++ c :: rest)).length ↔
      (∀ d ∈ digits, d.isDigit = true) ∧ (c.isDigit = true ∨ c = '_' ∧ digits ≠ []) := by
  by_cases hdigits : ∀ d ∈ digits, d.isDigit = true
  · rw [leadingNumber, List.takeWhile_append_of_pos hdigits, List.dropWhile_append_of_pos hdigits]
    by_cases hc : c.isDigit = true
    · refine iff_of_true ?_ ⟨hdigits, .inl hc⟩
      rw [List.takeWhile_cons_of_pos hc]
      split <;> simp
    · rw [List.takeWhile_cons_of_neg hc, List.dropWhile_cons_of_neg hc, List.append_nil,
        List.head?_cons]
      simp only [Option.some.injEq]
      split
      next h => exact iff_of_true (by simp) ⟨hdigits, .inr ⟨h.2, h.1⟩⟩
      next h => exact iff_of_false (Nat.lt_irrefl _) fun hnumber =>
          hnumber.2.elim hc fun hunderscore => h hunderscore.symm
  · refine iff_of_false ?_ fun h => hdigits h.1
    have hlt : (digits.takeWhile Char.isDigit).length < digits.length := by
      refine Nat.lt_of_le_of_ne (List.takeWhile_prefix _).length_le fun heq => hdigits ?_
      rw [← (List.takeWhile_prefix _).eq_of_length heq]
      exact List.all_eq_true.1 List.all_takeWhile
    have hle := length_leadingNumber_le (digits ++ c :: rest)
    rw [List.takeWhile_append, if_neg (Nat.ne_of_lt hlt)] at hle
    omega

theorem inNumber_iff : InNumber (passed ++ c :: rest) passed.length ↔
    ∃ closing digits, passed = closing ++ digits ∧ EndsReference closing ∧
      (∀ d ∈ digits, d.isDigit = true) ∧ (c.isDigit = true ∨ c = '_' ∧ digits ≠ []) := by
  constructor
  · rintro ⟨j, hj, hclosing, hlt⟩
    rw [List.take_append_of_le_length hj] at hclosing
    rw [List.drop_append_of_le_length hj] at hlt
    refine ⟨passed.take j, passed.drop j, (List.take_append_drop j passed).symm, hclosing, ?_⟩
    rw [← length_lt_leadingNumber_iff, List.length_drop]
    exact Nat.sub_lt_left_of_lt_add hj hlt
  · rintro ⟨closing, digits, rfl, hclosing, hnumber⟩
    have hlt : digits.length < (leadingNumber (digits ++ c :: rest)).length :=
      length_lt_leadingNumber_iff.2 hnumber
    refine ⟨closing.length, ?_, ?_, ?_⟩
    · simp
    · simpa using hclosing
    · simpa using hlt

/-! ## Behind references -/

/-- Whether the text passed ends in what is said to precede the next character. -/
inductive Behind.Fits : Behind → List Char → Prop
  | reference {passed : List Char} (h : EndsReference passed) : Behind.Fits .reference passed
  | digit {closing digits : List Char} (h : EndsReference closing)
      (hdigits : ∀ d ∈ digits, d.isDigit = true) (hne : digits ≠ []) :
      Behind.Fits .digit (closing ++ digits)
  | other {passed : List Char}
      (h : ∀ closing digits, passed = closing ++ digits → (∀ d ∈ digits, d.isDigit = true) →
        ¬ EndsReference closing) :
      Behind.Fits .other passed

namespace Behind.Fits

variable {behind : Behind}

/-- Behind a character that closes no reference and continues no number, nothing is erased. -/
theorem append_other (hc : ¬ EndsReference (passed ++ [c]))
    (hdigit : c.isDigit = true → Behind.Fits .other passed) :
    Behind.Fits .other (passed ++ [c]) := by
  refine .other fun closing digits heq hdigits hclosing => ?_
  rcases List.eq_nil_or_concat digits with rfl | ⟨digits, d, rfl⟩
  · rw [List.append_nil] at heq
    exact hc (heq ▸ hclosing)
  · rw [List.concat_eq_append, ← List.append_assoc] at heq
    obtain ⟨rfl, hcd⟩ := List.append_inj' heq rfl
    obtain rfl := List.singleton_inj.1 hcd
    rw [List.concat_eq_append, List.forall_mem_append] at hdigits
    cases hdigit (hdigits.2 c List.mem_cons_self) with
    | other h => exact h closing digits rfl hdigits.1 hclosing

theorem append_digit (h : behind.Fits passed) (hbehind : behind ≠ .other)
    (hc : c.isDigit = true) : Behind.Fits .digit (passed ++ [c]) := by
  cases h with
  | reference h => exact .digit h (by simpa using hc) (List.cons_ne_nil _ _)
  | digit h hdigits hne =>
    rw [List.append_assoc]
    exact .digit h (List.forall_mem_append.2 ⟨hdigits, by simpa using hc⟩) (by simp)
  | other => exact absurd rfl hbehind

/-- A character is erased exactly if it belongs to a number. -/
theorem inNumber_iff (h : behind.Fits passed) : InNumber (passed ++ c :: rest) passed.length ↔
    behind ≠ .other ∧ c.isDigit = true ∨ behind = .digit ∧ c = '_' := by
  rw [Stable.inNumber_iff]
  cases h with
  | reference h =>
    constructor
    · rintro ⟨closing, digits, heq, -, hdigits, hdigit | ⟨-, hne⟩⟩
      · exact .inl ⟨by decide, hdigit⟩
      · obtain ⟨digits, d, rfl⟩ := (List.eq_nil_or_concat digits).resolve_left hne
        rw [List.concat_eq_append, ← List.append_assoc] at heq
        have hd : d.isDigit = true := hdigits d (by simp)
        refine absurd (heq ▸ h) (not_endsReference_append_singleton ?_)
        rintro rfl
        cases hd
    · rintro (⟨-, hdigit⟩ | ⟨hdigit, -⟩)
      · exact ⟨passed, [], (List.append_nil _).symm, h, nofun, .inl hdigit⟩
      · cases hdigit
  | @digit closing digits h hdigits hne =>
    constructor
    · rintro ⟨_, _, -, -, -, hdigit | ⟨hunderscore, -⟩⟩
      · exact .inl ⟨by decide, hdigit⟩
      · exact .inr ⟨rfl, hunderscore⟩
    · rintro (⟨-, hdigit⟩ | ⟨-, hunderscore⟩)
      · exact ⟨closing, digits, rfl, h, hdigits, .inl hdigit⟩
      · exact ⟨closing, digits, rfl, h, hdigits, .inr ⟨hunderscore, hne⟩⟩
  | other h =>
    refine iff_of_false ?_ ?_
    · rintro ⟨closing, digits, heq, hclosing, hdigits, -⟩
      exact h closing digits heq hdigits hclosing
    · rintro (⟨hother, -⟩ | ⟨hdigit, -⟩)
      · exact hother rfl
      · cases hdigit

end Behind.Fits

/-- The positions left out are those that belong to numbers. -/
theorem eraseFrom_eq_filter {behind : Behind} {marked : List (Char × Bool)}
    (hmarks : MarksReferences passed marked) (hfits : behind.Fits passed) :
    eraseFrom behind marked = (((marked.map Prod.fst).zipIdx passed.length).filter
      fun (_, i) => ¬ InNumber (passed ++ marked.map Prod.fst) i).map Prod.fst := by
  induction marked generalizing passed behind with
  | nil => rfl
  | cons first marked ih =>
    obtain ⟨c, closes⟩ := first
    obtain ⟨hcloses, hmarks⟩ := marksReferences_cons_iff.1 hmarks
    have ih {behind : Behind} (hfits : behind.Fits (passed ++ [c])) := ih hmarks hfits
    rw [List.append_assoc, List.singleton_append, List.length_append, List.length_singleton] at ih
    rw [List.map_cons, List.zipIdx_cons, List.filter_cons, eraseFrom]
    have hnumber : InNumber (passed ++ c :: marked.map Prod.fst) passed.length ↔
        behind ≠ .other ∧ c.isDigit = true ∨ behind = .digit ∧ c = '_' := hfits.inNumber_iff
    by_cases hdigit : behind ≠ .other ∧ c.isDigit = true
    · rw [if_pos hdigit, ih (hfits.append_digit hdigit.1 hdigit.2), if_neg]
      simpa using hnumber.2 (.inl hdigit)
    · rw [if_neg hdigit]
      by_cases hunderscore : behind = .digit ∧ c = '_'
      · have hother : Behind.Fits .other (passed ++ [c]) := by
          rw [hunderscore.2]
          refine .append_other (not_endsReference_append_singleton (by decide)) fun hdigit => ?_
          cases hdigit
        rw [if_pos hunderscore, ih hother, if_neg]
        simpa using hnumber.2 (.inr hunderscore)
      · have hkept : ¬ InNumber (passed ++ c :: marked.map Prod.fst) passed.length :=
          fun h => (hnumber.1 h).elim hdigit hunderscore
        have hbehind : c.isDigit = true → Behind.Fits .other passed := by
          intro hc
          have hother : behind = .other := Decidable.not_not.1 fun hne => hdigit ⟨hne, hc⟩
          rwa [← hother]
        have hnext : Behind.Fits (if closes then .reference else .other) (passed ++ [c]) := by
          cases closes with
          | true => exact .reference (hcloses.1 rfl)
          | false => exact .append_other (fun h => Bool.false_ne_true (hcloses.2 h)) hbehind
        rw [if_neg hunderscore, ih hnext, if_pos (by simpa using hkept), List.map_cons]

theorem eraseNumbers_eq_outsideNumbers (text : List Char) :
    eraseNumbers text = outsideNumbers text := by
  have hstart : Behind.Fits .other [] := by
    refine .other fun closing digits heq _ => ?_
    rw [(List.append_eq_nil_iff.1 heq.symm).1]
    decide
  have hfilter := eraseFrom_eq_filter (marksReferences_mark text) hstart
  rwa [map_fst_mark] at hfilter

/-- Brackets without partners do not matter, and the length of an array stays. -/
example : outsideNumbers "t_enum(a)7)t_array(t_struct(b(c))12_storage)3_(".toList =
    "t_enum(a))t_array(t_struct(b(c))storage)3_(".toList := by
  decide

end Stable

/-- The stable form of an identifier consists of the characters of its decoded text, in order, but
for the numbers behind references; where there is no decoded text, it fails in the same way. -/
theorem stabilize_eq_outsideNumbers (raw : String) :
    stabilize raw = (decode raw).map fun text =>
      String.ofList (Stable.outsideNumbers text.toList) := by
  rw [stabilize_eq_mapDecoded]
  unfold decode mapDecoded
  cases Escape.decode raw.toList with
  | error position => rfl
  | ok text => simp [Except.map, Stable.eraseNumbers_eq_outsideNumbers]

end StorageUpgrade.Identifier
