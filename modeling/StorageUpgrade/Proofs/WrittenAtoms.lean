import StorageUpgrade.Json.Token
import StorageUpgrade.Json.Writer

/-!
# Strings and integers as they are written

What the writer puts out for a string or an integer is read as one token, which means the same. Of
strings nothing is required: quotes, backslashes and control characters are written as escapes and
all others as they are. An integer has to fit into 64 bits, its sign apart, so that it is within the
range of numbers.
-/

namespace StorageUpgrade.Json

/-! ## Strings -/

namespace Token

/-- Two digits to the base sixteen are enough for a control character. -/
theorem unit?_hexDigit : ∀ n < 0x20, unit? '0' '0' (hexDigit (n / 16)) (hexDigit (n % 16)) =
    some n := by
  decide

theorem joinPieces_unit {n : Nat} (h : n < 0x20) (pieces : List Piece) :
    joinPieces (.unit n :: pieces) = (joinPieces pieces).map (Char.ofNat n :: ·) := by
  have hhigh : isHighSurrogate n = false := by
    rw [isHighSurrogate, decide_eq_false (by omega), Bool.false_and]
  have hlow : isLowSurrogate n = false := by
    rw [isLowSurrogate, decide_eq_false (by omega), Bool.false_and]
  cases pieces with
  | nil => simp [joinPieces, hhigh, hlow]
  | cons piece pieces => cases piece <;> simp [joinPieces, hhigh, hlow]

theorem readPieces_of_plain {c : Char} (hquote : c ≠ '"') (hbackslash : c ≠ '\\')
    (hcontrol : ¬ c.toNat < 0x20) (rest : List Char) :
    readPieces (c :: rest) =
      (readPieces rest).map fun (pieces, rest) => (.char c :: pieces, rest) := by
  rw [readPieces, if_neg hcontrol]
  · exact hquote
  · exact fun _ _ _ _ _ h _ => hbackslash h
  · exact fun _ _ h _ => hbackslash h

/-- What is written for a character is read as one piece, which means that character. -/
theorem readPieces_writeChar (c : Char) : ∃ piece,
    (∀ rest, readPieces (writeChar c ++ rest) =
      (readPieces rest).map fun (pieces, rest) => (piece :: pieces, rest)) ∧
    ∀ pieces, joinPieces (piece :: pieces) = (joinPieces pieces).map (c :: ·) := by
  unfold writeChar
  split
  case h_8 _ hquote hbackslash _ _ _ _ _ =>
    split
    next hcontrol =>
      refine ⟨.unit c.toNat, fun rest => ?_, fun pieces => ?_⟩
      · have hunit := unit?_hexDigit c.toNat hcontrol
        simp only [List.cons_append, List.nil_append, readPieces, hunit]
        cases readPieces rest <;> rfl
      · rw [joinPieces_unit hcontrol, Char.ofNat_toNat]
    next hcontrol =>
      refine ⟨.char c, fun rest => ?_, fun _ => rfl⟩
      rw [List.singleton_append, readPieces_of_plain hquote hbackslash hcontrol]
  all_goals
    refine ⟨.char _, fun rest => ?_, fun _ => rfl⟩
    cases hrest : readPieces rest <;> simp [readPieces, escaped?, hrest]

theorem readPieces_flatMap (cs rest : List Char) : ∃ pieces,
    readPieces (cs.flatMap writeChar ++ '"' :: rest) = some (pieces, rest) ∧
      joinPieces pieces = some cs := by
  induction cs with
  | nil => exact ⟨[], rfl, rfl⟩
  | cons c cs ih =>
    obtain ⟨pieces, hread, hjoin⟩ := ih
    obtain ⟨piece, hpiece, hmeans⟩ := readPieces_writeChar c
    refine ⟨piece :: pieces, ?_, ?_⟩
    · rw [List.flatMap_cons, List.append_assoc, hpiece, hread]
      rfl
    · rw [hmeans, hjoin]
      rfl

/-- A written string is read back, whatever its characters are. -/
theorem readString?_written (text : String) (rest : List Char) :
    readString? (text.toList.flatMap writeChar ++ '"' :: rest) = some (some text, rest) := by
  obtain ⟨pieces, hread, hjoin⟩ := readPieces_flatMap text.toList rest
  simp [readString?, hread, hjoin]

end Token

/-! ## Integers -/

namespace Numeral

/-- A text in front of which the digits of a number end, and the number with them. -/
def EndsNumber (rest : List Char) : Prop :=
  ∀ c ∈ rest.head?, c.isDigit = false ∧ c ≠ '.' ∧ c ≠ 'e' ∧ c ≠ 'E'

/-- A number that is written by its digits alone. -/
def ofDigits (negative : Bool) (whole : List Char) : Numeral :=
  { negative, whole, fraction := [], exponentText := [], exponent := 0 }

theorem splitDigits_append {digits rest : List Char} (hdigits : ∀ c ∈ digits, c.isDigit = true)
    (hrest : ∀ c ∈ rest.head?, c.isDigit = false) :
    splitDigits (digits ++ rest) = (digits, rest) := by
  rw [splitDigits, List.takeWhile_append_of_pos hdigits, List.dropWhile_append_of_pos hdigits]
  cases rest with
  | nil => simp
  | cons c rest =>
    have hc : ¬ c.isDigit = true := Bool.eq_false_iff.1 (hrest c rfl)
    rw [List.takeWhile_cons_of_neg hc, List.dropWhile_cons_of_neg hc, List.append_nil]

/-- The digits of a number begin with a zero only if there are no others. -/
theorem head?_toDigits {n : Nat} (h : n ≠ 0) : (Nat.toDigits 10 n).head? ≠ some '0' := by
  induction n using Nat.strongRecOn with
  | ind n ih =>
    by_cases hn : n < 10
    · rw [Nat.toDigits_of_lt_base hn]
      have hdigit : ∀ n < 10, n ≠ 0 → [Nat.digitChar n].head? ≠ some '0' := by decide
      exact hdigit n hn h
    · have hne : Nat.toDigits 10 (n / 10) ≠ [] := Nat.toDigits_ne_nil
      rw [Nat.toDigits_of_base_le (by decide) (Nat.not_lt.1 hn), List.head?_append,
        Option.or_of_isSome (List.isSome_head?.2 hne)]
      exact ih (n / 10) (by omega) (by omega)

theorem read?_toDigits (negative : Bool) (n : Nat) {rest : List Char} (h : EndsNumber rest) :
    read? negative (Nat.toDigits 10 n ++ rest) =
      some (ofDigits negative (Nat.toDigits 10 n), rest) := by
  have hdigits : ∀ c ∈ Nat.toDigits 10 n, c.isDigit = true := fun c hc =>
    Nat.isDigit_of_mem_toDigits (by decide) (by decide) hc
  have hsplit := splitDigits_append hdigits fun c hc => (h c hc).1
  have hempty : (Nat.toDigits 10 n).isEmpty = false := by
    rw [List.isEmpty_eq_false_iff]
    exact Nat.toDigits_ne_nil
  have hzero : (Nat.toDigits 10 n).head? = some '0' → (Nat.toDigits 10 n).length = 1 := by
    intro hhead
    by_cases hn : n = 0
    · subst hn
      rfl
    · exact absurd hhead (head?_toDigits hn)
  have hfraction : readFraction rest = some ([], rest) := by
    unfold readFraction
    split
    next => exact absurd rfl (h '.' rfl).2.1
    next => rfl
  have hexponent : readExponent rest = some ([], 0, rest) := by
    unfold readExponent
    split
    next => rfl
    next c rest => rw [if_neg (not_or.2 (h c rfl).2.2)]
  rw [read?, hsplit]
  simpa [hempty, hfraction, hexponent, ofDigits] using hzero

theorem le_ofDigitChars (n : Nat) (digits : List Char) : n ≤ Nat.ofDigitChars 10 digits n := by
  have hpos : 0 < 10 ^ digits.length := Nat.pow_pos (by decide)
  rw [Nat.ofDigitChars_eq_ofDigitChars_zero]
  exact Nat.le_trans (Nat.le_mul_of_pos_left n hpos) (Nat.le_add_right _ _)

/-- Digits are left over only if the number does not fit into 64 bits. -/
theorem appendDigits_eq {n : Nat} {digits : List Char}
    (h : Nat.ofDigitChars 10 digits n < Nat.pow 2 64) :
    appendDigits n digits = (Nat.ofDigitChars 10 digits n, []) := by
  induction digits generalizing n with
  | nil => rfl
  | cons c digits ih =>
    have hnext : Nat.ofDigitChars 10 (c :: digits) n =
        Nat.ofDigitChars 10 digits (Nat.ofDigitChars 10 [c] n) := rfl
    have hle := le_ofDigitChars (Nat.ofDigitChars 10 [c] n) digits
    rw [hnext] at h
    rw [appendDigits, if_pos (Nat.lt_of_le_of_lt hle h), ih h, hnext]

theorem roundTo53Bits_lt {n : Nat} (h : n < Nat.pow 2 64) : roundTo53Bits n < Nat.pow 2 66 := by
  by_cases hn : n = 0
  · subst hn
    decide
  · have hlog : n.log2 < 64 := (Nat.log2_lt hn).2 h
    have hunit : Nat.pow 2 (n.log2 - 52) ≤ Nat.pow 2 64 :=
      Nat.pow_le_pow_right (by decide) (by omega)
    have hquotient : n / Nat.pow 2 (n.log2 - 52) * Nat.pow 2 (n.log2 - 52) ≤ n :=
      Nat.div_mul_le_self _ _
    have hpow : Nat.pow 2 66 = 4 * Nat.pow 2 64 := by decide
    unfold roundTo53Bits
    simp only
    split
    · rw [Nat.succ_mul]
      omega
    · omega

theorem isInRange_ofDigits {negative : Bool} {n : Nat} (h : n < Nat.pow 2 64) :
    (ofDigits negative (Nat.toDigits 10 n)).isInRange = true := by
  have hvalue : Nat.ofDigitChars 10 (Nat.toDigits 10 n) 0 = n :=
    Nat.ofDigitChars_toDigits (by decide) (by decide)
  have happend : appendDigits 0 (Nat.toDigits 10 n) = (n, []) := by
    rw [appendDigits_eq (hvalue.symm ▸ h), hvalue]
  have hone : roundTo53Bits (Nat.pow 10 0) = 1 := by decide
  have hend : Nat.pow 2 66 < rangeEnd := by decide +kernel
  have hround : roundTo53Bits n * roundTo53Bits (Nat.pow 10 0) < rangeEnd := by
    rw [hone, Nat.mul_one]
    exact Nat.lt_trans (roundTo53Bits_lt h) hend
  simp only [isInRange, ofDigits, happend]
  -- the power of ten is the zeroth
  change (decide (n = 0) || false || (true && decide (roundTo53Bits n *
    roundTo53Bits (Nat.pow 10 0) < rangeEnd))) = true
  rw [decide_eq_true hround, Bool.and_self, Bool.or_true]

end Numeral

namespace Token

theorem ofNumeral_ofDigits {negative : Bool} {n : Nat} (h : n < Nat.pow 2 64)
    (hzero : negative = true → n ≠ 0) :
    ofNumeral (.ofDigits negative (Nat.toDigits 10 n)) =
      .integer (if negative then -(n : Int) else n) := by
  have hvalue : Nat.ofDigitChars 10 (Nat.toDigits 10 n) 0 = n :=
    Nat.ofDigitChars_toDigits (by decide) (by decide)
  have hinteger : (Numeral.ofDigits negative (Nat.toDigits 10 n)).integer? =
      some (if negative then -(n : Int) else n) := by
    cases negative <;> simp_all [Numeral.integer?, Numeral.ofDigits]
  rw [ofNumeral, if_pos (Numeral.isInRange_ofDigits h), hinteger]

theorem isBlank_of_isDigit {c : Char} (h : c.isDigit = true) : isBlank c = false := by
  simp only [isBlank, Bool.or_eq_false_iff, decide_eq_false_iff_not]
  refine ⟨⟨⟨?_, ?_⟩, ?_⟩, ?_⟩
  all_goals
    rintro rfl
    exact absurd h (by decide)

theorem read?_of_isDigit {c : Char} (h : c.isDigit = true) (rest : List Char) :
    read? c rest = (Numeral.read? false (c :: rest)).map fun (n, rest) => (ofNumeral n, rest) := by
  unfold read?
  split
  case h_12 => rfl
  all_goals exact absurd h (by decide)

/-- A written integer is read back as long as it has no more than 64 bits behind its sign. -/
theorem read?_integerText {value : Int} (h : value.natAbs < Nat.pow 2 64) {rest : List Char}
    (hrest : Numeral.EndsNumber rest) : ∃ c text, integerText value = c :: text ∧
      isBlank c = false ∧ read? c (text ++ rest) = some (.integer value, rest) := by
  cases value with
  | ofNat n =>
    have hne : Nat.toDigits 10 n ≠ [] := Nat.toDigits_ne_nil
    obtain ⟨c, text, htext⟩ := List.exists_cons_of_ne_nil hne
    have hmem : c ∈ Nat.toDigits 10 n := htext ▸ List.mem_cons_self
    have hdigit : c.isDigit = true := Nat.isDigit_of_mem_toDigits (by decide) (by decide) hmem
    refine ⟨c, text, htext, isBlank_of_isDigit hdigit, ?_⟩
    have htoken : ofNumeral (.ofDigits false (Nat.toDigits 10 n)) = .integer (Int.ofNat n) :=
      ofNumeral_ofDigits h nofun
    rw [read?_of_isDigit hdigit, ← List.cons_append, ← htext,
      Numeral.read?_toDigits false n hrest, ← htoken]
    rfl
  | negSucc n =>
    refine ⟨'-', Nat.toDigits 10 (n + 1), rfl, rfl, ?_⟩
    have htoken : ofNumeral (.ofDigits true (Nat.toDigits 10 (n + 1))) =
        .integer (Int.negSucc n) :=
      ofNumeral_ofDigits h fun _ => Nat.succ_ne_zero n
    have hread : read? '-' (Nat.toDigits 10 (n + 1) ++ rest) =
        (Numeral.read? true (Nat.toDigits 10 (n + 1) ++ rest)).map
          fun (n, rest) => (ofNumeral n, rest) := rfl
    rw [hread, Numeral.read?_toDigits true (n + 1) hrest, ← htoken]
    rfl

end Token

end StorageUpgrade.Json
