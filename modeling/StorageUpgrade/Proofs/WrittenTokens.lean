import StorageUpgrade.Proofs.WrittenAtoms

/-!
# The tokens of written values

The text that is written for a value is cut into the tokens that the value consists of, whichever
of the two layouts it is written in: what stands between them is blank.
-/

namespace StorageUpgrade.Json

namespace Token

/-! ## Reading on -/

/-- A text begins with the given tokens, and `rest` is what stands behind them. -/
structure Reads (text : List Char) (tokens : List Token) (rest : List Char) : Prop where
  readUpTo : ∀ budget, readUpTo (tokens.length + budget) text = tokens ++ readUpTo budget rest
  length_le : tokens.length + rest.length ≤ text.length

section

variable {text rest rest' : List Char} {tokens tokens' : List Token}

theorem Reads.nil (text : List Char) : Reads text [] text where
  readUpTo budget := by rw [List.length_nil, Nat.zero_add, List.nil_append]
  length_le := Nat.le_of_eq (Nat.zero_add _)

theorem Reads.append (h : Reads text tokens rest) (h' : Reads rest tokens' rest') :
    Reads text (tokens ++ tokens') rest' where
  readUpTo budget := by
    rw [List.length_append, Nat.add_assoc, h.readUpTo, h'.readUpTo, List.append_assoc]
  length_le := by
    have hfirst := h.length_le
    have hsecond := h'.length_le
    rw [List.length_append]
    omega

theorem reads_of_read? {c : Char} {token : Token} (hblank : isBlank c = false)
    (h : read? c text = some (token, rest)) (hlength : rest.length ≤ text.length) :
    Reads (c :: text) [token] rest where
  readUpTo budget := by
    have hnot : ¬ isBlank c = true := Bool.eq_false_iff.1 hblank
    rw [List.length_singleton, Nat.add_comm, readUpTo.eq_def, List.dropWhile_cons_of_neg hnot]
    simp only [h]
    rfl
  length_le := by
    rw [List.length_singleton, List.length_cons]
    omega

/-- A bracket, a comma or a colon. -/
theorem Reads.mark {c : Char} {token : Token} (h : Reads text tokens rest)
    (hblank : isBlank c = false) (hread : read? c text = some (token, text)) :
    Reads (c :: text) (token :: tokens) rest :=
  (reads_of_read? hblank hread (Nat.le_refl _)).append h

theorem Reads.blanks {blanks : List Char} (h : Reads text tokens rest)
    (hblanks : ∀ c ∈ blanks, isBlank c = true) : Reads (blanks ++ text) tokens rest where
  readUpTo budget := by
    have hskip : Token.readUpTo (tokens.length + budget) (blanks ++ text) =
        Token.readUpTo (tokens.length + budget) text := by
      rw [Token.readUpTo.eq_def, Token.readUpTo.eq_def _ text,
        List.dropWhile_append_of_pos hblanks]
    rw [hskip, h.readUpTo]
  length_le := by
    have hlength := h.length_le
    rw [List.length_append]
    omega

theorem Reads.lineBreak (h : Reads text tokens rest) (style : Style) (level : Nat) :
    Reads (style.lineBreak level ++ text) tokens rest := by
  refine h.blanks fun c hc => ?_
  cases style with
  | compact => cases hc
  | indented =>
    rcases List.mem_cons.1 hc with rfl | hc
    · rfl
    · rw [List.eq_of_mem_replicate hc]
      rfl

theorem Reads.colon (h : Reads text tokens rest) (style : Style) :
    Reads (style.colon ++ text) (.colon :: tokens) rest := by
  cases style with
  | compact => exact h.mark rfl rfl
  | indented =>
    have hblank : Reads ([' '] ++ text) tokens rest := h.blanks (by simp [isBlank])
    exact hblank.mark rfl rfl

theorem reads_writeString (name : String) (rest : List Char) :
    Reads (writeString name rest) [.string (some name)] rest := by
  have hread : read? '"' (name.toList.flatMap writeChar ++ '"' :: rest) =
      some (.string (some name), rest) := by
    change (readString? _).map _ = _
    rw [readString?_written]
    rfl
  refine reads_of_read? rfl hread ?_
  rw [List.length_append, List.length_cons]
  omega

/-- What is written for a field of an object, with its name in front. -/
theorem Reads.named (h : Reads text tokens rest) (style : Style) (level : Nat) (name : String) :
    Reads (style.lineBreak level ++ writeString name (style.colon ++ text))
      (.string (some name) :: .colon :: tokens) rest :=
  ((reads_writeString name _).append (h.colon style)).lineBreak style level

/-- The tokens of a text up to its end. -/
theorem Reads.readAll (h : Reads text tokens []) : readAll text = tokens := by
  have hend : ∀ budget, Token.readUpTo budget [] = [] := fun budget => by
    rw [Token.readUpTo.eq_def]
    rfl
  obtain ⟨budget, hbudget⟩ := Nat.exists_eq_add_of_le h.length_le
  rw [Token.readAll, hbudget, List.length_nil, Nat.add_zero, h.readUpTo, hend, List.append_nil]

end

end Token

/-! ## Values -/

mutual

/-- Whether a value is told by its text: it has no numbers but integers of 64 bits, signs apart. -/
def isPlain : Json → Bool
  | .integer value => value.natAbs < Nat.pow 2 64
  | .decimal _ => false
  | .array items => itemsPlain items
  | .object fields => fieldsPlain fields
  | _ => true

def itemsPlain : List Json → Bool
  | [] => true
  | v :: vs => v.isPlain && itemsPlain vs

def fieldsPlain : List (String × Json) → Bool
  | [] => true
  | (_, v) :: fields => v.isPlain && fieldsPlain fields

end

theorem isPlain_array {α : Type} {write : α → Json} {as : List α}
    (h : ∀ a ∈ as, (write a).isPlain = true) : (array (as.map write)).isPlain = true := by
  change itemsPlain (as.map write) = true
  induction as with
  | nil => rfl
  | cons a as ih =>
    rw [List.forall_mem_cons] at h
    exact Bool.and_eq_true_iff.2 ⟨h.1, ih h.2⟩

theorem isPlain_object {fields : List (String × Json)}
    (h : ∀ field ∈ fields, field.2.isPlain = true) : (object fields).isPlain = true := by
  change fieldsPlain fields = true
  induction fields with
  | nil => rfl
  | cons field fields ih =>
    rw [List.forall_mem_cons] at h
    exact Bool.and_eq_true_iff.2 ⟨h.1, ih h.2⟩

mutual

/-- The tokens that a value consists of. -/
def tokens : Json → List Token
  | .null => [.null]
  | .bool value => [.bool value]
  | .integer value => [.integer value]
  | .decimal text => [.decimal text]
  | .string text => [.string (some text)]
  | .array [] => [.openArray, .closeArray]
  | .array (v :: vs) => .openArray :: (v.tokens ++ itemTokens vs)
  | .object [] => [.openObject, .closeObject]
  | .object ((name, v) :: fields) =>
    .openObject :: .string (some name) :: .colon :: (v.tokens ++ fieldTokens fields)

/-- The tokens of the further items of an array, with its closing bracket. -/
def itemTokens : List Json → List Token
  | [] => [.closeArray]
  | v :: vs => .comma :: (v.tokens ++ itemTokens vs)

/-- The tokens of the further fields of an object, with its closing bracket. -/
def fieldTokens : List (String × Json) → List Token
  | [] => [.closeObject]
  | (name, v) :: fields =>
    .comma :: .string (some name) :: .colon :: (v.tokens ++ fieldTokens fields)

end

theorem endsNumber_lineBreak {style : Style} {level : Nat} {c : Char} {rest : List Char}
    (h : c.isDigit = false ∧ c ≠ '.' ∧ c ≠ 'e' ∧ c ≠ 'E') :
    Numeral.EndsNumber (style.lineBreak level ++ c :: rest) := by
  intro d hd
  cases style with
  | compact => exact Option.some.inj hd ▸ h
  | indented =>
    cases hd
    decide

theorem endsNumber_writeItems (style : Style) (level : Nat) (rest : List Char) (vs : List Json) :
    Numeral.EndsNumber (writeItems style level rest vs) := by
  cases vs with
  | nil => exact endsNumber_lineBreak (by decide)
  | cons v vs =>
    rintro d ⟨⟩
    decide

theorem endsNumber_writeFields (style : Style) (level : Nat) (rest : List Char)
    (fields : List (String × Json)) :
    Numeral.EndsNumber (writeFields style level rest fields) := by
  cases fields with
  | nil => exact endsNumber_lineBreak (by decide)
  | cons field fields =>
    rintro d ⟨⟩
    decide

mutual

/-- What is written for a plain value is read as its tokens, whatever stands behind it. -/
theorem reads_write (style : Style) (level : Nat) {rest : List Char}
    (hrest : Numeral.EndsNumber rest) (v : Json) (h : v.isPlain = true) :
    Token.Reads (v.write style level rest) v.tokens rest := by
  match v with
  | .null => exact Token.reads_of_read? rfl rfl (Nat.le_add_right _ 3)
  | .bool true => exact Token.reads_of_read? rfl rfl (Nat.le_add_right _ 3)
  | .bool false => exact Token.reads_of_read? rfl rfl (Nat.le_add_right _ 4)
  | .integer value =>
    have hsize : value.natAbs < Nat.pow 2 64 := of_decide_eq_true h
    obtain ⟨c, text, htext, hblank, hread⟩ := Token.read?_integerText hsize hrest
    have hwrite : write style level rest (.integer value) = c :: (text ++ rest) :=
      congrArg (· ++ rest) htext
    have hlength : rest.length ≤ (text ++ rest).length := by simp
    exact hwrite ▸ Token.reads_of_read? hblank hread hlength
  | .decimal text => cases h
  | .string text => exact Token.reads_writeString text rest
  | .array [] => exact ((Token.Reads.nil rest).mark rfl rfl).mark rfl rfl
  | .array (v :: vs) =>
    obtain ⟨hv, hvs⟩ := Bool.and_eq_true_iff.1 h
    have hend := endsNumber_writeItems style level rest vs
    have hitem := reads_write style (level + 1) hend v hv
    have hitems := reads_writeItems style level rest vs hvs
    exact ((hitem.append hitems).lineBreak style (level + 1)).mark rfl rfl
  | .object [] => exact ((Token.Reads.nil rest).mark rfl rfl).mark rfl rfl
  | .object ((name, v) :: fields) =>
    obtain ⟨hv, hfields⟩ := Bool.and_eq_true_iff.1 h
    have hend := endsNumber_writeFields style level rest fields
    have hvalue := reads_write style (level + 1) hend v hv
    have hmore := reads_writeFields style level rest fields hfields
    exact ((hvalue.append hmore).named style (level + 1) name).mark rfl rfl

theorem reads_writeItems (style : Style) (level : Nat) (rest : List Char) (vs : List Json)
    (h : itemsPlain vs = true) :
    Token.Reads (writeItems style level rest vs) (itemTokens vs) rest := by
  match vs with
  | [] => exact ((Token.Reads.nil rest).mark rfl rfl).lineBreak style level
  | v :: vs =>
    obtain ⟨hv, hvs⟩ := Bool.and_eq_true_iff.1 h
    have hend := endsNumber_writeItems style level rest vs
    have hitem := reads_write style (level + 1) hend v hv
    have hitems := reads_writeItems style level rest vs hvs
    exact ((hitem.append hitems).lineBreak style (level + 1)).mark rfl rfl

theorem reads_writeFields (style : Style) (level : Nat) (rest : List Char)
    (fields : List (String × Json)) (h : fieldsPlain fields = true) :
    Token.Reads (writeFields style level rest fields) (fieldTokens fields) rest := by
  match fields with
  | [] => exact ((Token.Reads.nil rest).mark rfl rfl).lineBreak style level
  | (name, v) :: fields =>
    obtain ⟨hv, hfields⟩ := Bool.and_eq_true_iff.1 h
    have hend := endsNumber_writeFields style level rest fields
    have hvalue := reads_write style (level + 1) hend v hv
    have hmore := reads_writeFields style level rest fields hfields
    exact ((hvalue.append hmore).named style (level + 1) name).mark rfl rfl

end

/-- A plain value is cut into its tokens when it is read from its own text. -/
theorem readAll_write (style : Style) {v : Json} (h : v.isPlain = true) :
    Token.readAll (v.write style 0 []) = v.tokens := by
  have hend : Numeral.EndsNumber [] := by
    intro c hc
    cases hc
  exact (reads_write style 0 hend v h).readAll

end StorageUpgrade.Json
