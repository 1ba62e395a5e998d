import StorageUpgrade.Proofs.Normalization

/-!
# Decoded identifiers

Decoding writes each token as the delimiter that it stands for and leaves all else as it is, so
escaping the delimiters again gives the text back. What has been decoded has no dollar sign and
stays as it is, and whatever is asked of it has the answer that the raw identifier has. Which
identifiers can be decoded is not looked at here.
-/

namespace StorageUpgrade.Identifier

namespace Escape

/-- A delimiter is escaped as the token that it has been read from. -/
theorem encode_of_decodeFrom {offset : Nat} {raw text : List Char}
    (h : decodeFrom offset raw = .ok text) : encode text = encode raw := by
  fun_induction decodeFrom offset raw generalizing text with
  | case1 =>
    cases h
    rfl
  | case3 | case4 | case7 | case9 => cases h
  | case2 offset rest _ ih | case5 offset rest _ ih | case6 offset rest _ _ ih
  | case8 offset rest _ _ ih | case10 offset c rest _ _ _ _ ih =>
    obtain ⟨text, hdecode, rfl⟩ := map_eq_ok_iff.1 h
    have hrest := ih hdecode
    simp [token, hrest]

/-- Without delimiters there is nothing to be escaped. -/
theorem encode_eq_self {text : List Char} (h : ∀ c ∈ text, isDelimiter c = false) :
    encode text = text := by
  induction text with
  | nil => rfl
  | cons c text ih =>
    rw [List.forall_mem_cons] at h
    have htoken : token c = [c] := by
      obtain ⟨hopen, hcomma, hclose⟩ := isDelimiter_eq_false_iff.1 h.1
      simp [token]
    rw [encode_cons, htoken, ih h.2, List.singleton_append]

end Escape

/-- An identifier as the compiler writes it, with a token in place of every delimiter. -/
def FullyEscaped (raw : String) : Prop := ∀ c ∈ raw.toList, isDelimiter c = false

instance (raw : String) : Decidable (FullyEscaped raw) :=
  List.decidableBAll (isDelimiter · = false) raw.toList

section

variable {raw text : String}

theorem dollar_not_mem_of_decode (h : decode raw = .ok text) : '$' ∉ text.toList :=
  Escape.dollar_not_mem_of_decodeFrom (decode_eq_ok_iff_toList.1 h)

theorem decode_eq_self (h : '$' ∉ text.toList) : decode text = .ok text :=
  decode_eq_ok_iff_toList.2 (Escape.decodeFrom_of_dollar_not_mem h 0)

theorem encode_of_decode (h : decode raw = .ok text) : encode text = encode raw :=
  congrArg String.ofList (Escape.encode_of_decodeFrom (decode_eq_ok_iff_toList.1 h))

theorem FullyEscaped.encode_eq_self (h : FullyEscaped raw) : encode raw = raw := by
  rw [encode, Escape.encode_eq_self h, String.ofList_toList]

/-- Whatever is asked of the decoded text of an identifier can be asked of the identifier. -/
theorem mapDecoded_of_decode (f : List Char → List Char) (h : decode raw = .ok text) :
    mapDecoded f text = mapDecoded f raw := by
  have hagain := decode_eq_self (dollar_not_mem_of_decode h)
  rw [decode_eq_ok_iff_toList] at h hagain
  rw [mapDecoded, hagain, mapDecoded, h]

/-- Decoding loses nothing: the escaped form of the decoded text is that of the identifier, which is
the identifier itself if it was escaped in full, and no other such identifier has the same decoded
text. And it is done once and for all: decoding the text again leaves it as it is, and its
normalized form, its stable form and its structure are those of the identifier. -/
theorem decode_keeps (h : decode raw = .ok text) :
    '$' ∉ text.toList ∧ encode text = encode raw ∧
      (FullyEscaped raw → encode text = raw ∧
        ∀ other, FullyEscaped other → decode other = .ok text → other = raw) ∧
      decode text = .ok text ∧ normalize text = normalize raw ∧
      stabilize text = stabilize raw ∧ parse text = parse raw := by
  have hdollar := dollar_not_mem_of_decode h
  have hnormalize : normalize text = normalize raw := mapDecoded_of_decode _ h
  have hparse : parse text = parse raw := by
    unfold parse
    rw [hnormalize]
  refine ⟨hdollar, encode_of_decode h, fun hraw => ?_, decode_eq_self hdollar, hnormalize,
    mapDecoded_of_decode _ h, hparse⟩
  have hencode : encode text = raw := (encode_of_decode h).trans hraw.encode_eq_self
  refine ⟨hencode, fun other hother hdecode => ?_⟩
  rw [← hother.encode_eq_self, ← encode_of_decode hdecode, hencode]

/-- Tokens that run into each other at the end of a mapping. -/
theorem decode_keeps_nested :
    decode "t_mapping$_t_bool_$_t_mapping$_t_enum$_E_$4_$_t_bool_$_$" =
        .ok "t_mapping(t_bool,t_mapping(t_enum(E)4,t_bool))" ∧
      FullyEscaped "t_mapping$_t_bool_$_t_mapping$_t_enum$_E_$4_$_t_bool_$_$" ∧
      encode "t_mapping(t_bool,t_mapping(t_enum(E)4,t_bool))" =
        "t_mapping$_t_bool_$_t_mapping$_t_enum$_E_$4_$_t_bool_$_$" ∧
      parse "t_mapping(t_bool,t_mapping(t_enum(E)4,t_bool))" =
        parse "t_mapping$_t_bool_$_t_mapping$_t_enum$_E_$4_$_t_bool_$_$" := by
  have hdecode : decode "t_mapping$_t_bool_$_t_mapping$_t_enum$_E_$4_$_t_bool_$_$" =
      .ok "t_mapping(t_bool,t_mapping(t_enum(E)4,t_bool))" := by decide +kernel
  have hraw : FullyEscaped "t_mapping$_t_bool_$_t_mapping$_t_enum$_E_$4_$_t_bool_$_$" := by
    decide +kernel
  obtain ⟨-, -, hescaped, -, -, -, hparse⟩ := decode_keeps hdecode
  exact ⟨hdecode, hraw, (hescaped hraw).1, hparse⟩

end

end StorageUpgrade.Identifier
