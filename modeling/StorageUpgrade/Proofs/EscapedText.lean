import Mathlib.Data.List.Chain
import Mathlib.Data.String.Basic
import StorageUpgrade.Identifier.Basic

/-!
# Which texts are read back from their escaped form

Tokens run into each other: the escaped forms of an underscore before an opening bracket and of a
comma are the same. A text is read back exactly if no two characters in it are neighbours whose
tokens do that, and if it has no dollar sign, which only stands for the start of a token. Nothing
is said here of texts that are not the escaped form of another one, beyond that reading leaves no
dollar sign.
-/

namespace StorageUpgrade.Identifier.Escape

theorem isDelimiter_eq_false_iff {c : Char} :
    isDelimiter c = false ↔ c ≠ '(' ∧ c ≠ ',' ∧ c ≠ ')' := by
  simp only [isDelimiter, Bool.or_eq_false_iff, decide_eq_false_iff_not]
  tauto

/-- A character is one of the three that have a token, or it is written as it is. -/
theorem delimiter_cases (c : Char) :
    c = '(' ∨ c = ',' ∨ c = ')' ∨ isDelimiter c = false ∧ token c = [c] := by
  by_cases h : isDelimiter c = false
  · obtain ⟨hopen, hcomma, hclose⟩ := isDelimiter_eq_false_iff.1 h
    refine .inr (.inr (.inr ⟨h, ?_⟩))
    simp [token]
  · rw [isDelimiter_eq_false_iff] at h
    tauto

/-! ## Neighbours -/

/-- The pairs of neighbours whose tokens are not read back as the two. -/
def colliding : List (List Char) :=
  ["),", ")_", "_(", "(_", ",_"].map String.toList

theorem length_of_mem_colliding : ∀ pair ∈ colliding, pair.length = 2 := by
  decide

/-- Whether two characters may stand next to each other. -/
def Joins (c d : Char) : Prop := [c, d] ∉ colliding

theorem joins_open {d : Char} : Joins '(' d ↔ d ≠ '_' := by
  simp [Joins, colliding]

theorem joins_comma {d : Char} : Joins ',' d ↔ d ≠ '_' := by
  simp [Joins, colliding]

theorem joins_close {d : Char} : Joins ')' d ↔ d ≠ ',' ∧ d ≠ '_' := by
  simp [Joins, colliding]

theorem joins_underscore {d : Char} : Joins '_' d ↔ d ≠ '(' := by
  simp [Joins, colliding]

/-- Only delimiters and underscores have tokens that others run into. -/
theorem joins_of_plain {c : Char} (hplain : isDelimiter c = false) (hunderscore : c ≠ '_')
    (d : Char) : Joins c d := by
  obtain ⟨hopen, hcomma, hclose⟩ := isDelimiter_eq_false_iff.1 hplain
  simp [Joins, colliding, hopen, hcomma, hclose, hunderscore]

/-- A text that has no dollar sign and no neighbours whose tokens run into each other. -/
structure Separable (text : List Char) : Prop where
  noDollar : '$' ∉ text
  joins : text.IsChain Joins

theorem separable_nil : Separable [] :=
  ⟨List.not_mem_nil, .nil⟩

theorem separable_cons {c : Char} {text : List Char} :
    Separable (c :: text) ↔ c ≠ '$' ∧ (∀ d ∈ text.head?, Joins c d) ∧ Separable text := by
  constructor
  · rintro ⟨hdollar, hjoins⟩
    rw [List.mem_cons, not_or] at hdollar
    rw [List.isChain_cons] at hjoins
    exact ⟨Ne.symm hdollar.1, hjoins.1, hdollar.2, hjoins.2⟩
  · rintro ⟨hc, hhead, hdollar, hjoins⟩
    exact ⟨by simp [Ne.symm hc, hdollar], List.isChain_cons.2 ⟨hhead, hjoins⟩⟩

/-- Separable texts are those without a dollar sign and without any of the colliding pairs. -/
theorem separable_iff {text : List Char} :
    Separable text ↔ '$' ∉ text ∧ ∀ pair ∈ colliding, ¬ pair <:+: text := by
  have hpairs : text.IsChain Joins ↔ ∀ pair ∈ colliding, ¬ pair <:+: text := by
    rw [List.isChain_iff_forall_rel_of_append_cons_cons]
    constructor
    · rintro hjoins pair hpair ⟨left, right, rfl⟩
      obtain ⟨c, d, rfl⟩ := List.length_eq_two.1 (length_of_mem_colliding pair hpair)
      exact hjoins (List.append_assoc left [c, d] right) hpair
    · rintro hnone c d left right rfl hpair
      exact hnone _ hpair ⟨left, right, by simp⟩
  exact ⟨fun h => ⟨h.noDollar, hpairs.1 h.joins⟩, fun h => ⟨h.1, hpairs.2 h.2⟩⟩

/-! ## From a text to its escaped form and back -/

theorem tiled_cons {c : Char} (hdollar : c ≠ '$') (hunderscore : c ≠ '_') (rest : List Char) :
    tiled (c :: rest) = true := by
  simp [tiled, hdollar, hunderscore]

/-- The token of a closing bracket may stand before tokens, also where it could be taken for the
beginning of a comma's. -/
theorem tiled_close {rest : List Char} (h : tiled rest = true) :
    tiled ('_' :: '$' :: rest) = true := by
  cases rest with
  | nil => rfl
  | cons d rest =>
    by_cases hd : d = '_'
    · subst hd
      simp [tiled, h]
    · simp [tiled, h, hd]

/-- Away from escapes, characters are read as they are. -/
theorem decodeFrom_cons {c : Char} {rest : List Char} (hc : c ≠ '$')
    (hrest : c = '_' → rest.head? ≠ some '$') (offset : Nat) :
    decodeFrom offset (c :: rest) = (decodeFrom (offset + c.utf8Size) rest).map (c :: ·) := by
  rw [decodeFrom]
  · exact fun _ h => absurd h hc
  · exact hc
  · rintro rest' h rfl
    exact hrest h rfl
  · rintro rest' h rfl
    exact hrest h rfl

/-- A closing bracket is read where no comma can be. -/
theorem decodeFrom_close {rest : List Char} (h : tiled rest = true)
    (hcomma : ∀ behind, rest = '_' :: behind → tiled behind = false) (offset : Nat) :
    decodeFrom offset ('_' :: '$' :: rest) = (decodeFrom (offset + 2) rest).map (')' :: ·) := by
  cases rest with
  | nil => rfl
  | cons d rest =>
    by_cases hd : d = '_'
    · subst hd
      simp [decodeFrom, h, hcomma rest rfl]
    · rw [decodeFrom, if_pos h]
      rintro behind ⟨⟩
      exact hd rfl

/-- Behind a closing bracket that stands in place of the end of a comma's token no tokens follow. -/
theorem not_tiled_of_encode_close {text behind : List Char} (h : Separable (')' :: text))
    (hbehind : encode text = '_' :: behind) : tiled behind = false := by
  induction text generalizing behind with
  | nil => cases hbehind
  | cons c text ih =>
    obtain ⟨-, hjoins, htext⟩ := separable_cons.1 h
    obtain ⟨hcomma, hunderscore⟩ := joins_close.1 (hjoins c rfl)
    rw [encode_cons] at hbehind
    rcases delimiter_cases c with rfl | rfl | rfl | ⟨-, htoken⟩
    · cases hbehind
    · exact absurd rfl hcomma
    · cases hbehind
      change tiled ('$' :: encode text) = false
      cases hrest : encode text with
      | nil => rfl
      | cons d rest =>
        by_cases hd : d = '_'
        · subst hd
          have hnone : tiled rest = false := ih htext hrest
          rwa [tiled]
        · simp [tiled, hd]
    · rw [htoken] at hbehind
      cases hbehind
      exact absurd rfl hunderscore

theorem tiled_encode {text : List Char} (h : Separable text) (hhead : text.head? ≠ some '_') :
    tiled (encode text) = true := by
  induction text with
  | nil => rfl
  | cons c text ih =>
    obtain ⟨hdollar, hjoins, htext⟩ := separable_cons.1 h
    rw [encode_cons]
    rcases delimiter_cases c with rfl | rfl | rfl | ⟨-, htoken⟩
    · exact ih htext fun hd => joins_open.1 (hjoins '_' hd) rfl
    · have hrest := ih htext fun hd => joins_comma.1 (hjoins '_' hd) rfl
      simp [token, tiled, hrest]
    · exact tiled_close (ih htext fun hd => (joins_close.1 (hjoins '_' hd)).2 rfl)
    · rw [htoken]
      exact tiled_cons hdollar (fun hc => hhead (congrArg some hc)) _

/-- The escaped form of a text begins with a dollar sign only for an opening bracket. -/
theorem head?_encode_ne_dollar {text : List Char} (h : Separable text)
    (hopen : text.head? ≠ some '(') : (encode text).head? ≠ some '$' := by
  cases text with
  | nil => exact nofun
  | cons c text =>
    obtain ⟨hdollar, -, -⟩ := separable_cons.1 h
    rw [encode_cons]
    rcases delimiter_cases c with rfl | rfl | rfl | ⟨-, htoken⟩
    · exact absurd rfl hopen
    · simp [token]
    · simp [token]
    · simpa [htoken] using hdollar

theorem decodeFrom_encode {text : List Char} (h : Separable text) (offset : Nat) :
    decodeFrom offset (encode text) = .ok text := by
  induction text generalizing offset with
  | nil => rfl
  | cons c text ih =>
    obtain ⟨hdollar, hjoins, htext⟩ := separable_cons.1 h
    rw [encode_cons]
    rcases delimiter_cases c with rfl | rfl | rfl | ⟨-, htoken⟩
    · have htiled := tiled_encode htext fun hd => joins_open.1 (hjoins '_' hd) rfl
      simp [token, decodeFrom, htiled, ih htext, Except.map]
    · have htiled := tiled_encode htext fun hd => joins_comma.1 (hjoins '_' hd) rfl
      simp [token, decodeFrom, htiled, ih htext, Except.map]
    · have htiled := tiled_encode htext fun hd => (joins_close.1 (hjoins '_' hd)).2 rfl
      have hbehind : ∀ behind, encode text = '_' :: behind → tiled behind = false :=
        fun _ => not_tiled_of_encode_close h
      exact (decodeFrom_close htiled hbehind offset).trans (by rw [ih htext]; rfl)
    · have hnext : c = '_' → (encode text).head? ≠ some '$' := by
        rintro rfl
        exact head?_encode_ne_dollar htext fun hd => joins_underscore.1 (hjoins '(' hd) rfl
      rw [htoken, List.singleton_append, decodeFrom_cons hdollar hnext, ih htext]
      rfl

/-! ## What reading gives -/

/-- Reading takes every dollar sign for a part of a token. -/
theorem dollar_not_mem_of_decodeFrom {offset : Nat} {raw text : List Char}
    (h : decodeFrom offset raw = .ok text) : '$' ∉ text := by
  fun_induction decodeFrom offset raw generalizing text with
  | case1 => cases h; simp
  | case3 | case4 | case7 | case9 => cases h
  | case2 offset rest _ ih | case5 offset rest _ ih | case6 offset rest _ _ ih
  | case8 offset rest _ _ ih =>
    obtain ⟨text, hdecode, rfl⟩ := map_eq_ok_iff.1 h
    simpa using ih hdecode
  | case10 offset c rest _ hdollar _ _ ih =>
    obtain ⟨text, hdecode, rfl⟩ := map_eq_ok_iff.1 h
    simpa [Ne.symm hdollar] using ih hdecode

/-- A text without dollar signs has no escapes. -/
theorem decodeFrom_of_dollar_not_mem {text : List Char} (h : '$' ∉ text) (offset : Nat) :
    decodeFrom offset text = .ok text := by
  induction text generalizing offset with
  | nil => rfl
  | cons c text ih =>
    rw [List.mem_cons, not_or] at h
    have hhead : c = '_' → text.head? ≠ some '$' := fun _ hd => h.2 (List.mem_of_mem_head? hd)
    rw [decodeFrom_cons (Ne.symm h.1) hhead, ih h.2]
    rfl

/-- What is read first tells how the raw text begins. -/
theorem decodeFrom_eq_cons {offset : Nat} {raw text : List Char} {c : Char}
    (h : decodeFrom offset raw = .ok (c :: text)) :
    (c = '(' ∧ ∃ rest, raw = '$' :: '_' :: rest) ∨
      (c = ',' ∧ ∃ rest, raw = '_' :: '$' :: '_' :: rest ∧ tiled rest = true) ∨
      (c = ')' ∧ ∃ rest, raw = '_' :: '$' :: rest) ∨
      ∃ rest, raw = c :: rest ∧ (c = '_' → rest.head? ≠ some '$') := by
  fun_induction decodeFrom offset raw with
  | case1 | case3 | case4 | case7 | case9 => cases h
  | case2 offset rest =>
    obtain ⟨_, -, heq⟩ := map_eq_ok_iff.1 h
    cases heq
    exact .inl ⟨rfl, rest, rfl⟩
  | case5 offset rest htiled =>
    obtain ⟨_, -, heq⟩ := map_eq_ok_iff.1 h
    cases heq
    exact .inr (.inl ⟨rfl, rest, rfl, htiled⟩)
  | case6 offset rest | case8 offset rest =>
    obtain ⟨_, -, heq⟩ := map_eq_ok_iff.1 h
    cases heq
    exact .inr (.inr (.inl ⟨rfl, _, rfl⟩))
  | case10 offset d rest hopen hdollar hcomma hclose =>
    obtain ⟨_, -, heq⟩ := map_eq_ok_iff.1 h
    cases heq
    refine .inr (.inr (.inr ⟨rest, rfl, fun hc hhead => ?_⟩))
    obtain ⟨behind, rfl⟩ := List.head?_eq_some_iff.1 hhead
    exact hclose behind hc rfl

/-- Where tokens can follow, no underscore is read first. -/
theorem head?_ne_underscore {offset : Nat} {raw text : List Char} (htiled : tiled raw = true)
    (h : decodeFrom offset raw = .ok text) : text.head? ≠ some '_' := by
  intro hhead
  obtain ⟨text, rfl⟩ := List.head?_eq_some_iff.1 hhead
  rcases decodeFrom_eq_cons h with ⟨hc, -⟩ | ⟨hc, -⟩ | ⟨hc, -⟩ | ⟨rest, rfl, hrest⟩
  · cases hc
  · cases hc
  · cases hc
  · cases rest with
    | nil => cases htiled
    | cons d rest =>
      have hd : d ≠ '$' := fun hd => hrest rfl (congrArg some hd)
      simp [tiled, hd] at htiled

section

variable {offset : Nat} {raw text : List Char}

/-- A comma is read first only where its token can stand. -/
theorem head?_ne_comma (hraw : ∀ c ∈ raw, isDelimiter c = false)
    (htoken : ∀ rest, raw = '_' :: '$' :: '_' :: rest → tiled rest = false)
    (h : decodeFrom offset raw = .ok text) : text.head? ≠ some ',' := by
  intro hhead
  obtain ⟨text, rfl⟩ := List.head?_eq_some_iff.1 hhead
  rcases decodeFrom_eq_cons h with ⟨hc, -⟩ | ⟨-, rest, rfl, htiled⟩ | ⟨hc, -⟩ | ⟨rest, rfl, -⟩
  · cases hc
  · rw [htoken rest rfl] at htiled
    cases htiled
  · cases hc
  · exact absurd (hraw _ List.mem_cons_self) (by decide)

theorem head?_ne_open (hraw : ∀ c ∈ raw, isDelimiter c = false) (hdollar : raw.head? ≠ some '$')
    (h : decodeFrom offset raw = .ok text) : text.head? ≠ some '(' := by
  intro hhead
  obtain ⟨text, rfl⟩ := List.head?_eq_some_iff.1 hhead
  rcases decodeFrom_eq_cons h with ⟨-, rest, rfl⟩ | ⟨hc, -⟩ | ⟨hc, -⟩ | ⟨rest, rfl, -⟩
  · exact hdollar rfl
  · cases hc
  · cases hc
  · exact absurd (hraw _ List.mem_cons_self) (by decide)

/-- A closing bracket may stand before what is read next, where no comma could be read for it. -/
theorem separable_close (htiled : tiled raw = true) (hraw : ∀ c ∈ raw, isDelimiter c = false)
    (htoken : ∀ rest, raw = '_' :: '$' :: '_' :: rest → tiled rest = false)
    (h : decodeFrom offset raw = .ok text) (htext : Separable text) :
    Separable (')' :: text) := by
  have hunderscore := head?_ne_underscore htiled h
  have hcomma := head?_ne_comma hraw htoken h
  refine separable_cons.2 ⟨by decide, fun d hd => joins_close.2 ⟨?_, ?_⟩, htext⟩
  · rintro rfl
    exact hcomma hd
  · rintro rfl
    exact hunderscore hd

end

/-- What is read from a raw text without delimiters is separable. -/
theorem separable_of_decodeFrom {offset : Nat} {raw text : List Char}
    (hraw : ∀ c ∈ raw, isDelimiter c = false) (h : decodeFrom offset raw = .ok text) :
    Separable text := by
  fun_induction decodeFrom offset raw generalizing text with
  | case1 =>
    cases h
    exact separable_nil
  | case3 | case4 | case7 | case9 => cases h
  | case2 offset rest htiled ih =>
    obtain ⟨text, hdecode, rfl⟩ := map_eq_ok_iff.1 h
    have hunderscore := head?_ne_underscore htiled hdecode
    refine separable_cons.2 ⟨by decide, fun d hd => joins_open.2 ?_, ih ?_ hdecode⟩
    · rintro rfl
      exact hunderscore hd
    · exact fun c hc => hraw c (by simp [hc])
  | case5 offset rest htiled ih =>
    obtain ⟨text, hdecode, rfl⟩ := map_eq_ok_iff.1 h
    have hunderscore := head?_ne_underscore htiled hdecode
    refine separable_cons.2 ⟨by decide, fun d hd => joins_comma.2 ?_, ih ?_ hdecode⟩
    · rintro rfl
      exact hunderscore hd
    · exact fun c hc => hraw c (by simp [hc])
  | case6 offset rest hcomma htiled ih =>
    obtain ⟨text, hdecode, rfl⟩ := map_eq_ok_iff.1 h
    have hplain : ∀ c ∈ '_' :: rest, isDelimiter c = false := fun c hc => hraw c (by simp_all)
    refine separable_close htiled hplain ?_ hdecode (ih hplain hdecode)
    rintro behind ⟨⟩
    simpa [tiled] using hcomma
  | case8 offset rest hrest htiled ih =>
    obtain ⟨text, hdecode, rfl⟩ := map_eq_ok_iff.1 h
    have hplain : ∀ c ∈ rest, isDelimiter c = false := fun c hc => hraw c (by simp [hc])
    refine separable_close htiled hplain ?_ hdecode (ih hplain hdecode)
    exact fun behind hbehind => absurd hbehind (hrest _)
  | case10 offset c rest _ hdollar _ hclose ih =>
    obtain ⟨text, hdecode, rfl⟩ := map_eq_ok_iff.1 h
    have hplain : ∀ c ∈ rest, isDelimiter c = false := fun d hd => hraw d (by simp [hd])
    refine separable_cons.2 ⟨hdollar, fun d hd => ?_, ih hplain hdecode⟩
    by_cases hunderscore : c = '_'
    · subst hunderscore
      refine joins_underscore.2 ?_
      rintro rfl
      refine head?_ne_open hplain (fun hhead => ?_) hdecode hd
      obtain ⟨behind, rfl⟩ := List.head?_eq_some_iff.1 hhead
      exact hclose behind rfl rfl
    · exact joins_of_plain (hraw c List.mem_cons_self) hunderscore d

/-- No token has a delimiter in it. -/
theorem not_isDelimiter_of_mem_token {c d : Char} (h : c ∈ token d) : isDelimiter c = false := by
  rcases delimiter_cases d with rfl | rfl | rfl | ⟨hplain, htoken⟩
  case inr.inr.inr =>
    rw [htoken, List.mem_singleton] at h
    exact h ▸ hplain
  all_goals
    simp only [token, List.mem_cons, List.not_mem_nil, or_false] at h
    rw [isDelimiter_eq_false_iff]
    rcases h with rfl | rfl | rfl <;> exact ⟨by decide, by decide, by decide⟩

/-- The escaped form of a text has no delimiters. -/
theorem not_isDelimiter_of_mem_encode {text : List Char} {c : Char} (h : c ∈ encode text) :
    isDelimiter c = false := by
  obtain ⟨d, -, hc⟩ := List.mem_flatMap.1 h
  exact not_isDelimiter_of_mem_token hc

theorem decode_encode_eq_ok_iff {text : List Char} :
    decode (encode text) = .ok text ↔ Separable text :=
  ⟨separable_of_decodeFrom fun _ => not_isDelimiter_of_mem_encode, fun h => decodeFrom_encode h 0⟩

end StorageUpgrade.Identifier.Escape

namespace StorageUpgrade.Identifier

/-- A text is read back from its escaped form exactly if it has no dollar sign and none of five
pairs of neighbours. -/
theorem decode_encode_iff (text : String) :
    decode (encode text) = .ok text ↔
      '$' ∉ text.toList ∧ ∀ pair ∈ ["),", ")_", "_(", "(_", ",_"],
        ¬ pair.toList <:+: text.toList := by
  have hdecode : decode (encode text) = .ok text ↔
      Escape.decode (Escape.encode text.toList) = .ok text.toList := by
    unfold decode encode mapDecoded
    rw [String.toList_ofList]
    cases Escape.decode (Escape.encode text.toList) with
    | error position => simp
    | ok read => simp [String.ofList_eq]
  rw [hdecode, Escape.decode_encode_eq_ok_iff, Escape.separable_iff, Escape.colliding,
    List.forall_mem_map]

end StorageUpgrade.Identifier
