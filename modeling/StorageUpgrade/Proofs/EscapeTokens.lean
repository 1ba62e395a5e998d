import StorageUpgrade.Proofs.EscapedText

/-!
# Texts of escape tokens

Underscores and dollar signs that stand together can be put together of tokens in more than one way,
or in none. Looking ahead finds out whether there is a way. Where there is one, the tokens are
replaced one after the other, a comma's wherever tokens alone can follow it; then none of the checks
that are made on the way fails. Where there is none, reading ends at once.
-/

namespace StorageUpgrade.Identifier.Escape

/-! ## Tokens -/

/-- Whether tokens have a character in them. -/
def isMark (c : Char) : Bool := c == '_' || c == '$'

def tokens : List (List Char) := ["$_", "_$_", "_$"].map String.toList

/-- Texts that are put together of tokens. -/
def IsTokens (text : List Char) : Prop :=
  ∃ parts : List (List Char), (∀ part ∈ parts, part ∈ tokens) ∧ parts.flatten = text

theorem isTokens_nil : IsTokens [] :=
  ⟨[], by simp, rfl⟩

theorem IsTokens.token_append {text : List Char} (h : IsTokens text) (part : List Char)
    (hpart : part ∈ tokens) : IsTokens (part ++ text) := by
  obtain ⟨parts, hparts, rfl⟩ := h
  exact ⟨part :: parts, List.forall_mem_cons.2 ⟨hpart, hparts⟩, rfl⟩

/-- A text of tokens is empty or begins with one of them. -/
theorem IsTokens.cases {text : List Char} (h : IsTokens text) :
    text = [] ∨ (∃ rest, text = '$' :: '_' :: rest ∧ IsTokens rest) ∨
      (∃ rest, text = '_' :: '$' :: '_' :: rest ∧ IsTokens rest) ∨
      ∃ rest, text = '_' :: '$' :: rest ∧ IsTokens rest := by
  obtain ⟨parts, hparts, rfl⟩ := h
  cases parts with
  | nil => exact .inl rfl
  | cons part parts =>
    rw [List.forall_mem_cons] at hparts
    have hrest : IsTokens parts.flatten := ⟨parts, hparts.2, rfl⟩
    have hpart := hparts.1
    simp only [tokens, List.map_cons, List.map_nil, List.mem_cons, List.not_mem_nil, or_false]
      at hpart
    rcases hpart with rfl | rfl | rfl
    · exact .inr (.inl ⟨_, rfl, hrest⟩)
    · exact .inr (.inr (.inl ⟨_, rfl, hrest⟩))
    · exact .inr (.inr (.inr ⟨_, rfl, hrest⟩))

theorem isTokens_open {rest : List Char} : IsTokens ('$' :: '_' :: rest) ↔ IsTokens rest := by
  refine ⟨fun h => ?_, fun h => h.token_append ['$', '_'] (by decide)⟩
  rcases h.cases with heq | ⟨_, heq, hrest⟩ | ⟨_, heq, -⟩ | ⟨_, heq, -⟩
  · cases heq
  · cases heq
    exact hrest
  · cases heq
  · cases heq

theorem isTokens_comma {rest : List Char} :
    IsTokens ('_' :: '$' :: '_' :: rest) ↔ IsTokens rest ∨ IsTokens ('_' :: rest) := by
  constructor
  · intro h
    rcases h.cases with heq | ⟨_, heq, -⟩ | ⟨_, heq, hrest⟩ | ⟨_, heq, hrest⟩
    · cases heq
    · cases heq
    · cases heq
      exact .inl hrest
    · cases heq
      exact .inr hrest
  · rintro (h | h)
    · exact h.token_append ['_', '$', '_'] (by decide)
    · exact h.token_append ['_', '$'] (by decide)

theorem isTokens_close {rest : List Char} (hrest : rest.head? ≠ some '_') :
    IsTokens ('_' :: '$' :: rest) ↔ IsTokens rest := by
  refine ⟨fun h => ?_, fun h => h.token_append ['_', '$'] (by decide)⟩
  rcases h.cases with heq | ⟨_, heq, -⟩ | ⟨_, heq, -⟩ | ⟨_, heq, hrest⟩
  · cases heq
  · cases heq
  · cases heq
    exact absurd rfl hrest
  · cases heq
    exact hrest

/-- A dollar sign with nothing to open, or an underscore with nothing to close, begins no token. -/
theorem IsTokens.starts {c : Char} {rest : List Char} (h : IsTokens (c :: rest)) :
    c = '$' ∧ rest.head? = some '_' ∨ c = '_' ∧ rest.head? = some '$' := by
  rcases h.cases with heq | ⟨_, heq, -⟩ | ⟨_, heq, -⟩ | ⟨_, heq, -⟩
  · cases heq
  · cases heq
    exact .inl ⟨rfl, rfl⟩
  · cases heq
    exact .inr ⟨rfl, rfl⟩
  · cases heq
    exact .inr ⟨rfl, rfl⟩

theorem head?_takeWhile_isMark {c : Char} (hc : isMark c = true) {text : List Char} :
    (text.takeWhile isMark).head? = some c ↔ text.head? = some c := by
  rw [List.head?_takeWhile, Option.filter_eq_some_iff]
  exact ⟨And.left, fun h => ⟨h, hc⟩⟩

/-- What can be tiled is, up to the next character outside of tokens, put together of tokens. -/
theorem tiled_iff {text : List Char} :
    tiled text = true ↔ IsTokens (text.takeWhile isMark) := by
  fun_induction tiled text with
  | case1 => simp [isTokens_nil]
  | case2 rest ih =>
    rw [ih]
    simp [List.takeWhile, isMark, isTokens_open]
  | case3 rest ihComma ihClose =>
    rw [Bool.or_eq_true, ihComma, ihClose]
    simp [List.takeWhile, isMark, isTokens_comma]
  | case4 rest hrest ih =>
    have hhead : (rest.takeWhile isMark).head? ≠ some '_' := by
      rw [Ne, head?_takeWhile_isMark rfl]
      intro hhead
      obtain ⟨behind, rfl⟩ := List.head?_eq_some_iff.1 hhead
      exact hrest behind rfl
    rw [ih]
    simp [isMark, isTokens_close hhead]
  | case5 c rest hopen hcomma hclose =>
    by_cases hmark : isMark c = true
    · have hnone : ¬ IsTokens (c :: rest.takeWhile isMark) := by
        intro h
        rcases h.starts with ⟨rfl, hhead⟩ | ⟨rfl, hhead⟩
        · rw [head?_takeWhile_isMark rfl] at hhead
          obtain ⟨behind, rfl⟩ := List.head?_eq_some_iff.1 hhead
          exact hopen behind rfl rfl
        · rw [head?_takeWhile_isMark rfl] at hhead
          obtain ⟨behind, rfl⟩ := List.head?_eq_some_iff.1 hhead
          exact hclose behind rfl rfl
      simp only [List.takeWhile_cons, hmark, if_true, hnone, iff_false]
      simpa [isMark, imp_iff_or_not, or_comm] using hmark
    · have hplain := hmark
      simp only [isMark, Bool.or_eq_true, beq_iff_eq, not_or] at hplain
      simp [hmark, isTokens_nil, hplain]

/-! ## What is read of tokens -/

/-- Replacing the tokens that a text is put together of, one after the other. -/
inductive Replaces : List Char → List Char → Prop
  | done : Replaces [] []
  | opening {rest text : List Char} (h : Replaces rest text) :
      Replaces ('$' :: '_' :: rest) ('(' :: text)
  | comma {rest text : List Char} (hrest : IsTokens rest) (h : Replaces rest text) :
      Replaces ('_' :: '$' :: '_' :: rest) (',' :: text)
  | closing {rest text : List Char} (hrest : ∀ behind, rest = '_' :: behind → ¬ IsTokens behind)
      (h : Replaces rest text) : Replaces ('_' :: '$' :: rest) (')' :: text)

theorem Replaces.isTokens {block text : List Char} (h : Replaces block text) : IsTokens block := by
  induction h with
  | done => exact isTokens_nil
  | opening _ ih => exact isTokens_open.2 ih
  | comma hrest => exact isTokens_comma.2 (.inl hrest)
  | closing _ _ ih => exact ih.token_append ['_', '$'] (by decide)

/-- The tokens of any text of tokens can be replaced. -/
theorem IsTokens.exists_replaces {block : List Char} (h : IsTokens block) :
    ∃ text, Replaces block text := by
  rcases h.cases with rfl | ⟨rest, rfl, hrest⟩ | ⟨rest, rfl, hrest⟩ | ⟨rest, rfl, hrest⟩
  · exact ⟨[], .done⟩
  · obtain ⟨text, htext⟩ := hrest.exists_replaces
    exact ⟨_, .opening htext⟩
  · obtain ⟨text, htext⟩ := hrest.exists_replaces
    exact ⟨_, .comma hrest htext⟩
  · by_cases hcomma : ∃ behind, rest = '_' :: behind ∧ IsTokens behind
    · obtain ⟨behind, rfl, hbehind⟩ := hcomma
      obtain ⟨text, htext⟩ := hbehind.exists_replaces
      exact ⟨_, .comma hbehind htext⟩
    · obtain ⟨text, htext⟩ := hrest.exists_replaces
      exact ⟨_, .closing (fun behind heq hbehind => hcomma ⟨behind, heq, hbehind⟩) htext⟩
termination_by block.length

section

variable {block text rest : List Char}

/-- The block that a text begins with, if a character outside of tokens follows. -/
theorem takeWhile_isMark_append (hblock : ∀ c ∈ block, isMark c = true)
    (hrest : ∀ c ∈ rest.head?, isMark c = false) : (block ++ rest).takeWhile isMark = block := by
  have hnone : rest.takeWhile isMark = [] := by
    cases rest with
    | nil => rfl
    | cons c rest => simp [hrest c rfl]
  rw [List.takeWhile_append_of_pos hblock, hnone, List.append_nil]

theorem tiled_append_iff (hblock : ∀ c ∈ block, isMark c = true)
    (hrest : ∀ c ∈ rest.head?, isMark c = false) :
    tiled (block ++ rest) = true ↔ IsTokens block := by
  rw [tiled_iff, takeWhile_isMark_append hblock hrest]

theorem Replaces.isMark (h : Replaces block text) : ∀ c ∈ block, isMark c = true := by
  induction h with
  | done => exact fun c hc => absurd hc List.not_mem_nil
  | opening _ ih | comma _ _ ih | closing _ _ ih => simpa [Escape.isMark] using ih

/-- Tokens are read as they are replaced, whatever comes behind the block. -/
theorem decodeFrom_of_replaces (h : Replaces block text)
    (hrest : ∀ c ∈ rest.head?, Escape.isMark c = false) (offset : Nat) :
    decodeFrom offset (block ++ rest) =
      (decodeFrom (offset + block.length) rest).map (text ++ ·) := by
  induction h generalizing offset with
  | done => exact (map_eq_self _).symm
  | @opening block text h ih =>
    have htiled : tiled (block ++ rest) = true := (tiled_append_iff h.isMark hrest).2 h.isTokens
    have hlength : offset + ('$' :: '_' :: block).length = offset + 2 + block.length := by
      simp only [List.length_cons]
      omega
    rw [hlength, List.cons_append, List.cons_append, decodeFrom, if_pos htiled, ih, map_map]
    rfl
  | @comma block text hblock h ih =>
    have htiled : tiled (block ++ rest) = true := (tiled_append_iff h.isMark hrest).2 hblock
    have hlength : offset + ('_' :: '$' :: '_' :: block).length = offset + 3 + block.length := by
      simp only [List.length_cons]
      omega
    rw [hlength, List.cons_append, List.cons_append, List.cons_append, decodeFrom, if_pos htiled,
      ih, map_map]
    rfl
  | @closing block text hclose h ih =>
    have htiled : tiled (block ++ rest) = true := (tiled_append_iff h.isMark hrest).2 h.isTokens
    -- The underscore that makes a comma's token of this one has to come from the block itself.
    have hcomma : ∀ behind, block ++ rest = '_' :: behind → tiled behind = false := by
      intro behind heq
      cases block with
      | nil => exact absurd (hrest '_' (congrArg List.head? heq)) (by decide)
      | cons c block =>
        cases heq
        have hblock := hclose block rfl
        rwa [← tiled_append_iff (List.forall_mem_cons.1 h.isMark).2 hrest,
          Bool.not_eq_true] at hblock
    have hlength : offset + ('_' :: '$' :: block).length = offset + 2 + block.length := by
      simp only [List.length_cons]
      omega
    rw [hlength, List.cons_append, List.cons_append, decodeFrom_close htiled hcomma, ih, map_map]
    rfl

/-- Reading ends where a token has to begin and tokens do not lead on. -/
theorem decodeFrom_of_not_tiled {raw : List Char}
    (hstart : raw.head? = some '$' ∨ ∃ behind, raw = '_' :: '$' :: behind)
    (h : tiled raw = false) (offset : Nat) : decodeFrom offset raw = .error offset := by
  fun_cases decodeFrom offset raw with
  | case1 => simp at hstart
  | case3 | case4 | case7 | case9 => rfl
  | case2 rest htiled | case5 rest htiled | case6 rest _ htiled | case8 rest hrest htiled =>
    simp [tiled, *] at h
  | case10 c rest hopen hdollar hcomma hclose =>
    rcases hstart with hhead | ⟨behind, heq⟩
    · exact absurd (Option.some.inj hhead) hdollar
    · cases heq
      exact absurd rfl (hclose behind rfl)

/-- Away from escapes, a text is read as it is. -/
theorem decodeFrom_append_of_dollar_not_mem (h : '$' ∉ text)
    (hrest : text.getLast? = some '_' → rest.head? ≠ some '$') (offset : Nat) :
    decodeFrom offset (text ++ rest) =
      (decodeFrom (offset + String.utf8Len text) rest).map (text ++ ·) := by
  induction text generalizing offset with
  | nil => exact (map_eq_self _).symm
  | cons c text ih =>
    rw [List.mem_cons, not_or] at h
    have hhead : c = '_' → (text ++ rest).head? ≠ some '$' := by
      rintro rfl
      cases text with
      | nil => exact hrest rfl
      | cons d text => simpa using fun hd : d = '$' => h.2 (by simp [hd])
    have hlast : text.getLast? = some '_' → rest.head? ≠ some '$' := by
      intro hlast
      apply hrest
      rw [List.getLast?_cons, hlast]
      rfl
    rw [List.cons_append, decodeFrom_cons (Ne.symm h.1) hhead, ih h.2 hlast, map_map]
    rw [String.utf8Len_cons, Nat.add_assoc, Nat.add_comm c.utf8Size]
    rfl

end

end StorageUpgrade.Identifier.Escape
