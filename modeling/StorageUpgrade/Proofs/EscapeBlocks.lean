import Mathlib.Data.List.SplitBy
import StorageUpgrade.Proofs.EscapeTokens

/-!
# Escapes, block by block

Underscores and dollar signs that stand together make a block, and what is read of a block does not
depend on the text around it. Underscores in front are read as they are, all but the last one before
the first dollar sign. From there on the block has to be put together of tokens: if it is, they are
replaced; if it is not, reading ends where the tokens ought to begin.
-/

namespace StorageUpgrade.Identifier.Escape

/-! ## Blocks -/

/-- The longest runs of a text of which either all characters are in tokens or none. -/
def runs (text : List Char) : List (List Char) :=
  text.splitBy fun c d => isMark c == isMark d

/-- The underscores in front of a block, but for the last one. -/
def passed (block : List Char) : List Char := (block.takeWhile (· == '_')).dropLast

/-- What is left of a block to be read as tokens. -/
def escapes (block : List Char) : List Char := block.drop (passed block).length

/-! ## Where the tokens of a block begin -/

theorem passed_append_escapes (block : List Char) : passed block ++ escapes block = block := by
  have hprefix : passed block <+: block :=
    (List.dropLast_prefix _).trans (List.takeWhile_prefix _)
  exact (List.prefix_iff_eq_append.1 hprefix)

theorem dollar_not_mem_passed (block : List Char) : '$' ∉ passed block := by
  intro hmem
  have hunderscore : ('$' == '_') = true :=
    List.all_eq_true.1 List.all_takeWhile '$' (List.dropLast_subset _ hmem)
  cases hunderscore

/-- Behind its underscores a block with a dollar sign goes on with one. -/
theorem exists_dropWhile_eq {block : List Char} (hblock : ∀ c ∈ block, isMark c = true)
    (h : '$' ∈ block) : ∃ behind, block.dropWhile (· == '_') = '$' :: behind := by
  have hsplit : block.takeWhile (· == '_') ++ block.dropWhile (· == '_') = block :=
    List.takeWhile_append_dropWhile
  cases hback : block.dropWhile (· == '_') with
  | nil =>
    rw [hback, List.append_nil] at hsplit
    rw [← hsplit] at h
    exact absurd (List.all_eq_true.1 List.all_takeWhile '$' h) (by decide)
  | cons c behind =>
    have hc : (c == '_') = false := by
      have hhead := List.head?_dropWhile_not (· == '_') block
      rwa [hback] at hhead
    have hmark : isMark c = true := hblock c (by
      rw [← hsplit, hback]
      exact List.mem_append_right _ List.mem_cons_self)
    rw [isMark, hc, Bool.false_or, beq_iff_eq] at hmark
    exact ⟨behind, by rw [hmark]⟩

/-- Tokens ought to begin with the first dollar sign, or with the underscore before it if the block
begins with underscores. -/
theorem escapes_starts {block : List Char} (hblock : ∀ c ∈ block, isMark c = true)
    (h : '$' ∈ block) :
    passed block = [] ∧ (escapes block).head? = some '$' ∨
      ∃ behind, escapes block = '_' :: '$' :: behind := by
  obtain ⟨behind, hback⟩ := exists_dropWhile_eq hblock h
  have hsplit : block.takeWhile (· == '_') ++ '$' :: behind = block := by
    rw [← hback, List.takeWhile_append_dropWhile]
  -- The block begins with its dollar sign, or one of its underscores is left in front of it.
  rcases List.eq_nil_or_concat' (block.takeWhile (· == '_')) with hfront | ⟨front, c, hfront⟩
  · have hpassed : passed block = [] := by rw [passed, hfront]; rfl
    refine .inl ⟨hpassed, ?_⟩
    rw [escapes, hpassed, ← hsplit, hfront]
    rfl
  · have hc : c = '_' := by
      have hmem : c ∈ block.takeWhile (· == '_') := by simp [hfront]
      simpa using List.all_eq_true.1 List.all_takeWhile c hmem
    refine .inr ⟨behind, ?_⟩
    rw [escapes, passed, hfront, List.dropLast_concat]
    conv_lhs => rw [← hsplit, hfront, hc, List.append_assoc, List.drop_left]
    rfl

/-! ## Reading block by block -/

/-- What a run of a text is read as: a block with a dollar sign has its tokens replaced. -/
inductive ReadsAs : List Char → List Char → Prop
  | plain {run : List Char} (h : '$' ∉ run) : ReadsAs run run
  | block {run text : List Char} (h : '$' ∈ run) (htext : Replaces (escapes run) text) :
      ReadsAs run (passed run ++ text)

/-- Whether a run has nothing but tokens where tokens ought to be. -/
def Accounted (run : List Char) : Prop := '$' ∈ run → IsTokens (escapes run)

theorem accounted_iff {run : List Char} : Accounted run ↔ ∃ piece, ReadsAs run piece := by
  constructor
  · intro h
    by_cases hdollar : '$' ∈ run
    · obtain ⟨text, htext⟩ := (h hdollar).exists_replaces
      exact ⟨_, .block hdollar htext⟩
    · exact ⟨run, .plain hdollar⟩
  · rintro ⟨piece, hdollar | ⟨-, htext⟩⟩
    · exact fun hmem => absurd hmem hdollar
    · exact fun _ => htext.isTokens

/-- Characters that are alike, in front of a character that is not. -/
structure IsRun (run rest : List Char) : Prop where
  uniform : ∀ c ∈ run, ∀ d ∈ run, isMark c = isMark d
  ends : ∀ c ∈ run, ∀ d ∈ rest.head?, isMark c ≠ isMark d

namespace IsRun

variable {run rest piece : List Char}

theorem isMark (h : IsRun run rest) (hdollar : '$' ∈ run) : ∀ c ∈ run, Escape.isMark c = true :=
  fun c hc => h.uniform c hc '$' hdollar

theorem head?_rest (h : IsRun run rest) {c : Char} (hc : c ∈ run) (hmark : Escape.isMark c = true) :
    ∀ d ∈ rest.head?, Escape.isMark d = false := by
  intro d hd
  have hne := h.ends c hc d hd
  rw [hmark] at hne
  exact Bool.eq_false_iff.2 (Ne.symm hne)

/-- Underscores that are passed over are not followed by a dollar sign. -/
theorem passed_ends (h : IsRun run rest) (hdollar : '$' ∈ run)
    (hlast : (passed run).getLast? = some '_') : (escapes run ++ rest).head? ≠ some '$' := by
  rcases escapes_starts (h.isMark hdollar) hdollar with ⟨hnone, -⟩ | ⟨behind, heq⟩
  · rw [hnone] at hlast
    cases hlast
  · rw [heq]
    exact nofun

theorem utf8Len_eq_length {text : List Char} (h : ∀ c ∈ text, Escape.isMark c = true) :
    String.utf8Len text = text.length := by
  induction text with
  | nil => rfl
  | cons c text ih =>
    rw [List.forall_mem_cons] at h
    have hsize : c.utf8Size = 1 := by
      have hc := h.1
      simp only [Escape.isMark, Bool.or_eq_true, beq_iff_eq] at hc
      rcases hc with rfl | rfl <;> rfl
    rw [String.utf8Len_cons, ih h.2, hsize, List.length_cons]

/-- A run is read apart from what follows it. -/
theorem decodeFrom_append (h : IsRun run rest) (hpiece : ReadsAs run piece) (offset : Nat) :
    decodeFrom offset (run ++ rest) =
      (decodeFrom (offset + String.utf8Len run) rest).map (piece ++ ·) := by
  cases hpiece with
  | plain hdollar =>
    refine decodeFrom_append_of_dollar_not_mem hdollar (fun hlast hhead => ?_) offset
    exact absurd (h.head?_rest (List.mem_of_getLast? hlast) rfl '$' hhead) (by decide)
  | @block text hdollar htext =>
    have hmark := h.isMark hdollar
    have hsplit := passed_append_escapes run
    have hlength : String.utf8Len run = String.utf8Len (passed run) + (escapes run).length := by
      rw [← utf8Len_eq_length htext.isMark, ← String.utf8Len_append, hsplit]
    have hread := decodeFrom_append_of_dollar_not_mem (dollar_not_mem_passed run)
      (h.passed_ends hdollar) offset
    rw [← List.append_assoc, hsplit] at hread
    rw [hread, decodeFrom_of_replaces htext (h.head?_rest hdollar rfl), map_map, hlength,
      Nat.add_assoc]
    simp only [List.append_assoc]

/-- A block that is not accounted for ends the reading where its tokens ought to begin. -/
theorem decodeFrom_append_of_not_accounted (h : IsRun run rest) (hrun : ¬ Accounted run)
    (offset : Nat) :
    decodeFrom offset (run ++ rest) = .error (offset + String.utf8Len (passed run)) := by
  obtain ⟨hdollar, hnot⟩ := Classical.not_imp.1 hrun
  have hmark := h.isMark hdollar
  have hmark' : ∀ c ∈ escapes run, Escape.isMark c = true :=
    fun c hc => hmark c (List.mem_of_mem_drop hc)
  have hstart : (escapes run ++ rest).head? = some '$' ∨
      ∃ behind, escapes run ++ rest = '_' :: '$' :: behind := by
    rcases escapes_starts hmark hdollar with ⟨-, hhead⟩ | ⟨behind, heq⟩
    · exact .inl (by rw [List.head?_append, hhead]; rfl)
    · exact .inr ⟨behind ++ rest, by rw [heq]; rfl⟩
  have htiled : tiled (escapes run ++ rest) = false := by
    rwa [← tiled_append_iff hmark' (h.head?_rest hdollar rfl), Bool.not_eq_true] at hnot
  have hread := decodeFrom_append_of_dollar_not_mem (dollar_not_mem_passed run)
    (h.passed_ends hdollar) offset
  rw [← List.append_assoc, passed_append_escapes] at hread
  rw [hread, decodeFrom_of_not_tiled hstart htiled]
  rfl

end IsRun

/-- A text cut into runs. -/
inductive AreRuns : List (List Char) → Prop
  | nil : AreRuns []
  | cons {run : List Char} {later : List (List Char)} (hrun : IsRun run later.flatten)
      (hlater : AreRuns later) : AreRuns (run :: later)

def Alike (c d : Char) : Prop := isMark c = isMark d

instance : Std.Symm Alike := ⟨fun _ _ => Eq.symm⟩

instance : Trans Alike Alike Alike := ⟨Eq.trans⟩

theorem uniform_of_isChain {run : List Char}
    (h : run.IsChain fun c d => (isMark c == isMark d) = true) :
    ∀ c ∈ run, ∀ d ∈ run, isMark c = isMark d := by
  have halike : run.IsChain Alike := h.imp fun _ _ hcd => beq_iff_eq.1 hcd
  have hall : ∀ ⦃c⦄, c ∈ run → ∀ ⦃d⦄, d ∈ run → Alike c d :=
    halike.pairwise.forall_of_forall fun _ _ => rfl
  exact fun c hc d hd => hall hc hd

/-- Pieces of like characters, cut wherever a character is unlike the one before it. -/
theorem areRuns_of_cuts {all : List (List Char)} (hnil : [] ∉ all)
    (huniform : ∀ run ∈ all, ∀ c ∈ run, ∀ d ∈ run, isMark c = isMark d)
    (hcuts : all.IsChain fun run next =>
      ∃ hrun hnext, (isMark (run.getLast hrun) == isMark (next.head hnext)) = false) :
    AreRuns all := by
  induction all with
  | nil => exact .nil
  | cons run later ih =>
    rw [List.mem_cons, not_or] at hnil
    rw [List.forall_mem_cons] at huniform
    refine .cons ⟨huniform.1, fun c hc d hd => ?_⟩ (ih hnil.2 huniform.2 hcuts.tail)
    cases later with
    | nil => cases hd
    | cons next later =>
      obtain ⟨hrun, hnext, hcut⟩ := (List.isChain_cons_cons.1 hcuts).1
      rw [List.flatten_cons, List.head?_append, List.head?_eq_some_head hnext] at hd
      cases hd
      rw [huniform.1 c hc _ (List.getLast_mem hrun)]
      exact beq_eq_false_iff_ne.1 hcut

theorem areRuns_runs (text : List Char) : AreRuns (runs text) :=
  areRuns_of_cuts (List.nil_notMem_splitBy _ text)
    (fun _ hmem => uniform_of_isChain (List.isChain_of_mem_splitBy hmem))
    (List.isChain_getLast_head_splitBy (fun c d => isMark c == isMark d) text)

section

variable {text : List Char} {all pieces : List (List Char)}

theorem decodeFrom_of_forall₂_readsAs (h : AreRuns all) (hpieces : List.Forall₂ ReadsAs all pieces)
    (offset : Nat) : decodeFrom offset all.flatten = .ok pieces.flatten := by
  induction hpieces generalizing offset with
  | nil => rfl
  | cons hpiece _ ih =>
    cases h with
    | cons hrun hlater =>
      rw [List.flatten_cons, hrun.decodeFrom_append hpiece, ih hlater]
      rfl

theorem decodeFrom_of_not_accounted {before later : List (List Char)} {run : List Char}
    (h : AreRuns (before ++ run :: later)) (hbefore : ∀ run ∈ before, Accounted run)
    (hrun : ¬ Accounted run) (offset : Nat) :
    decodeFrom offset (before ++ run :: later).flatten =
      .error (offset + String.utf8Len (before.flatten ++ passed run)) := by
  induction before generalizing offset with
  | nil =>
    cases h with
    | cons hisRun => exact hisRun.decodeFrom_append_of_not_accounted hrun offset
  | cons first before ih =>
    rw [List.forall_mem_cons] at hbefore
    obtain ⟨piece, hpiece⟩ := accounted_iff.1 hbefore.1
    cases h with
    | cons hfirst hlater =>
      have hread := hfirst.decodeFrom_append hpiece offset
      have hlater' := ih hlater hbefore.2 (offset + String.utf8Len first)
      rw [List.append_eq] at hread
      rw [List.cons_append, List.flatten_cons, hread, hlater', List.flatten_cons,
        List.append_assoc, String.utf8Len_append first, Nat.add_assoc]
      rfl

theorem exists_pieces_iff :
    (∃ pieces, List.Forall₂ ReadsAs all pieces) ↔ ∀ run ∈ all, Accounted run := by
  induction all with
  | nil => exact ⟨fun _ => List.forall_mem_nil _, fun _ => ⟨[], .nil⟩⟩
  | cons run later ih =>
    rw [List.forall_mem_cons, ← ih, accounted_iff]
    constructor
    · rintro ⟨_, hrun | ⟨hpiece, hpieces⟩⟩
      exact ⟨⟨_, hpiece⟩, ⟨_, hpieces⟩⟩
    · rintro ⟨⟨piece, hpiece⟩, pieces, hpieces⟩
      exact ⟨piece :: pieces, .cons hpiece hpieces⟩

/-- Either every run is accounted for, or there is a first one that is not. -/
theorem accounted_or_exists_first (all : List (List Char)) :
    (∀ run ∈ all, Accounted run) ∨
      ∃ before run later, all = before ++ run :: later ∧ (∀ run ∈ before, Accounted run) ∧
        ¬ Accounted run := by
  induction all with
  | nil => exact .inl (List.forall_mem_nil _)
  | cons first later ih =>
    by_cases hfirst : Accounted first
    · rcases ih with hall | ⟨before, run, later, rfl, hbefore, hrun⟩
      · exact .inl (List.forall_mem_cons.2 ⟨hfirst, hall⟩)
      · exact .inr ⟨first :: before, run, later, rfl,
          List.forall_mem_cons.2 ⟨hfirst, hbefore⟩, hrun⟩
    · exact .inr ⟨[], first, later, rfl, List.forall_mem_nil _, hfirst⟩

theorem flatten_runs (text : List Char) : (runs text).flatten = text :=
  List.flatten_splitBy _ text

theorem decode_eq_ok_of_pieces {pieces : List (List Char)}
    (h : List.Forall₂ ReadsAs (runs text) pieces) : decode text = .ok pieces.flatten := by
  have hread := decodeFrom_of_forall₂_readsAs (areRuns_runs text) h 0
  rwa [flatten_runs] at hread

theorem decode_eq_error_of_first {before later : List (List Char)} {run : List Char}
    (hruns : runs text = before ++ run :: later) (hbefore : ∀ run ∈ before, Accounted run)
    (hrun : ¬ Accounted run) :
    decode text = .error (String.utf8Len (before.flatten ++ passed run)) := by
  have hread := decodeFrom_of_not_accounted (hruns ▸ areRuns_runs text) hbefore hrun 0
  rwa [← hruns, flatten_runs, Nat.zero_add] at hread

theorem decode_eq_ok_iff {read : List Char} :
    decode text = .ok read ↔
      ∃ pieces, List.Forall₂ ReadsAs (runs text) pieces ∧ read = pieces.flatten := by
  constructor
  · intro h
    rcases accounted_or_exists_first (runs text) with hall | ⟨before, run, later, hruns, hfirst⟩
    · obtain ⟨pieces, hpieces⟩ := exists_pieces_iff.2 hall
      rw [decode_eq_ok_of_pieces hpieces] at h
      exact ⟨pieces, hpieces, (Except.ok.inj h).symm⟩
    · rw [decode_eq_error_of_first hruns hfirst.1 hfirst.2] at h
      cases h
  · rintro ⟨pieces, hpieces, rfl⟩
    exact decode_eq_ok_of_pieces hpieces

theorem decode_eq_error_iff {position : Nat} :
    decode text = .error position ↔
      ∃ before run later, runs text = before ++ run :: later ∧
        (∀ run ∈ before, Accounted run) ∧ ¬ Accounted run ∧
        position = String.utf8Len (before.flatten ++ passed run) := by
  constructor
  · intro h
    rcases accounted_or_exists_first (runs text) with
      hall | ⟨before, run, later, hruns, hbefore, hrun⟩
    · obtain ⟨pieces, hpieces⟩ := exists_pieces_iff.2 hall
      rw [decode_eq_ok_of_pieces hpieces] at h
      cases h
    · rw [decode_eq_error_of_first hruns hbefore hrun] at h
      exact ⟨before, run, later, hruns, hbefore, hrun, (Except.error.inj h).symm⟩
  · rintro ⟨before, run, later, hruns, hbefore, hrun, rfl⟩
    exact decode_eq_error_of_first hruns hbefore hrun

end

end StorageUpgrade.Identifier.Escape

namespace StorageUpgrade.Identifier

/-- An identifier can be decoded exactly if each of its blocks is accounted for. The decoded text
is then put together of what the runs are read as, one by one. If it cannot be decoded, the failure
is the offset in bytes at which the tokens of the first block that is not accounted for ought to
begin. -/
theorem decode_by_blocks (raw : String) :
    ((∃ text, decode raw = .ok text) ↔
      ∀ run ∈ Escape.runs raw.toList, Escape.Accounted run) ∧
    (∀ text, decode raw = .ok text ↔
      ∃ pieces, List.Forall₂ Escape.ReadsAs (Escape.runs raw.toList) pieces ∧
        text.toList = pieces.flatten) ∧
    ∀ error, decode raw = .error error ↔
      ∃ before run later, Escape.runs raw.toList = before ++ run :: later ∧
        (∀ run ∈ before, Escape.Accounted run) ∧ ¬ Escape.Accounted run ∧
        error = .malformedEscape raw
          (String.ofList (before.flatten ++ Escape.passed run)).utf8ByteSize := by
  have hok : ∀ text, decode raw = .ok text ↔
      ∃ pieces, List.Forall₂ Escape.ReadsAs (Escape.runs raw.toList) pieces ∧
        text.toList = pieces.flatten := by
    intro text
    rw [← Escape.decode_eq_ok_iff, decode, mapDecoded]
    cases Escape.decode raw.toList with
    | error position => simp
    | ok read => simp only [id_eq, Except.ok.injEq, String.ofList_eq]
  refine ⟨?_, hok, ?_⟩
  · simp only [hok, ← Escape.exists_pieces_iff]
    constructor
    · rintro ⟨_, pieces, hpieces, -⟩
      exact ⟨pieces, hpieces⟩
    · rintro ⟨pieces, hpieces⟩
      exact ⟨String.ofList pieces.flatten, pieces, hpieces, String.toList_ofList⟩
  · intro error
    have herror : decode raw = .error error ↔ ∃ position,
        Escape.decode raw.toList = .error position ∧ error = .malformedEscape raw position := by
      rw [decode, mapDecoded]
      cases Escape.decode raw.toList with
      | error position => simp [eq_comm]
      | ok read => simp
    simp only [herror, Escape.decode_eq_error_iff, String.utf8ByteSize_ofList]
    constructor
    · rintro ⟨_, ⟨before, run, later, hruns, hbefore, hrun, rfl⟩, rfl⟩
      exact ⟨before, run, later, hruns, hbefore, hrun, rfl⟩
    · rintro ⟨before, run, later, hruns, hbefore, hrun, rfl⟩
      exact ⟨_, ⟨before, run, later, hruns, hbefore, hrun, rfl⟩, rfl⟩

example : decode "é$_x__$_$y_$__" = .error (.malformedEscape "é$_x__$_$y_$__" 11) := by decide

end StorageUpgrade.Identifier
