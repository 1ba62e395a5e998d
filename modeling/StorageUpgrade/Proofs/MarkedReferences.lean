import StorageUpgrade.Identifier.Basic
import StorageUpgrade.Proofs.ProperExpressions

/-!
# Erasing numbers in two steps

The numbers behind references can also be found in two steps, which are easier to reason about. The
brackets that close references are marked first, by ordinary bracket matching in which a closing
bracket without a partner is passed over; then the numbers behind the marks are erased.

The single pass does the same. It looks for the word of a reference where the word begins, and goes
on behind the bracket; the marks look back from the bracket. The two agree because no such word
reaches over a place where the pass has skipped something. Its count is the number of open brackets,
and what it remembers is which of them open references.
-/

namespace StorageUpgrade.Identifier

namespace Stable

/-! ## Marks -/

/-- Whether a bracket opens a reference behind the text `before`, given last character first. -/
def opensReference (before : List Char) : Bool :=
  NamedKind.all.any fun kind => kind.head.reverse.isPrefixOf before

/-- Marks each closing bracket of a reference. `opened` tells of every open bracket, the innermost
first, whether it opens a reference; `before` is the text passed, last character first. -/
def markFrom (opened : List Bool) (before : List Char) : List Char → List (Char × Bool)
  | [] => []
  | '(' :: rest => ('(', false) :: markFrom (opensReference before :: opened) ('(' :: before) rest
  | ')' :: rest => (')', opened.headD false) :: markFrom opened.tail (')' :: before) rest
  | c :: rest => (c, false) :: markFrom opened (c :: before) rest

/-- The characters of a text, each with whether it closes a reference. -/
def mark (text : List Char) : List (Char × Bool) :=
  markFrom [] [] text

/-- What precedes a character: the close of a reference, a digit of its number, or other text. -/
inductive Behind where
  | reference
  | digit
  | other
  deriving DecidableEq, Repr

/-- Erases the digits behind every marked character and one underscore behind the digits. -/
def eraseFrom (behind : Behind) : List (Char × Bool) → List Char
  | [] => []
  | (c, closes) :: rest =>
    if behind ≠ .other ∧ c.isDigit then eraseFrom .digit rest
    else if behind = .digit ∧ c = '_' then eraseFrom .other rest
    else c :: eraseFrom (if closes then .reference else .other) rest

/-- Erases the number of every declaration referred to. -/
def eraseNumbers (text : List Char) : List Char :=
  eraseFrom .other (mark text)

@[simp]
theorem map_fst_markFrom (opened : List Bool) (before text : List Char) :
    (markFrom opened before text).map Prod.fst = text := by
  fun_induction markFrom opened before text <;> simp_all

/-- Marking a text changes none of its characters. -/
@[simp]
theorem map_fst_mark (text : List Char) : (mark text).map Prod.fst = text :=
  map_fst_markFrom [] [] text

/-- Erasing keeps the order and the kind of all that is left. -/
theorem eraseFrom_sublist (behind : Behind) (marked : List (Char × Bool)) :
    (eraseFrom behind marked).Sublist (marked.map Prod.fst) := by
  fun_induction eraseFrom behind marked with
  | case1 => simp
  | case2 _ c closes rest _ ih => exact ih.cons c
  | case3 _ c closes rest _ _ ih => exact ih.cons c
  | case4 _ c closes rest _ _ ih => exact ih.cons_cons c

theorem eraseNumbers_sublist (text : List Char) : (eraseNumbers text).Sublist text := by
  simpa [eraseNumbers] using eraseFrom_sublist .other (mark text)

/-- The characters that are left by erasing numbers, with their marks. -/
def keptFrom (behind : Behind) : List (Char × Bool) → List (Char × Bool)
  | [] => []
  | (c, closes) :: rest =>
    if behind ≠ .other ∧ c.isDigit then keptFrom .digit rest
    else if behind = .digit ∧ c = '_' then keptFrom .other rest
    else (c, closes) :: keptFrom (if closes then .reference else .other) rest

theorem map_fst_keptFrom (behind : Behind) (marked : List (Char × Bool)) :
    (keptFrom behind marked).map Prod.fst = eraseFrom behind marked := by
  fun_induction keptFrom behind marked with
  | case1 => rfl
  | case2 behind c closes rest hdigit ih => rw [eraseFrom, if_pos hdigit, ih]
  | case3 behind c closes rest hdigit hunderscore ih =>
    rw [eraseFrom, if_neg hdigit, if_pos hunderscore, ih]
  | case4 behind c closes rest hdigit hunderscore ih =>
    rw [eraseFrom, if_neg hdigit, if_neg hunderscore, List.map_cons, ih]

theorem keptFrom_digits_append {behind : Behind} {digits marked : List (Char × Bool)}
    (hbehind : behind ≠ .other) (hne : digits ≠ []) (hdigits : ∀ d ∈ digits, d.1.isDigit = true) :
    keptFrom behind (digits ++ marked) = keptFrom .digit marked := by
  induction digits generalizing behind with
  | nil => exact absurd rfl hne
  | cons d digits ih =>
    rw [List.forall_mem_cons] at hdigits
    rw [List.cons_append, keptFrom, if_pos ⟨hbehind, hdigits.1⟩]
    cases digits with
    | nil => rfl
    | cons e digits => exact ih (by decide) (List.cons_ne_nil e digits) hdigits.2

/-! ## Words that end in front of a place -/

/-- Text, last character first, that no word of a named kind reaches into. -/
def StopsHeads (text : List Char) : Prop :=
  ∀ (kind : NamedKind) (front : List Char), kind.head.reverse <+: front ++ text →
    kind.head.reverse <+: front

theorem stopsHeads_nil : StopsHeads [] := by
  intro kind front h
  rwa [List.append_nil] at h

/-- The characters of which an erased number is made. -/
def IsErasable (c : Char) : Prop := c.isDigit = true ∨ c = '_'

theorem IsErasable.not_isDelimiter {c : Char} (h : IsErasable c) : isDelimiter c = false := by
  rw [Bool.eq_false_iff]
  intro hc
  rcases isDelimiter_iff.1 hc with rfl | rfl | rfl <;> exact absurd h (by unfold IsErasable; decide)

/-- No word of a named kind reaches over a delimiter, with or without a number behind it. -/
theorem stopsHeads_number {number : List Char} {c : Char} (hnumber : ∀ c ∈ number, IsErasable c)
    (hc : isDelimiter c = true) (text : List Char) : StopsHeads (number ++ c :: text) := by
  intro kind front h
  rcases List.prefix_or_prefix_of_prefix h (List.prefix_append front _) with h' | ⟨back, hback⟩
  · exact h'
  -- The word begins with a letter, so if its front part ended in the number, that would have one.
  · rcases List.eq_nil_or_concat back with rfl | ⟨back, d, rfl⟩
    · have hfront : front = kind.head.reverse := (List.append_nil front).symm.trans hback
      exact hfront ▸ List.prefix_rfl
    · rw [← hback, List.prefix_append_right_inj] at h
      have hplain : Plain (back.concat d) := by
        intro c hc
        exact plain_head kind c (List.mem_reverse.1 (hback ▸ List.mem_append_right front hc))
      have hnumber' := prefix_of_prefix_append hplain
        (fun c hc => (hnumber c hc).not_isDelimiter) (by simpa using hc) h
      have hd : IsErasable d := hnumber d (hnumber'.subset (by simp))
      have hhead : kind.head.head? = some d := by
        rw [← List.reverse_reverse kind.head, ← hback]
        simp
      cases kind <;> cases hhead <;> exact absurd hd (by unfold IsErasable; decide)

/-- Whether a word of a named kind that stands in front of a bracket in `rest` stands there in full,
and does not begin in the text `before`, given last character first. -/
def Separates (before rest : List Char) : Prop :=
  ∀ (kind : NamedKind) (front : List Char), front ++ ['('] <+: rest →
    kind.head.reverse <+: front.reverse ++ before → kind.head.reverse <+: front.reverse

variable {before rest word digits : List Char} {stack : List Bool} {behind : Behind}

theorem StopsHeads.separates (h : StopsHeads before) (rest : List Char) : Separates before rest :=
  fun kind front _ => h kind front.reverse

theorem exists_of_opening? {text : List Char} {kind : NamedKind} (h : opening? text = some kind) :
    ∃ rest, text = kind.head ++ '(' :: rest := by
  have hprefix : (kind.head ++ ['(']).isPrefixOf text = true := by simpa using List.find?_some h
  obtain ⟨rest, rfl⟩ := List.isPrefixOf_iff_prefix.1 hprefix
  exact ⟨rest, List.append_assoc _ _ _⟩

theorem not_prefix_of_opening? {text : List Char} (h : opening? text = none) (kind : NamedKind) :
    ¬ kind.head ++ ['('] <+: text := by
  have hnot := List.find?_eq_none.1 h kind kind.mem_all
  exact fun hprefix => hnot (List.isPrefixOf_iff_prefix.2 hprefix)

/-- A character may be passed if no word of a named kind begins with it. -/
theorem Separates.pass {c : Char} (h : Separates before (c :: rest))
    (hnone : opening? (c :: rest) = none) : Separates (c :: before) rest := by
  intro kind front hfront hword
  have hpassed : kind.head.reverse <+: (c :: front).reverse := by
    apply h kind (c :: front) (List.cons_prefix_cons.2 ⟨rfl, hfront⟩)
    simpa using hword
  rw [List.reverse_cons] at hpassed
  rcases List.prefix_concat_iff.1 hpassed with heq | hprefix
  · have hhead : kind.head = c :: front := by
      rw [← List.reverse_inj, heq]
      simp
    refine absurd ?_ (not_prefix_of_opening? hnone kind)
    rw [hhead]
    exact List.cons_prefix_cons.2 ⟨rfl, hfront⟩
  · exact hprefix

theorem opensReference_head_append (kind : NamedKind) (before : List Char) :
    opensReference (kind.head.reverse ++ before) = true := by
  have hprefix : kind.head.reverse <+: kind.head.reverse ++ before := List.prefix_append _ _
  exact List.any_eq_true.2 ⟨kind, kind.mem_all, List.isPrefixOf_iff_prefix.2 hprefix⟩

/-- The bracket of a reference is found from its word, and never without it. -/
theorem Separates.opensReference_eq_false (h : Separates before ('(' :: rest)) :
    opensReference before = false := by
  rw [Bool.eq_false_iff]
  intro hopens
  obtain ⟨kind, -, hprefix⟩ := List.any_eq_true.1 hopens
  have hnil := h kind [] (List.prefix_append ['('] rest) (List.isPrefixOf_iff_prefix.1 hprefix)
  cases kind <;> exact absurd hnil (by decide)

/-! ## Marks of words and numbers -/

theorem markFrom_cons {c : Char} (hopen : c ≠ '(') (hclose : c ≠ ')') (stack : List Bool)
    (before rest : List Char) :
    markFrom stack before (c :: rest) = (c, false) :: markFrom stack (c :: before) rest := by
  rw [markFrom] <;> assumption

theorem markFrom_plain_append (hword : Plain word) (stack : List Bool) (before rest : List Char) :
    markFrom stack before (word ++ rest) =
      word.map (·, false) ++ markFrom stack (word.reverse ++ before) rest := by
  induction word generalizing before with
  | nil => rfl
  | cons c word ih =>
    obtain ⟨hc, hword⟩ := plain_cons_iff.1 hword
    have hopen : c ≠ '(' := by
      rintro rfl
      cases hc
    have hclose : c ≠ ')' := by
      rintro rfl
      cases hc
    rw [List.cons_append, markFrom_cons hopen hclose, ih hword]
    simp

theorem eraseFrom_marked_cons (c : Char) (marked : List (Char × Bool)) :
    eraseFrom .other ((c, true) :: marked) = c :: eraseFrom .reference marked := by
  simp [eraseFrom]

theorem eraseFrom_unmarked_cons (c : Char) (marked : List (Char × Bool)) :
    eraseFrom .other ((c, false) :: marked) = c :: eraseFrom .other marked := by
  simp [eraseFrom]

theorem eraseFrom_word_append (word : List Char) (marked : List (Char × Bool)) :
    eraseFrom .other (word.map (·, false) ++ marked) = word ++ eraseFrom .other marked := by
  induction word with
  | nil => rfl
  | cons c word ih =>
    rw [List.map_cons, List.cons_append, eraseFrom_unmarked_cons, ih, List.cons_append]

theorem eraseFrom_digits_append {marked : List (Char × Bool)} (hbehind : behind ≠ .other)
    (hne : digits ≠ []) (hdigits : ∀ d ∈ digits, d.isDigit = true) :
    eraseFrom behind (digits.map (·, false) ++ marked) = eraseFrom .digit marked := by
  have hne' : digits.map (·, false) ≠ [] := mt List.map_eq_nil_iff.1 hne
  have hdigits' : ∀ d ∈ digits.map (·, false), d.1.isDigit = true := by simpa using hdigits
  rw [← map_fst_keptFrom, keptFrom_digits_append hbehind hne' hdigits', map_fst_keptFrom]

theorem eraseFrom_eq_other {marked : List (Char × Bool)}
    (hdigit : ∀ c ∈ (marked.map Prod.fst).head?, c.isDigit = false)
    (hunderscore : behind = .digit → (marked.map Prod.fst).head? ≠ some '_') :
    eraseFrom behind marked = eraseFrom .other marked := by
  cases marked with
  | nil => rfl
  | cons first marked =>
    obtain ⟨c, closes⟩ := first
    have hc : c.isDigit = false := hdigit c rfl
    have hother : ¬ (behind = .digit ∧ c = '_') := fun h => hunderscore h.1 (congrArg some h.2)
    simp [eraseFrom, hc, hother]

/-- A text in two parts, the first of which is the number at its front. -/
inductive NumberSplit : List Char → List Char → Prop
  | none {rest : List Char} (hrest : ∀ c ∈ rest.head?, c.isDigit = false) : NumberSplit [] rest
  | digits {digits rest : List Char} (hne : digits ≠ []) (hdigits : ∀ d ∈ digits, d.isDigit = true)
      (hrest : ∀ c ∈ rest.head?, c.isDigit = false) (hunderscore : rest.head? ≠ some '_') :
      NumberSplit digits rest
  | underscore {digits rest : List Char} (hne : digits ≠ [])
      (hdigits : ∀ d ∈ digits, d.isDigit = true) : NumberSplit (digits ++ ['_']) rest

theorem numberSplit (text : List Char) :
    NumberSplit (text.take (numberLength text)) (text.drop (numberLength text)) := by
  obtain ⟨digits, rest, hdigits, hrest, rfl⟩ : ∃ digits rest, (∀ d ∈ digits, d.isDigit = true) ∧
      (∀ c ∈ rest.head?, c.isDigit = false) ∧ text = digits ++ rest := by
    refine ⟨text.takeWhile Char.isDigit, text.dropWhile Char.isDigit, ?_, ?_, ?_⟩
    · exact List.all_eq_true.1 List.all_takeWhile
    · intro c hc
      have hnot := List.head?_dropWhile_not Char.isDigit text
      rw [Option.mem_def.1 hc] at hnot
      exact hnot
    · exact List.takeWhile_append_dropWhile.symm
  have htake : (digits ++ rest).takeWhile Char.isDigit = digits := by
    rw [List.takeWhile_append_of_pos hdigits]
    cases rest with
    | nil => simp
    | cons c rest => simp [hrest c rfl]
  have hbehind : (digits ++ rest)[digits.length]? = rest.head? := by
    rw [List.getElem?_append_right (Nat.le_refl _), Nat.sub_self, List.head?_eq_getElem?]
  simp only [numberLength, htake, hbehind]
  split
  next hnil =>
    obtain rfl := List.length_eq_zero_iff.1 hnil
    exact .none hrest
  next hne =>
    have hne : digits ≠ [] := mt List.length_eq_zero_iff.2 hne
    split
    next hunderscore =>
      obtain ⟨rest, rfl⟩ := List.head?_eq_some_iff.1 hunderscore
      have hsplit : digits ++ '_' :: rest = (digits ++ ['_']) ++ rest := by simp
      have hlength : digits.length + 1 = (digits ++ ['_']).length := by simp
      rw [hsplit, hlength, List.take_left, List.drop_left]
      exact .underscore hne hdigits
    next hunderscore =>
      rw [List.take_left, List.drop_left]
      exact .digits hne hdigits hrest hunderscore

namespace NumberSplit

variable {number : List Char}

theorem isErasable (h : NumberSplit number rest) : ∀ c ∈ number, IsErasable c := by
  cases h with
  | none => exact List.forall_mem_nil _
  | digits hne hdigits => exact fun c hc => .inl (hdigits c hc)
  | underscore hne hdigits =>
    rw [List.forall_mem_append]
    exact ⟨fun c hc => .inl (hdigits c hc), List.forall_mem_singleton.2 (.inr rfl)⟩

theorem eraseFrom_reference (h : NumberSplit number rest) (stack : List Bool)
    (before : List Char) : eraseFrom .reference (markFrom stack before (number ++ rest)) =
      eraseFrom .other (markFrom stack (number.reverse ++ before) rest) := by
  have hplain : Plain number := fun c hc => (h.isErasable c hc).not_isDelimiter
  have hreference : Behind.reference ≠ .other := by decide
  rw [markFrom_plain_append hplain]
  cases h with
  | none hrest =>
    apply eraseFrom_eq_other
    · rwa [List.map_nil, List.nil_append, map_fst_markFrom]
    · intro hbehind
      cases hbehind
  | digits hne hdigits hrest hunderscore =>
    rw [eraseFrom_digits_append hreference hne hdigits]
    apply eraseFrom_eq_other
    · rwa [map_fst_markFrom]
    · rwa [map_fst_markFrom, imp_iff_right rfl]
  | underscore hne hdigits =>
    rw [List.map_append, List.append_assoc, eraseFrom_digits_append hreference hne hdigits]
    simp [eraseFrom]

end NumberSplit

/-! ## The single pass -/

/-- For every open bracket that opens a reference, the innermost first, how many brackets are open
in front of it. -/
def depths : List Bool → List Nat
  | [] => []
  | true :: stack => stack.length :: depths stack
  | false :: stack => depths stack

theorem lt_of_mem_depths {stack : List Bool} {depth : Nat} (h : depth ∈ depths stack) :
    depth < stack.length := by
  fun_induction depths stack with
  | case1 => cases h
  | case2 stack ih =>
    rcases List.mem_cons.1 h with rfl | h
    · exact Nat.lt_succ_self _
    · exact Nat.lt_succ_of_lt (ih h)
  | case3 stack ih => exact Nat.lt_succ_of_lt (ih h)

theorem head?_depths_iff {opens : Bool} :
    (depths (opens :: stack)).head? = some stack.length ↔ opens = true := by
  cases opens with
  | true => exact iff_of_true rfl rfl
  | false =>
    refine iff_of_false (fun h => ?_) Bool.false_ne_true
    have hmem : stack.length ∈ depths stack := List.mem_of_head? h
    exact Nat.lt_irrefl _ (lt_of_mem_depths hmem)

/-- The pass and the two steps go on alike: the count is the number of open brackets, and what is
remembered are those that open references. -/
theorem scan_eq_eraseFrom {opened : List Nat} {depth : Nat} {text : List Char}
    (hopened : opened = depths stack) (hdepth : depth = stack.length)
    (h : Separates before text) :
    scan opened depth text = eraseFrom .other (markFrom stack before text) := by
  fun_induction scan opened depth text generalizing stack before with
  | case1 => rfl
  | case2 opened depth c rest kind hkind ih =>
    obtain ⟨behind, htext⟩ := exists_of_opening? hkind
    have hbehind : rest.drop kind.head.length = behind := by
      have hdrop := congrArg (List.drop (kind.head.length + 1)) htext
      simpa using hdrop
    have hopens := opensReference_head_append kind before
    have hstops : StopsHeads ('(' :: (kind.head.reverse ++ before)) :=
      stopsHeads_number (List.forall_mem_nil _) rfl _
    have hopened : depth :: opened = depths (true :: stack) := by rw [hopened, hdepth, depths]
    rw [hbehind] at ih ⊢
    rw [ih hopened (congrArg (· + 1) hdepth) (hstops.separates behind), htext,
      markFrom_plain_append (plain_head kind), markFrom, hopens, eraseFrom_word_append,
      eraseFrom_unmarked_cons]
  | case3 opened depth rest hnone ih =>
    have hopened : opened = depths (false :: stack) := hopened
    rw [markFrom, h.opensReference_eq_false, eraseFrom_unmarked_cons,
      ih hopened (congrArg (· + 1) hdepth) (h.pass hnone)]
  | case4 opened depth rest hreference hnone _ ih =>
    subst hopened hdepth
    cases stack with
    | nil => cases hreference
    | cons opens stack =>
      obtain rfl : opens = true := head?_depths_iff.1 hreference
      have hnumber := numberSplit rest
      have herase := hnumber.eraseFrom_reference stack (')' :: before)
      have hclose : isDelimiter ')' = true := rfl
      have hstops := stopsHeads_number
        (fun c hc => hnumber.isErasable c (List.mem_reverse.1 hc)) hclose before
      rw [List.take_append_drop] at herase
      rw [ih rfl rfl (hstops.separates _), ← herase, markFrom, List.headD_cons, List.tail_cons,
        eraseFrom_marked_cons]
  | case5 opened depth rest hother hnone _ ih =>
    subst hopened hdepth
    rw [markFrom]
    cases stack with
    -- The count stays at zero: the bracket has no partner.
    | nil =>
      rw [List.headD_nil, eraseFrom_unmarked_cons, ih rfl rfl (h.pass hnone), List.tail_nil]
    | cons opens stack =>
      obtain rfl : opens = false := Bool.eq_false_iff.2 (mt head?_depths_iff.2 hother)
      have hopened : depths (false :: stack) = depths stack := rfl
      have hdepth : (false :: stack).length - 1 = stack.length := rfl
      rw [List.headD_cons, eraseFrom_unmarked_cons, ih hopened hdepth (h.pass hnone),
        List.tail_cons]
  | case6 opened depth c rest hnone hopen hclose ih =>
    rw [markFrom_cons hopen hclose, eraseFrom_unmarked_cons, ih hopened hdepth (h.pass hnone)]

theorem withoutNumbers_eq_eraseNumbers (text : List Char) :
    withoutNumbers text = eraseNumbers text :=
  scan_eq_eraseFrom rfl rfl (stopsHeads_nil.separates text)

end Stable

theorem stabilize_eq_mapDecoded (raw : String) :
    stabilize raw = mapDecoded Stable.eraseNumbers raw := by
  rw [stabilize, funext Stable.withoutNumbers_eq_eraseNumbers]

end StorageUpgrade.Identifier
