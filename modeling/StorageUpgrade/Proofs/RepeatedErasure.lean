import StorageUpgrade.Proofs.ErasedNumbers
import StorageUpgrade.Proofs.Normalization

/-!
# Erasing numbers twice

Erasing the numbers behind references changes no bracket and no word in front of one, so the text
that is left has the same references. With the number goes one underscore. Where a digit stands
behind that underscore, it comes to stand behind the reference, and erasing again erases it too;
nothing else can be erased the second time.
-/

namespace StorageUpgrade.Identifier

namespace Stable

/-! ## Marks of what is left -/

theorem StopsHeads.opensReference_append {text : List Char} (h : StopsHeads text)
    (front : List Char) : opensReference (front ++ text) = opensReference front := by
  have hiff : ∀ kind : NamedKind,
      kind.head.reverse <+: front ++ text ↔ kind.head.reverse <+: front :=
    fun kind => ⟨h kind front, fun hprefix => hprefix.trans (List.prefix_append _ _)⟩
  rw [Bool.eq_iff_iff]
  simp [opensReference, hiff]

/-- How the text in front of a character, last character first, and what is left of it agree. -/
def Alike : Behind → List Char → List Char → Prop
  | .other, before, before' =>
    ∃ common text text', before = common ++ text ∧ before' = common ++ text' ∧
      StopsHeads text ∧ StopsHeads text'
  | _, before, before' =>
    ∃ number text text', (∀ c ∈ number, IsErasable c) ∧ before = number ++ ')' :: text ∧
      before' = ')' :: text'

namespace Alike

variable {behind : Behind} {before before' : List Char} {c : Char}

theorem nil : Alike .other [] [] :=
  ⟨[], [], [], rfl, rfl, stopsHeads_nil, stopsHeads_nil⟩

theorem closing : Alike .reference (')' :: before) (')' :: before') :=
  ⟨[], before, before', List.forall_mem_nil _, rfl, rfl⟩

theorem other (h : Alike behind before before') : Alike .other before before' := by
  cases behind with
  | other => exact h
  | _ =>
    obtain ⟨number, text, text', hnumber, rfl, rfl⟩ := h
    exact ⟨[], _, _, rfl, rfl, stopsHeads_number hnumber rfl text,
      stopsHeads_number (List.forall_mem_nil _) rfl text'⟩

theorem cons (h : Alike .other before before') : Alike .other (c :: before) (c :: before') := by
  obtain ⟨common, text, text', rfl, rfl, htext, htext'⟩ := h
  exact ⟨c :: common, text, text', rfl, rfl, htext, htext'⟩

theorem erase (h : Alike behind before before') (hbehind : behind ≠ .other)
    (hc : IsErasable c) : Alike .digit (c :: before) before' := by
  cases behind with
  | other => exact absurd rfl hbehind
  | _ =>
    obtain ⟨number, text, text', hnumber, rfl, rfl⟩ := h
    exact ⟨c :: number, text, text', List.forall_mem_cons.2 ⟨hc, hnumber⟩, rfl, rfl⟩

theorem opensReference_eq (h : Alike .other before before') :
    opensReference before = opensReference before' := by
  obtain ⟨common, text, text', rfl, rfl, htext, htext'⟩ := h
  rw [htext.opensReference_append, htext'.opensReference_append]

end Alike

theorem markFrom_keptFrom {behind : Behind} {opened : List Bool} {before before' text : List Char}
    (h : Alike behind before before') :
    markFrom opened before' ((keptFrom behind (markFrom opened before text)).map Prod.fst) =
      keptFrom behind (markFrom opened before text) := by
  fun_induction markFrom opened before text generalizing behind before' with
  | case1 => rfl
  | case2 opened before rest ih =>
    have hkept : ∀ marked, keptFrom behind (('(', false) :: marked) =
        ('(', false) :: keptFrom .other marked := by
      intro marked
      simp [keptFrom]
    rw [hkept, List.map_cons, markFrom, h.other.opensReference_eq.symm, ih h.other.cons]
  | case3 opened before rest ih =>
    have hkept : ∀ closes marked, keptFrom behind ((')', closes) :: marked) =
        (')', closes) :: keptFrom (if closes then .reference else .other) marked := by
      intro closes marked
      simp [keptFrom]
    rw [hkept, List.map_cons, markFrom, ih]
    split
    · exact .closing
    · exact h.other.cons
  | case4 opened before c rest hopen hclose ih =>
    rw [keptFrom]
    split
    next hdigit => exact ih (h.erase hdigit.1 (.inl hdigit.2))
    next =>
      split
      next hunderscore =>
        exact ih (h.erase (hunderscore.1 ▸ by decide) (.inr hunderscore.2)).other
      next =>
        rw [List.map_cons, markFrom_cons hopen hclose]
        exact congrArg _ (ih h.other.cons)

/-- What is left has the marks that it had. -/
theorem mark_eraseNumbers (text : List Char) :
    mark (eraseNumbers text) = keptFrom .other (mark text) := by
  rw [eraseNumbers, ← map_fst_keptFrom]
  exact markFrom_keptFrom .nil

/-! ## Digits behind references -/

/-- What holds of neighbours if nothing is erased: behind a mark stands no digit. -/
def NoDigitBehind (p q : Char × Bool) : Prop := p.2 = true → q.1.isDigit = false

theorem eraseFrom_eq_map_iff {p : Char × Bool} {marked : List (Char × Bool)} :
    eraseFrom (if p.2 then .reference else .other) marked = marked.map Prod.fst ↔
      (p :: marked).IsChain NoDigitBehind := by
  induction marked generalizing p with
  | nil => simp [eraseFrom]
  | cons q marked ih =>
    obtain ⟨c, closes⟩ := q
    obtain ⟨x, flag⟩ := p
    rw [List.isChain_cons_cons, ← ih, List.map_cons]
    by_cases hdigit : flag = true ∧ c.isDigit = true
    · have herase : eraseFrom (if flag then .reference else .other) ((c, closes) :: marked) =
          eraseFrom .digit marked := by
        simp [eraseFrom, hdigit]
      refine iff_of_false ?_ fun h => ?_
      · intro heq
        have hlength := (eraseFrom_sublist .digit marked).length_le
        rw [← herase, heq, List.length_cons] at hlength
        omega
      · exact Bool.false_ne_true ((h.1 hdigit.1).symm.trans hdigit.2)
    · have herase : eraseFrom (if flag then .reference else .other) ((c, closes) :: marked) =
          c :: eraseFrom (if closes then .reference else .other) marked := by
        cases flag <;> simp_all [eraseFrom]
      have hnone : NoDigitBehind (x, flag) (c, closes) :=
        fun hflag => Bool.eq_false_iff.2 fun hc => hdigit ⟨hflag, hc⟩
      rw [herase, List.cons_inj_right]
      exact (and_iff_right hnone).symm

/-- All that can be erased of what is left are digits that have come to stand behind a mark. -/
theorem isChain_keptFrom_iff {behind : Behind} {marked : List (Char × Bool)}
    (hmarked : ∀ p ∈ marked, p.2 = true → p.1 = ')') :
    (keptFrom behind marked).IsChain NoDigitBehind ↔
      ∀ front p back, marked = front ++ p :: back → p.2 = true →
        ∀ q ∈ (keptFrom .reference back).head?, q.1.isDigit = false := by
  induction marked generalizing behind with
  | nil => simp [keptFrom]
  | cons first marked ih =>
    obtain ⟨c, closes⟩ := first
    rw [List.forall_mem_cons] at hmarked
    rw [forall_append_cons_iff]
    have ih (behind : Behind) := @ih behind hmarked.2
    have hclosed : c ≠ ')' → ¬ closes = true := fun hc hcloses => hc (hmarked.1 hcloses)
    rw [keptFrom]
    split
    next hdigit =>
      have hc : c ≠ ')' := by
        rintro rfl
        cases hdigit.2
      rw [ih .digit]
      exact (and_iff_right fun hcloses => absurd hcloses (hclosed hc)).symm
    next =>
      split
      next hunderscore =>
        have hc : c ≠ ')' := hunderscore.2 ▸ by decide
        rw [ih .other]
        exact (and_iff_right fun hcloses => absurd hcloses (hclosed hc)).symm
      next =>
        rw [List.isChain_cons, ih]
        refine and_congr_left' ?_
        cases closes <;> simp [NoDigitBehind]

theorem exists_of_head?_keptFrom_digit {marked : List (Char × Bool)} {q : Char × Bool}
    (hq : q ∈ (keptFrom .digit marked).head?) (hdigit : q.1.isDigit = true) :
    ∃ digits rest, marked.map Prod.fst = digits ++ '_' :: q.1 :: rest ∧
      ∀ d ∈ digits, d.isDigit = true := by
  induction marked with
  | nil => cases hq
  | cons first marked ih =>
    obtain ⟨d, flag⟩ := first
    rw [keptFrom] at hq
    split at hq
    next hd =>
      obtain ⟨digits, rest, heq, hdigits⟩ := ih hq
      exact ⟨d :: digits, rest, congrArg _ heq, List.forall_mem_cons.2 ⟨hd.2, hdigits⟩⟩
    next hd =>
      split at hq
      next hunderscore =>
        cases marked with
        | nil => cases hq
        | cons second marked =>
          obtain rfl : second = q := by simpa [keptFrom] using hq
          refine ⟨[], marked.map Prod.fst, ?_, List.forall_mem_nil _⟩
          rw [List.map_cons, List.map_cons, hunderscore.2]
          rfl
      next =>
        obtain rfl : (d, flag) = q := Option.some.inj hq
        exact absurd ⟨by decide, hdigit⟩ hd

/-- A digit is left behind a reference exactly if it stood behind a number and an underscore. -/
theorem exists_head?_keptFrom_iff {marked : List (Char × Bool)} :
    (∃ q ∈ (keptFrom .reference marked).head?, q.1.isDigit = true) ↔
      ∃ digits c rest, marked.map Prod.fst = digits ++ '_' :: c :: rest ∧ digits ≠ [] ∧
        (∀ d ∈ digits, d.isDigit = true) ∧ c.isDigit = true := by
  constructor
  · rintro ⟨q, hq, hdigit⟩
    cases marked with
    | nil => cases hq
    | cons first marked =>
      obtain ⟨d, flag⟩ := first
      rw [keptFrom] at hq
      split at hq
      next hd =>
        obtain ⟨digits, rest, heq, hdigits⟩ := exists_of_head?_keptFrom_digit hq hdigit
        exact ⟨d :: digits, q.1, rest, congrArg _ heq, List.cons_ne_nil d digits,
          List.forall_mem_cons.2 ⟨hd.2, hdigits⟩, hdigit⟩
      next hd =>
        rw [if_neg (by simp)] at hq
        obtain rfl : (d, flag) = q := Option.some.inj hq
        exact absurd ⟨by decide, hdigit⟩ hd
  · rintro ⟨digits, c, rest, heq, hne, hdigits, hc⟩
    obtain ⟨front, back, rfl, rfl, hback⟩ := List.map_eq_append_iff.1 heq
    obtain ⟨u, back, rfl, hu, hback⟩ := List.map_eq_cons_iff.1 hback
    obtain ⟨q, back, rfl, rfl, rfl⟩ := List.map_eq_cons_iff.1 hback
    have hfront : front ≠ [] := by
      rintro rfl
      exact hne rfl
    rw [keptFrom_digits_append (show Behind.reference ≠ .other by decide) hfront
      (List.forall_mem_map.1 hdigits)]
    refine ⟨q, ?_, hc⟩
    obtain ⟨d, flag⟩ := u
    obtain rfl : d = '_' := hu
    simp [keptFrom]

/-- Whether behind the number of a reference stand an underscore and another digit. -/
def ExposesDigit (text : List Char) : Prop :=
  ∃ closing digits c rest, text = closing ++ digits ++ '_' :: c :: rest ∧ EndsReference closing ∧
    digits ≠ [] ∧ (∀ d ∈ digits, d.isDigit = true) ∧ c.isDigit = true

/-- A digit is exposed exactly if one is left behind a mark. -/
theorem exposesDigit_iff {text : List Char} :
    ExposesDigit text ↔ ∃ front p back, mark text = front ++ p :: back ∧ p.2 = true ∧
      ∃ q ∈ (keptFrom .reference back).head?, q.1.isDigit = true := by
  constructor
  · rintro ⟨closing, digits, c, rest, heq, hclosing, hne, hdigits, hc⟩
    obtain ⟨before, kind, name, hname, rfl⟩ := hclosing
    have htext : (mark text).map Prod.fst =
        (before ++ kind.head ++ '(' :: name) ++ ')' :: (digits ++ '_' :: c :: rest) := by
      rw [map_fst_mark, heq]
      simp
    obtain ⟨front, back, hmark, hfront, hback⟩ := List.map_eq_append_iff.1 htext
    obtain ⟨p, back, rfl, hp, hback⟩ := List.map_eq_cons_iff.1 hback
    have hcloses := (marksReferences_mark text front p back hmark).2
      ⟨before, kind, name, hname, by rw [hfront, hp, List.nil_append]⟩
    exact ⟨front, p, back, hmark, hcloses,
      exists_head?_keptFrom_iff.2 ⟨digits, c, rest, hback, hne, hdigits, hc⟩⟩
  · rintro ⟨front, p, back, hmark, hcloses, hdigit⟩
    obtain ⟨digits, c, rest, hback, hne, hdigits, hc⟩ := exists_head?_keptFrom_iff.1 hdigit
    have hclosing := (marksReferences_mark text front p back hmark).1 hcloses
    refine ⟨_, digits, c, rest, ?_, hclosing, hne, hdigits, hc⟩
    have htext := map_fst_mark text
    rw [hmark, List.map_append, List.map_cons, hback] at htext
    simpa using htext.symm

/-- Erasing again changes something exactly if the first time exposes a digit. -/
theorem eraseNumbers_eraseNumbers_iff {text : List Char} :
    eraseNumbers (eraseNumbers text) = eraseNumbers text ↔ ¬ ExposesDigit text := by
  have hagain : eraseNumbers (eraseNumbers text) = eraseNumbers text ↔
      (keptFrom .other (mark text)).IsChain NoDigitBehind := by
    have hstart := @eraseFrom_eq_map_iff ('(', false) (keptFrom .other (mark text))
    rw [map_fst_keptFrom, List.isChain_cons, and_iff_right (fun _ _ => nofun)] at hstart
    rw [← hstart, eraseNumbers, mark_eraseNumbers, eraseNumbers]
    rfl
  rw [hagain, isChain_keptFrom_iff fun p => eq_close_of_mem_mark, exposesDigit_iff]
  simp only [not_exists, not_and, Bool.not_eq_true]

/-- The digit that is left is erased the second time. -/
example : ExposesDigit "t_enum(a)1_2".toList ∧
    eraseNumbers "t_enum(a)1_2".toList = "t_enum(a)2".toList ∧
    eraseNumbers "t_enum(a)2".toList = "t_enum(a)".toList :=
  ⟨⟨"t_enum(a)".toList, ['1'], '2', [], by decide, by decide, by decide,
    List.forall_mem_singleton.2 (by decide), by decide⟩, by decide⟩

/-- What stands behind the number of a reference in the identifiers of the compiler: nothing, a
delimiter, or a location, whose name follows an underscore and begins with no digit. -/
inductive FollowsNumber : List Char → Prop
  | nothing : FollowsNumber []
  | delimiter {c : Char} {rest : List Char} (hc : isDelimiter c = true) : FollowsNumber (c :: rest)
  | location {c : Char} {rest : List Char} (hc : c.isDigit = false) :
      FollowsNumber ('_' :: c :: rest)

theorem not_exposesDigit {text : List Char}
    (h : ∀ closing rest, text = closing ++ rest → EndsReference closing →
      ∃ digits back, rest = digits ++ back ∧ (∀ d ∈ digits, d.isDigit = true) ∧
        FollowsNumber back) : ¬ ExposesDigit text := by
  rintro ⟨closing, digits, c, rest, heq, hclosing, hne, hdigits, hc⟩
  rw [List.append_assoc] at heq
  obtain ⟨digits', back, hrest, hdigits', hback⟩ := h closing _ heq hclosing
  have hdrop := congrArg (List.dropWhile Char.isDigit) hrest
  rw [List.dropWhile_append_of_pos hdigits, List.dropWhile_append_of_pos hdigits',
    List.dropWhile_cons_of_neg (by decide)] at hdrop
  cases hback with
  | nothing => cases hdrop
  | @delimiter d back hd =>
    have hplain : ¬ d.isDigit = true := fun hdigit =>
      Bool.false_ne_true ((IsErasable.not_isDelimiter (.inl hdigit)).symm.trans hd)
    rw [List.dropWhile_cons_of_neg hplain] at hdrop
    cases hdrop
    cases hd
  | location hd =>
    rw [List.dropWhile_cons_of_neg (by decide)] at hdrop
    cases hdrop
    exact Bool.false_ne_true (hd.symm.trans hc)

end Stable

/-- A decoded identifier has a stable form, and that is its own stable form exactly if no reference
is followed by digits, an underscore and another digit. So it is wherever the number of each
reference is followed as the compiler does. -/
theorem stabilize_stable_iff {raw text : String} (h : decode raw = .ok text) :
    ∃ stable, stabilize raw = .ok stable ∧
      (stabilize stable = .ok stable ↔ ¬ Stable.ExposesDigit text.toList) ∧
      ((∀ closing rest, text.toList = closing ++ rest → Stable.EndsReference closing →
        ∃ digits back, rest = digits ++ back ∧ (∀ d ∈ digits, d.isDigit = true) ∧
          Stable.FollowsNumber back) → stabilize stable = .ok stable) := by
  have hdecode := decode_eq_ok_iff_toList.1 h
  have hdollar : '$' ∉ text.toList := Escape.dollar_not_mem_of_decodeFrom hdecode
  have hstable : '$' ∉ Stable.eraseNumbers text.toList :=
    fun hmem => hdollar ((Stable.eraseNumbers_sublist text.toList).mem hmem)
  have hagain : stabilize (String.ofList (Stable.eraseNumbers text.toList)) =
      .ok (String.ofList (Stable.eraseNumbers text.toList)) ↔
        ¬ Stable.ExposesDigit text.toList := by
    rw [← Stable.eraseNumbers_eraseNumbers_iff, stabilize_eq_ok_iff, String.toList_ofList]
    simp [Escape.decode, Escape.decodeFrom_of_dollar_not_mem hstable]
  refine ⟨_, stabilize_eq_ok_iff.2 ⟨_, hdecode, String.toList_ofList.symm⟩, hagain, fun hfollows => ?_⟩
  exact hagain.2 (Stable.not_exposesDigit hfollows)

/-- Two references, one in front of a comma and one in front of a location. -/
theorem stabilize_stable_iff_nested :
    decode "m$_t_enum$_a_$7_$_t_struct$_b_$1_s_$" = .ok "m(t_enum(a)7,t_struct(b)1_s)" ∧
    ∃ stable, stabilize "m$_t_enum$_a_$7_$_t_struct$_b_$1_s_$" = .ok stable ∧
      stabilize stable = .ok stable := by
  have hdecode : decode "m$_t_enum$_a_$7_$_t_struct$_b_$1_s_$" =
      .ok "m(t_enum(a)7,t_struct(b)1_s)" := by decide
  have hclosings : ∀ j ≤ 28,
      Stable.EndsReference ("m(t_enum(a)7,t_struct(b)1_s)".toList.take j) → j = 11 ∨ j = 24 := by
    decide
  obtain ⟨stable, hstable, -, hfollows⟩ := stabilize_stable_iff hdecode
  refine ⟨hdecode, stable, hstable, hfollows fun closing rest heq hclosing => ?_⟩
  have hlength := congrArg List.length heq
  have hclosed : closing = "m(t_enum(a)7,t_struct(b)1_s)".toList.take closing.length := by
    rw [heq, List.take_left]
  have hrest : rest = "m(t_enum(a)7,t_struct(b)1_s)".toList.drop closing.length := by
    rw [heq, List.drop_left]
  rw [List.length_append] at hlength
  rcases hclosings closing.length (Nat.le.intro hlength.symm) (hclosed ▸ hclosing) with h | h
  · rw [hrest, h]
    exact ⟨['7'], _, rfl, List.forall_mem_singleton.2 (by decide), .delimiter (by decide)⟩
  · rw [hrest, h]
    exact ⟨['1'], _, rfl, List.forall_mem_singleton.2 (by decide), .location (by decide)⟩

end StorageUpgrade.Identifier
