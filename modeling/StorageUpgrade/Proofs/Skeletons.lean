import StorageUpgrade.Proofs.RepeatedErasure
import StorageUpgrade.Proofs.ReparsedNodes

/-!
# Skeletons of identifiers

Erasing the numbers of declarations changes an identifier behind closing brackets only, and there
it may join a number to further text. The skeleton of a text leaves out all that stands behind a
closing bracket, up to the next bracket or comma. In front of an opening bracket an expression can
only have the word `returns` there, so the skeleton has that word and is the same whatever is
erased. It is written of an expression of its own, the skeleton of the one that the text is written
of; so texts with one skeleton have structures with one skeleton.
-/

namespace StorageUpgrade.Identifier

/-- Leaves out what stands behind closing brackets. With `behind` the text follows one. -/
def skeletonFrom (behind : Bool) : List Char → List Char
  | [] => []
  | '(' :: rest => (if behind then returnsWord else []) ++ '(' :: skeletonFrom false rest
  | ')' :: rest => ')' :: skeletonFrom true rest
  | ',' :: rest => ',' :: skeletonFrom false rest
  | c :: rest => if behind then skeletonFrom true rest else c :: skeletonFrom false rest

mutual

/-- An expression without what stands behind its brackets, apart from the types returned. -/
def TypeExpr.skeleton : TypeExpr → TypeExpr
  | .word head => .word head
  | .named kind name ending => .named kind (skeletonFrom false name) ending.skeleton
  | .applied head args ending => .applied head (listSkeleton args) ending.skeleton

def Ending.skeleton : Ending → Ending
  | .tail _ => .tail []
  | .returns types => .returns (listSkeleton types)

def listSkeleton : List TypeExpr → List TypeExpr
  | [] => []
  | e :: es => e.skeleton :: listSkeleton es

end

theorem listSkeleton_eq_map (es : List TypeExpr) : listSkeleton es = es.map TypeExpr.skeleton := by
  induction es with
  | nil => rfl
  | cons e es ih => rw [listSkeleton, ih, List.map_cons]

/-! ## Skeletons of texts -/

section

variable {behind : Bool} {left right rest : List Char} {c : Char}

theorem skeletonFrom_cons_plain (hc : isDelimiter c = false) (rest : List Char) :
    skeletonFrom behind (c :: rest) =
      if behind then skeletonFrom true rest else c :: skeletonFrom false rest := by
  rw [skeletonFrom] <;> rintro rfl <;> cases hc

theorem skeletonFrom_false_cons (c : Char) (rest : List Char) :
    skeletonFrom false (c :: rest) = c :: skeletonFrom (c = ')') rest := by
  rw [skeletonFrom.eq_def]
  split <;> simp_all

/-- Behind a closing bracket a character is left out, or the skeleton goes on in front of it, at
most with the word `returns` between. -/
theorem skeletonFrom_true_cons (c : Char) :
    (∀ rest, skeletonFrom true (c :: rest) = skeletonFrom true rest) ∨
      ∃ word, (word = [] ∨ word = returnsWord) ∧
        ∀ rest, skeletonFrom true (c :: rest) = word ++ skeletonFrom false (c :: rest) := by
  by_cases hc : isDelimiter c = true
  · right
    rcases isDelimiter_iff.1 hc with rfl | rfl | rfl
    · exact ⟨returnsWord, .inr rfl, fun rest => by simp [skeletonFrom]⟩
    · exact ⟨[], .inl rfl, fun rest => by rw [skeletonFrom, skeletonFrom, List.nil_append]⟩
    · exact ⟨[], .inl rfl, fun rest => by rw [skeletonFrom, skeletonFrom, List.nil_append]⟩
  · exact .inl fun rest => skeletonFrom_cons_plain (Bool.eq_false_iff.2 hc) rest

/-- Behind one character, texts have one skeleton if they have it there. -/
theorem skeletonFrom_cons_congr
    (h : ∀ behind, (c = ')' → behind = true) → skeletonFrom behind left = skeletonFrom behind right)
    (behind : Bool) : skeletonFrom behind (c :: left) = skeletonFrom behind (c :: right) := by
  by_cases hclose : c = ')'
  · subst hclose
    rw [skeletonFrom, skeletonFrom, h true fun _ => rfl]
  · have hrest : ∀ behind, skeletonFrom behind left = skeletonFrom behind right := fun behind =>
      h behind fun heq => absurd heq hclose
    unfold skeletonFrom
    split <;> simp_all

theorem skeletonFrom_append_close (behind : Bool) (left right : List Char) :
    skeletonFrom behind (left ++ ')' :: right) =
      skeletonFrom behind left ++ ')' :: skeletonFrom true right := by
  fun_induction skeletonFrom behind left <;> simp_all [skeletonFrom]

/-- A word behind a closing bracket is left out. -/
theorem skeletonFrom_true_append (h : Plain left) (right : List Char) :
    skeletonFrom true (left ++ right) = skeletonFrom true right := by
  induction left with
  | nil => rfl
  | cons c left ih =>
    rw [plain_cons_iff] at h
    rw [List.cons_append, skeletonFrom_cons_plain h.1, if_pos rfl, ih h.2]

theorem skeletonFrom_false_append (h : Plain left) (right : List Char) :
    skeletonFrom false (left ++ right) = left ++ skeletonFrom false right := by
  induction left with
  | nil => rfl
  | cons c left ih =>
    rw [plain_cons_iff] at h
    rw [List.cons_append, skeletonFrom_cons_plain h.1, ih h.2]
    rfl

theorem skeletonFrom_of_follows (h : Follows rest) (behind : Bool) :
    skeletonFrom behind rest = skeletonFrom false rest := by
  cases rest with
  | nil => rw [skeletonFrom, skeletonFrom]
  | cons c rest => rcases h c rfl with rfl | rfl <;> rw [skeletonFrom, skeletonFrom]

theorem Plain.balanced (h : Plain left) : Balanced left := by
  induction left with
  | nil => exact .nil
  | cons c left ih =>
    obtain ⟨hc, hleft⟩ := plain_cons_iff.1 h
    refine .cons ?_ ?_ (ih hleft) <;> rintro rfl <;> cases hc

/-- Brackets that match still do. -/
theorem Balanced.skeletonFrom (h : Balanced left) (behind : Bool) :
    Balanced (skeletonFrom behind left) := by
  induction h generalizing behind with
  | nil => exact .nil
  | @cons c rest hopen hclose _ ih =>
    by_cases hcomma : c = ','
    · subst hcomma
      exact .cons hopen hclose (ih false)
    · have hc : isDelimiter c = false := by simp [isDelimiter, hopen, hclose, hcomma]
      rw [skeletonFrom_cons_plain hc]
      cases behind with
      | false => exact .cons hopen hclose (ih false)
      | true => exact ih true
  | @brackets inner rest _ _ ihInner ihRest =>
    have hword : Balanced (if behind then returnsWord else []) := by
      cases behind with
      | false => exact .nil
      | true => exact plain_returnsWord.balanced
    have hbrackets := Balanced.brackets (ihInner false) (ihRest true)
    rw [List.cons_append, Identifier.skeletonFrom, skeletonFrom_append_close]
    exact hword.append hbrackets

end

/-! ## Skeletons of expressions -/

mutual

/-- The skeleton of an expression is written as the skeleton of what is written of it. -/
theorem skeletonFrom_write (e : TypeExpr) (h : e.Proper) {rest : List Char} (hrest : Follows rest) :
    skeletonFrom false (e.write rest) = e.skeleton.write (skeletonFrom false rest) := by
  cases e with
  | word head =>
    cases h with
    | word hhead => exact skeletonFrom_false_append hhead rest
  | named kind name ending =>
    cases h with
    | named hname hending =>
      rw [TypeExpr.write, List.append_assoc, skeletonFrom_false_append (plain_head kind),
        List.cons_append, skeletonFrom, skeletonFrom_append_close,
        skeletonFrom_writeEnding ending hending hrest]
      simp [TypeExpr.skeleton, TypeExpr.write]
  | applied head args ending =>
    cases h with
    | applied hhead hnamed hempty hargs hending =>
      rw [TypeExpr.write, skeletonFrom_false_append hhead, skeletonFrom,
        skeletonFrom_writeFirst args hargs, skeletonFrom_writeEnding ending hending hrest]
      simp [TypeExpr.skeleton, TypeExpr.write]

theorem skeletonFrom_writeEnding (ending : Ending) (h : ending.Proper) {rest : List Char}
    (hrest : Follows rest) :
    skeletonFrom true (ending.write rest) = ending.skeleton.write (skeletonFrom false rest) := by
  cases ending with
  | tail text =>
    cases h with
    | tail htext =>
      rw [Ending.write, skeletonFrom_true_append htext, skeletonFrom_of_follows hrest]
      rfl
  | returns types =>
    cases h with
    | returns hempty htypes =>
      rw [Ending.write, skeletonFrom_true_append plain_returnsWord, skeletonFrom,
        skeletonFrom_writeFirst types htypes, skeletonFrom_of_follows hrest]
      rfl

theorem skeletonFrom_writeFirst (es : List TypeExpr) (hes : ∀ e ∈ es, e.Proper)
    (rest : List Char) :
    skeletonFrom false (writeFirst rest es) =
      writeFirst (skeletonFrom true rest) (listSkeleton es) := by
  cases es with
  | nil => rw [writeFirst, skeletonFrom, listSkeleton, writeFirst]
  | cons e es =>
    rw [List.forall_mem_cons] at hes
    rw [writeFirst, skeletonFrom_write e hes.1 (follows_writeMore rest es),
      skeletonFrom_writeMore es hes.2, listSkeleton, writeFirst]

theorem skeletonFrom_writeMore (es : List TypeExpr) (hes : ∀ e ∈ es, e.Proper)
    (rest : List Char) :
    skeletonFrom false (writeMore rest es) =
      writeMore (skeletonFrom true rest) (listSkeleton es) := by
  cases es with
  | nil => rw [writeMore, skeletonFrom, listSkeleton, writeMore]
  | cons e es =>
    rw [List.forall_mem_cons] at hes
    rw [writeMore, skeletonFrom, skeletonFrom_write e hes.1 (follows_writeMore rest es),
      skeletonFrom_writeMore es hes.2, listSkeleton, writeMore]

end

/-- A skeleton is an empty word only if the expression is. -/
theorem listSkeleton_ne_empty {es : List TypeExpr} (h : es ≠ [.word []]) :
    listSkeleton es ≠ [.word []] := by
  intro hskeleton
  rw [listSkeleton_eq_map, List.map_eq_singleton_iff] at hskeleton
  obtain ⟨e, rfl, hword⟩ := hskeleton
  cases e with
  | word head =>
    cases hword
    exact h rfl
  | named => cases hword
  | applied => cases hword

mutual

theorem TypeExpr.Proper.skeleton (e : TypeExpr) (h : e.Proper) : e.skeleton.Proper := by
  cases e with
  | word head => exact h
  | named kind name ending =>
    cases h with
    | named hname hending => exact .named (hname.skeletonFrom false) (hending.skeleton ending)
  | applied head args ending =>
    cases h with
    | applied hhead hnamed hempty hargs hending =>
      exact .applied hhead hnamed (listSkeleton_ne_empty hempty)
        (forall_proper_listSkeleton args hargs) (hending.skeleton ending)

theorem Ending.Proper.skeleton (ending : Ending) (h : ending.Proper) : ending.skeleton.Proper := by
  cases ending with
  | tail text => exact .tail nofun (by decide)
  | returns types =>
    cases h with
    | returns hempty htypes =>
      exact .returns (listSkeleton_ne_empty hempty) (forall_proper_listSkeleton types htypes)

theorem forall_proper_listSkeleton (es : List TypeExpr) (h : ∀ e ∈ es, e.Proper) :
    ∀ e ∈ listSkeleton es, e.Proper := by
  cases es with
  | nil => exact List.forall_mem_nil _
  | cons e es =>
    rw [List.forall_mem_cons] at h
    exact List.forall_mem_cons.2 ⟨h.1.skeleton e, forall_proper_listSkeleton es h.2⟩

end

theorem TypeExpr.Proper.skeletonFrom_text {e : TypeExpr} (h : e.Proper) :
    skeletonFrom false e.text = e.skeleton.text :=
  skeletonFrom_write e h follows_nil

/-- Texts with one skeleton are written of expressions with one skeleton. -/
theorem TypeExpr.skeleton_eq_of_text {e e' : TypeExpr} (h : e.Proper) (h' : e'.Proper)
    (htext : skeletonFrom false e.text = skeletonFrom false e'.text) :
    e.skeleton = e'.skeleton := by
  have hread : ∀ e : TypeExpr, e.Proper →
      read? (skeletonFrom false e.text) = some (e.skeleton, []) := fun e he =>
    read?_eq_some_nil_iff.2 ⟨he.skeleton e, he.skeletonFrom_text.symm⟩
  have hpair := (hread e h).symm.trans (htext ▸ hread e' h')
  exact congrArg Prod.fst (Option.some.inj hpair)

/-! ## What keeps the skeleton -/

/-- Erasing a number takes away text that the skeleton leaves out. -/
theorem skeletonFrom_eraseFrom {after : Stable.Behind} {marked : List (Char × Bool)}
    (hmarked : ∀ p ∈ marked, p.2 = true → p.1 = ')') {behind : Bool}
    (h : after ≠ .other → behind = true) :
    skeletonFrom behind (Stable.eraseFrom after marked) =
      skeletonFrom behind (marked.map Prod.fst) := by
  fun_induction Stable.eraseFrom after marked generalizing behind with
  | case1 => rfl
  | case2 after c closes rest hdigit ih =>
    have hc : isDelimiter c = false := Stable.IsErasable.not_isDelimiter (.inl hdigit.2)
    rw [List.forall_mem_cons] at hmarked
    rw [List.map_cons, skeletonFrom_cons_plain hc, h hdigit.1, if_pos rfl]
    exact ih hmarked.2 fun _ => rfl
  | case3 after c closes rest hdigit hunderscore ih =>
    have hc : isDelimiter c = false := Stable.IsErasable.not_isDelimiter (.inr hunderscore.2)
    have hafter : after ≠ .other := by
      rw [hunderscore.1]
      decide
    have hbehind : behind = true := h hafter
    rw [List.forall_mem_cons] at hmarked
    rw [List.map_cons, skeletonFrom_cons_plain hc, hbehind, if_pos rfl]
    exact ih hmarked.2 fun _ => rfl
  | case4 after c closes rest hdigit hunderscore ih =>
    rw [List.forall_mem_cons] at hmarked
    refine skeletonFrom_cons_congr (fun behind hbehind => ih hmarked.2 fun hafter => ?_) behind
    cases closes with
    | false => exact absurd rfl hafter
    | true => exact hbehind (hmarked.1 rfl)

theorem skeletonFrom_eraseNumbers (text : List Char) :
    skeletonFrom false (Stable.eraseNumbers text) = skeletonFrom false text := by
  have hmarked : ∀ p ∈ Stable.mark text, p.2 = true → p.1 = ')' := fun p hp =>
    Stable.eq_close_of_mem_mark hp
  rw [Stable.eraseNumbers, skeletonFrom_eraseFrom hmarked (absurd rfl), Stable.map_fst_mark]

section

variable {old new : List Char}

theorem prefix_of_prefix_skeletonFrom {word text : List Char} (hword : Plain word)
    (h : word <+: skeletonFrom false text) : word <+: text := by
  induction word generalizing text with
  | nil => exact List.nil_prefix
  | cons d word ih =>
    cases text with
    | nil => exact h
    | cons c text =>
      rw [skeletonFrom_false_cons, List.cons_prefix_cons] at h
      obtain ⟨rfl, hrest⟩ := h
      obtain ⟨hd, hplain⟩ := plain_cons_iff.1 hword
      have hclose : d ≠ ')' := by
        rintro rfl
        cases hd
      rw [decide_eq_false hclose] at hrest
      exact List.cons_prefix_cons.2 ⟨rfl, ih hplain hrest⟩

/-- Replacing a word without brackets commutes with taking the skeleton. -/
theorem skeletonFrom_replace (hold : old ≠ []) (hplain : Plain old) (hplain' : Plain new)
    (hreturns : ∀ c ∈ old.head?, c ∉ returnsWord) (behind : Bool) (text : List Char) :
    skeletonFrom behind (Text.replace old new text) =
      Text.replace old new (skeletonFrom behind text) := by
  induction text using Text.replace_induction hold generalizing behind with
  | nil => simp [Text.replace, Text.replaceFrom, skeletonFrom]
  | found rest ih =>
    rw [Text.replace_append new rest hold]
    cases behind with
    | false =>
      rw [skeletonFrom_false_append hplain', skeletonFrom_false_append hplain, ih,
        Text.replace_append new _ hold]
    | true => rw [skeletonFrom_true_append hplain', skeletonFrom_true_append hplain, ih]
  | passed c rest hfront ih =>
    have hfalse : skeletonFrom false (c :: Text.replace old new rest) =
        Text.replace old new (skeletonFrom false (c :: rest)) := by
      have hfront' : ¬ old <+: skeletonFrom false (c :: rest) := fun h =>
        hfront (prefix_of_prefix_skeletonFrom hplain h)
      rw [skeletonFrom_false_cons] at hfront' ⊢
      rw [skeletonFrom_false_cons, Text.replace_cons new c _ hfront', ih]
    rw [Text.replace_cons new c rest hfront]
    cases behind with
    | false => exact hfalse
    | true =>
      rcases skeletonFrom_true_cons c with hplain | ⟨word, hword, hcons⟩
      · rw [hplain, hplain, ih]
      · have hpassed : ∀ d ∈ old.head?, d ∉ word := by
          rcases hword with rfl | rfl
          · exact fun _ _ => List.not_mem_nil
          · exact hreturns
        rw [hcons, hcons, hfalse, Text.replace_append_of_notMem hold hpassed]

end

/-! ## Identifiers with one skeleton -/

/-- Identifiers whose decoded texts have one skeleton. -/
def SameSkeleton (raw raw' : String) : Prop :=
  ∃ decoded decoded', Escape.decode raw.toList = .ok decoded ∧
    Escape.decode raw'.toList = .ok decoded' ∧
      skeletonFrom false decoded = skeletonFrom false decoded'

section

variable {raw raw' text : String} {e e' : TypeExpr}

theorem sameSkeleton_of_stabilize (h : stabilize raw = .ok text) (h' : stabilize raw' = .ok text) :
    SameSkeleton raw raw' := by
  obtain ⟨decoded, hdecode, herase⟩ := stabilize_eq_ok_iff.1 h
  obtain ⟨decoded', hdecode', herase'⟩ := stabilize_eq_ok_iff.1 h'
  refine ⟨decoded, decoded', hdecode, hdecode', ?_⟩
  rw [← skeletonFrom_eraseNumbers decoded, ← skeletonFrom_eraseNumbers decoded', herase, herase']

/-- Folding pointers into storage is all that parsing does to a skeleton. -/
theorem skeletonFrom_text_of_parse {decoded : List Char}
    (hdecode : Escape.decode raw.toList = .ok decoded) (hparse : parse raw = .ok e) :
    skeletonFrom false e.text =
      Text.replace storagePointerWord storageWord (skeletonFrom false decoded) := by
  obtain ⟨chars, hchars, hreplace⟩ := normalize_eq_ok_iff.1 (normalize_of_parse hparse)
  rw [hdecode, Except.ok.injEq] at hchars
  rw [TypeExpr.id, String.toList_ofList] at hreplace
  have hpointer : Plain storagePointerWord := plain_iff_all.2 (by decide)
  have hreference : Plain storageWord := plain_iff_all.2 (by decide)
  have hreturns : ∀ c ∈ storagePointerWord.head?, c ∉ returnsWord := by
    rw [show storagePointerWord.head? = some '_' by decide]
    rintro c ⟨⟩
    decide
  rw [← hreplace, ← hchars, skeletonFrom_replace (by decide) hpointer hreference hreturns]

theorem SameSkeleton.skeleton_eq (h : SameSkeleton raw raw') (hparse : parse raw = .ok e)
    (hparse' : parse raw' = .ok e') : e.skeleton = e'.skeleton := by
  obtain ⟨decoded, decoded', hdecode, hdecode', hskeleton⟩ := h
  refine TypeExpr.skeleton_eq_of_text (proper_of_parse hparse) (proper_of_parse hparse') ?_
  rw [skeletonFrom_text_of_parse hdecode hparse, skeletonFrom_text_of_parse hdecode' hparse',
    hskeleton]

theorem decode_part_of_parse (hparse : parse raw = .ok e) {part : TypeExpr}
    (hpart : part ∈ e.parts) : Escape.decode part.id.toList = .ok part.text := by
  have hescape : '$' ∉ part.text := by
    intro hmem
    refine dollar_not_mem_of_normalize (normalize_of_parse hparse) ?_
    rw [TypeExpr.id, String.toList_ofList]
    exact (TypeExpr.text_infix_of_mem_parts hpart).subset hmem
  rw [TypeExpr.id, String.toList_ofList]
  exact Escape.decodeFrom_of_dollar_not_mem hescape 0

/-- Parts of structures with one skeleton have identifiers with one skeleton. -/
theorem sameSkeleton_id (hparse : parse raw = .ok e) (hparse' : parse raw' = .ok e')
    {part part' : TypeExpr} (hpart : part ∈ e.parts) (hpart' : part' ∈ e'.parts)
    (h : part.skeleton = part'.skeleton) : SameSkeleton part.id part'.id := by
  refine ⟨part.text, part'.text, decode_part_of_parse hparse hpart,
    decode_part_of_parse hparse' hpart', ?_⟩
  rw [((proper_of_parse hparse).of_mem_parts hpart).skeletonFrom_text,
    ((proper_of_parse hparse').of_mem_parts hpart').skeletonFrom_text, h]

end

end StorageUpgrade.Identifier
