import StorageUpgrade.Identifier.Parser

/-!
# Expressions that can be read

What is read of a text is a proper expression: words have no delimiters in them, the brackets in a
name match, and a list that is empty is not taken for an empty word. Every proper expression is read
back from what is written of it. The budget of the reader only keeps the recursion structural: any
budget that is large enough gives the same.
-/

namespace StorageUpgrade.Identifier

/-! ## Words -/

/-- Text without brackets and commas. -/
def Plain (text : List Char) : Prop := ∀ c ∈ text, isDelimiter c = false

theorem Plain.not_isDelimiter {text : List Char} (h : Plain text) :
    ∀ c ∈ text, (!isDelimiter c) = true :=
  fun c hc => by rw [h c hc]; rfl

theorem plain_cons_iff {c : Char} {text : List Char} :
    Plain (c :: text) ↔ isDelimiter c = false ∧ Plain text :=
  List.forall_mem_cons

theorem isDelimiter_iff {c : Char} : isDelimiter c = true ↔ c = '(' ∨ c = ')' ∨ c = ',' := by
  simp [isDelimiter, or_assoc]

theorem plain_iff_all {text : List Char} :
    Plain text ↔ text.all (!isDelimiter ·) = true := by
  simp [Plain]

theorem plain_returnsWord : Plain returnsWord :=
  plain_iff_all.2 (by decide)

theorem plain_head (kind : NamedKind) : Plain kind.head :=
  plain_iff_all.2 (by cases kind <;> decide)

/-- Text as it may stand behind an expression. -/
def Follows (rest : List Char) : Prop := ∀ c ∈ rest.head?, c = ',' ∨ c = ')'

theorem follows_nil : Follows [] := nofun

theorem Follows.isDelimiter {rest : List Char} (h : Follows rest) :
    ∀ c ∈ rest.head?, isDelimiter c = true := by
  intro c hc
  rcases h c hc with rfl | rfl <;> rfl

theorem plain_splitWord (text : List Char) : Plain (splitWord text).1 :=
  fun _ => not_isDelimiter_of_mem_splitWord

/-- A word ends where a delimiter stands. -/
theorem splitWord_plain_append {word rest : List Char} (hword : Plain word)
    (hrest : ∀ c ∈ rest.head?, isDelimiter c = true) :
    splitWord (word ++ rest) = (word, rest) := by
  have htake : rest.takeWhile (!isDelimiter ·) = [] := by
    cases rest with
    | nil => rfl
    | cons c rest => simp [hrest c rfl]
  have hdrop : rest.dropWhile (!isDelimiter ·) = rest := by
    cases rest with
    | nil => rfl
    | cons c rest => simp [hrest c rfl]
  rw [splitWord, List.takeWhile_append_of_pos hword.not_isDelimiter,
    List.dropWhile_append_of_pos hword.not_isDelimiter, htake, hdrop, List.append_nil]

theorem splitWord_append_open {word : List Char} (hword : Plain word) (rest : List Char) :
    splitWord (word ++ '(' :: rest) = (word, '(' :: rest) :=
  splitWord_plain_append hword (by simp [isDelimiter])

/-- A word at the front of a text stands before the first delimiter. -/
theorem prefix_of_prefix_append {word text rest : List Char} (hword : Plain word)
    (htext : Plain text) (hrest : ∀ c ∈ rest.head?, isDelimiter c = true)
    (h : word <+: text ++ rest) : word <+: text := by
  obtain ⟨behind, heq⟩ := h
  have htake : (splitWord (text ++ rest)).1 = text := by rw [splitWord_plain_append htext hrest]
  rw [← heq, splitWord, List.takeWhile_append_of_pos hword.not_isDelimiter] at htake
  exact ⟨_, htake⟩

/-! ## Names -/

/-- Text in which every bracket has a partner. -/
inductive Balanced : List Char → Prop
  | nil : Balanced []
  | cons {c : Char} {rest : List Char} (hopen : c ≠ '(') (hclose : c ≠ ')')
      (hrest : Balanced rest) : Balanced (c :: rest)
  | brackets {inner rest : List Char} (hinner : Balanced inner) (hrest : Balanced rest) :
      Balanced ('(' :: inner ++ ')' :: rest)

/-- Text in which every bracket has a partner, but for so many that close. -/
def Closes : Nat → List Char → Prop
  | 0, text => Balanced text
  | depth + 1, text =>
    ∃ inner rest, text = inner ++ ')' :: rest ∧ Balanced inner ∧ Closes depth rest

namespace Closes

variable {depth : Nat} {text : List Char}

theorem cons {c : Char} (hopen : c ≠ '(') (hclose : c ≠ ')') (h : Closes depth text) :
    Closes depth (c :: text) := by
  cases depth with
  | zero => exact .cons hopen hclose h
  | succ depth =>
    obtain ⟨inner, rest, rfl, hinner, hrest⟩ := h
    exact ⟨c :: inner, rest, rfl, .cons hopen hclose hinner, hrest⟩

theorem opening (h : Closes (depth + 1) text) : Closes depth ('(' :: text) := by
  obtain ⟨inner, rest, rfl, hinner, hrest⟩ := h
  cases depth with
  | zero => exact .brackets hinner hrest
  | succ depth =>
    obtain ⟨next, rest, rfl, hnext, hrest⟩ := hrest
    exact ⟨'(' :: inner ++ ')' :: next, rest, by simp, .brackets hinner hnext, hrest⟩

theorem closing (h : Closes depth text) : Closes (depth + 1) (')' :: text) :=
  ⟨[], text, rfl, .nil, h⟩

end Closes

theorem closes_of_splitClosed {depth : Nat} {text name rest : List Char}
    (h : splitClosed depth text = some (name, rest)) : Closes depth name := by
  fun_induction splitClosed depth text generalizing name rest with
  | case1 => cases h
  | case3 =>
    cases h
    exact .nil
  | case2 depth text ih =>
    obtain ⟨⟨name, rest⟩, hs, h⟩ := Option.map_eq_some_iff.1 h
    cases h
    exact (ih hs).opening
  | case4 text depth ih =>
    obtain ⟨⟨name, rest⟩, hs, h⟩ := Option.map_eq_some_iff.1 h
    cases h
    exact (ih hs).closing
  | case5 depth c text hopen hclose ih =>
    obtain ⟨⟨name, rest⟩, hs, h⟩ := Option.map_eq_some_iff.1 h
    cases h
    exact (ih hs).cons hopen hclose

theorem balanced_of_splitClosed {text name rest : List Char}
    (h : splitClosed 0 text = some (name, rest)) : Balanced name :=
  closes_of_splitClosed h

/-- Brackets that match are passed over. -/
theorem splitClosed_balanced_append {name : List Char} (h : Balanced name) (depth : Nat)
    (rest : List Char) : splitClosed depth (name ++ rest) =
      (splitClosed depth rest).map fun (behind, rest) => (name ++ behind, rest) := by
  induction h generalizing depth rest with
  | nil => simp
  | cons hopen hclose _ ih => simp [splitClosed, ih, Function.comp_def]
  | brackets _ _ ihInner ihRest =>
    simp [splitClosed, ihInner, ihRest, Function.comp_def]

theorem splitClosed_balanced {name : List Char} (h : Balanced name) (rest : List Char) :
    splitClosed 0 (name ++ ')' :: rest) = some (name, rest) := by
  simp [splitClosed_balanced_append h, splitClosed]

/-! ## Proper expressions -/

mutual

/-- Expressions that can be told apart by what is written of them. -/
inductive TypeExpr.Proper : TypeExpr → Prop
  | word {head : List Char} (hhead : Plain head) : TypeExpr.Proper (.word head)
  | named {kind : NamedKind} {name : List Char} {ending : Ending} (hname : Balanced name)
      (hending : Ending.Proper ending) : TypeExpr.Proper (.named kind name ending)
  | applied {head : List Char} {args : List TypeExpr} {ending : Ending} (hhead : Plain head)
      (hnamed : NamedKind.ofHead? head = none) (hempty : args ≠ [.word []])
      (hargs : ∀ arg ∈ args, TypeExpr.Proper arg) (hending : Ending.Proper ending) :
      TypeExpr.Proper (.applied head args ending)

inductive Ending.Proper : Ending → Prop
  | tail {text : List Char} (htext : Plain text) (hreturns : ¬ returnsWord <+: text) :
      Ending.Proper (.tail text)
  | returns {types : List TypeExpr} (hempty : types ≠ [.word []])
      (htypes : ∀ type ∈ types, TypeExpr.Proper type) : Ending.Proper (.returns types)

end

theorem dropWord?_eq_none_iff {word text : List Char} :
    dropWord? word text = none ↔ ¬ word <+: text := by
  rw [Option.eq_none_iff_forall_ne_some, List.IsPrefix, not_exists]
  exact forall_congr' fun rest => not_congr (dropWord?_eq_some_iff.trans eq_comm)

theorem readList_of_ne_close {text : List Char} (h : ∀ rest, text ≠ ')' :: rest) (budget : Nat) :
    readList (budget + 1) text = readItems budget text := by
  rw [readList]
  exact h

/-! ## What is read is proper -/

mutual

theorem proper_of_readExpr {budget : Nat} {text rest : List Char} {e : TypeExpr}
    (h : readExpr budget text = some (e, rest)) : e.Proper := by
  match budget with
  | 0 => simp [readExpr] at h
  | budget + 1 =>
    have hplain := plain_splitWord text
    simp only [readExpr] at h
    split at h
    next =>
      split at h
      next =>
        simp only [Option.bind_eq_bind, Option.bind_eq_some_iff, Option.pure_def,
          Option.some.injEq, Prod.exists, Prod.mk.injEq] at h
        obtain ⟨name, behind, hclosed, ending, rest, hending, rfl, rfl⟩ := h
        exact .named (balanced_of_splitClosed hclosed) (proper_of_readEnding hending)
      next hnamed =>
        simp only [Option.bind_eq_bind, Option.bind_eq_some_iff, Option.pure_def,
          Option.some.injEq, Prod.exists, Prod.mk.injEq] at h
        obtain ⟨args, behind, hargs, ending, rest, hending, rfl, rfl⟩ := h
        obtain ⟨hempty, hproper⟩ := proper_of_readList hargs
        exact .applied hplain hnamed hempty hproper (proper_of_readEnding hending)
    next =>
      cases h
      exact .word hplain

theorem proper_of_readEnding {budget : Nat} {text rest : List Char} {ending : Ending}
    (h : readEnding budget text = some (ending, rest)) : ending.Proper := by
  match budget with
  | 0 => simp [readEnding] at h
  | budget + 1 =>
    simp only [readEnding] at h
    split at h
    next =>
      simp only [Option.bind_eq_bind, Option.bind_eq_some_iff, Option.pure_def,
        Option.some.injEq, Prod.exists, Prod.mk.injEq] at h
      obtain ⟨types, rest, htypes, rfl, rfl⟩ := h
      obtain ⟨hempty, hproper⟩ := proper_of_readList htypes
      exact .returns hempty hproper
    next => cases h
    next hnone =>
      cases h
      have hreturns : ¬ returnsWord <+: text := dropWord?_eq_none_iff.1 hnone
      exact .tail (plain_splitWord text) fun h => hreturns (h.trans (List.takeWhile_prefix _))

theorem proper_of_readList {budget : Nat} {text rest : List Char} {es : List TypeExpr}
    (h : readList budget text = some (es, rest)) :
    es ≠ [.word []] ∧ ∀ e ∈ es, e.Proper := by
  match budget with
  | 0 => simp [readList] at h
  | budget + 1 =>
    have hwrite := writeFirst_of_readList h
    unfold readList at h
    split at h
    next heq => cases heq
    next =>
      cases h
      exact ⟨nofun, List.forall_mem_nil _⟩
    next heq hclose =>
      cases heq
      -- An empty word alone would be written as the bracket, which reads as the empty list.
      refine ⟨?_, proper_of_readItems h⟩
      rintro rfl
      exact hclose rest hwrite.symm

theorem proper_of_readItems {budget : Nat} {text rest : List Char} {es : List TypeExpr}
    (h : readItems budget text = some (es, rest)) : ∀ e ∈ es, e.Proper := by
  match budget with
  | 0 => simp [readItems] at h
  | budget + 1 =>
    simp only [readItems, Option.bind_eq_bind, Option.bind_eq_some_iff, Prod.exists] at h
    obtain ⟨item, behind, hitem, h⟩ := h
    have hproper := proper_of_readExpr hitem
    split at h
    next =>
      simp only [Option.bind_eq_some_iff, Option.pure_def, Option.some.injEq, Prod.exists,
        Prod.mk.injEq] at h
      obtain ⟨items, rest, hitems, rfl, rfl⟩ := h
      exact List.forall_mem_cons.2 ⟨hproper, proper_of_readItems hitems⟩
    next =>
      simp only [Option.pure_def, Option.some.injEq, Prod.mk.injEq] at h
      obtain ⟨rfl, rfl⟩ := h
      exact List.forall_mem_cons.2 ⟨hproper, List.forall_mem_nil _⟩
    next => cases h

end

/-! ## What is proper is read back -/

theorem follows_writeMore (rest : List Char) (es : List TypeExpr) : Follows (writeMore rest es) := by
  intro c hc
  cases es with
  | nil =>
    cases hc
    exact .inr rfl
  | cons e es =>
    cases hc
    exact .inl rfl

/-- Only an empty word can be written as nothing in front of a closing bracket. -/
theorem TypeExpr.Proper.head?_write {e : TypeExpr} (h : e.Proper) (hempty : e ≠ .word [])
    (rest : List Char) : (e.write rest).head? ≠ some ')' := by
  cases h with
  | @word head hhead =>
    cases head with
    | nil => exact absurd rfl hempty
    | cons c head =>
      intro hc
      cases hc
      exact absurd (hhead ')' List.mem_cons_self) (by decide)
  | @named kind => cases kind <;> exact nofun
  | @applied head args ending hhead =>
    cases head with
    | nil => exact nofun
    | cons c head =>
      intro hc
      cases hc
      exact absurd (hhead ')' List.mem_cons_self) (by decide)

theorem writeFirst_ne_close {es : List TypeExpr} (hes : ∀ e ∈ es, e.Proper) (hne : es ≠ [])
    (hempty : es ≠ [.word []]) (rest behind : List Char) : writeFirst rest es ≠ ')' :: behind := by
  cases es with
  | nil => exact absurd rfl hne
  | cons e es =>
    intro heq
    have hhead : (e.write (writeMore rest es)).head? = some ')' := congrArg List.head? heq
    by_cases hword : e = .word []
    · subst hword
      cases es with
      | nil => exact hempty rfl
      | cons e es => cases hhead
    · exact (List.forall_mem_cons.1 hes).1.head?_write hword _ hhead

-- A bracket or a comma pays for the three calls up to the next item, hence the factor; what the
-- budgets exceed it by is the number of calls from a list to its first item.
mutual

theorem readExpr_write (e : TypeExpr) (h : e.Proper) {rest : List Char} (hrest : Follows rest)
    {budget : Nat} (hbudget : 3 * (e.write rest).length < budget) :
    readExpr budget (e.write rest) = some (e, rest) := by
  obtain ⟨budget, rfl⟩ : ∃ left, budget = left + 1 := ⟨budget - 1, by omega⟩
  cases e with
  | word head =>
    cases h with
    | word hhead =>
      have hsplit := splitWord_plain_append hhead hrest.isDelimiter
      rw [TypeExpr.write, readExpr, hsplit]
      cases rest with
      | nil => rfl
      | cons c rest => rcases hrest c rfl with rfl | rfl <;> rfl
  | named kind name ending =>
    cases h with
    | named hname hending =>
      have hsplit := splitWord_append_open (plain_head kind) (name ++ ')' :: ending.write rest)
      have hclosed := splitClosed_balanced hname (ending.write rest)
      simp only [TypeExpr.write, List.length_append, List.length_cons] at hbudget
      have hending : readEnding budget (ending.write rest) = some (ending, rest) :=
        readEnding_write ending hending hrest (by omega)
      simp [TypeExpr.write, readExpr, hsplit, NamedKind.ofHead?_head, hclosed, hending]
  | applied head args ending =>
    cases h with
    | applied hhead hnamed hempty hargs hending =>
      have hsplit := splitWord_append_open hhead (writeFirst (ending.write rest) args)
      simp only [TypeExpr.write, List.length_append, List.length_cons] at hbudget
      have hlt := length_lt_writeFirst (ending.write rest) args
      have hargs : readList budget (writeFirst (ending.write rest) args) =
          some (args, ending.write rest) := readList_writeFirst args hargs hempty (by omega)
      have hending : readEnding budget (ending.write rest) = some (ending, rest) :=
        readEnding_write ending hending hrest (by omega)
      simp [TypeExpr.write, readExpr, hsplit, hnamed, hargs, hending]

theorem readEnding_write (ending : Ending) (h : ending.Proper) {rest : List Char}
    (hrest : Follows rest) {budget : Nat} (hbudget : 3 * (ending.write rest).length < budget) :
    readEnding budget (ending.write rest) = some (ending, rest) := by
  obtain ⟨budget, rfl⟩ : ∃ left, budget = left + 1 := ⟨budget - 1, by omega⟩
  cases ending with
  | tail text =>
    cases h with
    | tail htext hreturns =>
      have hdrop : dropWord? returnsWord (text ++ rest) = none :=
        dropWord?_eq_none_iff.2 fun h => hreturns
          (prefix_of_prefix_append plain_returnsWord htext hrest.isDelimiter h)
      rw [Ending.write, readEnding, hdrop, splitWord_plain_append htext hrest.isDelimiter]
  | returns types =>
    cases h with
    | returns hempty htypes =>
      have hdrop : dropWord? returnsWord (returnsWord ++ '(' :: writeFirst rest types) =
          some ('(' :: writeFirst rest types) := dropWord?_eq_some_iff.2 rfl
      simp only [Ending.write, List.length_append, List.length_cons] at hbudget
      have htypes : readList budget (writeFirst rest types) = some (types, rest) :=
        readList_writeFirst types htypes hempty (by omega)
      simp [Ending.write, readEnding, hdrop, htypes]

theorem readList_writeFirst (es : List TypeExpr) (hes : ∀ e ∈ es, e.Proper)
    (hempty : es ≠ [.word []]) {rest : List Char} {budget : Nat}
    (hbudget : 3 * (writeFirst rest es).length + 2 < budget) :
    readList budget (writeFirst rest es) = some (es, rest) := by
  obtain ⟨budget, rfl⟩ : ∃ left, budget = left + 1 := ⟨budget - 1, by omega⟩
  by_cases hne : es = []
  · rw [hne, writeFirst, readList]
  · rw [readList_of_ne_close (writeFirst_ne_close hes hne hempty rest)]
    exact readItems_writeFirst es hes hne (by omega)

theorem readItems_writeFirst (es : List TypeExpr) (hes : ∀ e ∈ es, e.Proper) (hne : es ≠ [])
    {rest : List Char} {budget : Nat} (hbudget : 3 * (writeFirst rest es).length + 1 < budget) :
    readItems budget (writeFirst rest es) = some (es, rest) := by
  obtain ⟨budget, rfl⟩ : ∃ left, budget = left + 1 := ⟨budget - 1, by omega⟩
  cases es with
  | nil => exact absurd rfl hne
  | cons e es =>
    rw [List.forall_mem_cons] at hes
    rw [writeFirst] at hbudget
    have hitem : readExpr budget (e.write (writeMore rest es)) = some (e, writeMore rest es) :=
      readExpr_write e hes.1 (follows_writeMore rest es) (by omega)
    rw [writeFirst, readItems, hitem]
    cases es with
    | nil => rfl
    | cons next es =>
      have hmore : writeMore rest (next :: es) = ',' :: writeFirst rest (next :: es) :=
        writeMore_of_ne_nil (List.cons_ne_nil _ _) rest
      rw [e.length_write, hmore, List.length_cons] at hbudget
      have hitems : readItems budget (writeFirst rest (next :: es)) = some (next :: es, rest) :=
        readItems_writeFirst (next :: es) hes.2 (List.cons_ne_nil _ _) (by omega)
      simp [hmore, hitems]

end

/-! ## Budgets -/

mutual

/-- Any budget that is large enough for a text gives the same. -/
theorem readExpr_budget {budget budget' : Nat} {text : List Char}
    (h : 3 * text.length < budget) (h' : 3 * text.length < budget') :
    readExpr budget text = readExpr budget' text := by
  match budget, budget', h, h' with
  | budget + 1, budget' + 1, h, h' =>
    have hlength := congrArg List.length (splitWord_append text)
    simp only [readExpr]
    split
    next rest hrest =>
      rw [hrest, List.length_append, List.length_cons] at hlength
      split
      next kind hkind =>
        refine Option.bind_congr fun (name, behind) hclosed => ?_
        have hclosed := congrArg List.length (append_of_splitClosed hclosed)
        rw [List.length_append, List.length_cons] at hclosed
        have hending : readEnding budget behind = readEnding budget' behind :=
          readEnding_budget (by omega) (by omega)
        simp only [hending]
      next hnamed =>
        have hlist : readList budget rest = readList budget' rest :=
          readList_budget (by omega) (by omega)
        rw [hlist]
        refine Option.bind_congr fun (args, behind) hargs => ?_
        have hargs := congrArg List.length (writeFirst_of_readList hargs)
        have hlt := length_lt_writeFirst behind args
        have hending : readEnding budget behind = readEnding budget' behind :=
          readEnding_budget (by omega) (by omega)
        simp only [hending]
    next => rfl

theorem readEnding_budget {budget budget' : Nat} {text : List Char}
    (h : 3 * text.length < budget) (h' : 3 * text.length < budget') :
    readEnding budget text = readEnding budget' text := by
  match budget, budget', h, h' with
  | budget + 1, budget' + 1, h, h' =>
    simp only [readEnding]
    split
    next rest hrest =>
      have hlength := congrArg List.length (dropWord?_eq_some_iff.1 hrest)
      rw [List.length_append, List.length_cons] at hlength
      have hlist : readList budget rest = readList budget' rest :=
        readList_budget (by omega) (by omega)
      rw [hlist]
    next => rfl
    next => rfl

theorem readList_budget {budget budget' : Nat} {text : List Char}
    (h : 3 * text.length + 2 < budget) (h' : 3 * text.length + 2 < budget') :
    readList budget text = readList budget' text := by
  match budget, budget', h, h' with
  | budget + 1, budget' + 1, h, h' =>
    by_cases hclose : ∃ rest, text = ')' :: rest
    · obtain ⟨rest, rfl⟩ := hclose
      rw [readList, readList]
    · rw [not_exists] at hclose
      rw [readList_of_ne_close hclose, readList_of_ne_close hclose]
      exact readItems_budget (by omega) (by omega)

theorem readItems_budget {budget budget' : Nat} {text : List Char}
    (h : 3 * text.length + 1 < budget) (h' : 3 * text.length + 1 < budget') :
    readItems budget text = readItems budget' text := by
  match budget, budget', h, h' with
  | budget + 1, budget' + 1, h, h' =>
    simp only [readItems]
    have hitem : readExpr budget text = readExpr budget' text :=
      readExpr_budget (by omega) (by omega)
    rw [hitem]
    refine Option.bind_congr fun (item, behind) hitem => ?_
    have hlength := congrArg List.length (write_of_readExpr hitem)
    rw [item.length_write] at hlength
    dsimp only
    split
    next behind =>
      rw [List.length_cons] at hlength
      have hitems : readItems budget behind = readItems budget' behind :=
        readItems_budget (by omega) (by omega)
      rw [hitems]
    next => rfl
    next => rfl

end

namespace TypeExpr

/-- An expression is read to the end of a text exactly if it is proper and written so. -/
theorem read?_eq_some_nil_iff {text : List Char} {e : TypeExpr} :
    read? text = some (e, []) ↔ e.Proper ∧ e.text = text := by
  constructor
  · intro h
    exact ⟨proper_of_readExpr h, write_of_read? h⟩
  · rintro ⟨hproper, rfl⟩
    exact readExpr_write e hproper follows_nil (Nat.lt_succ_self _)

end TypeExpr

end StorageUpgrade.Identifier
