import Mathlib.Logic.Relation
import StorageUpgrade.Proofs.Normalization
import StorageUpgrade.Proofs.ProperExpressions

/-!
# The grammar of type identifiers

The texts that are written of proper expressions are the words of a grammar that does not speak of
expressions. An identifier has a structure exactly if its normalized form is such a word, and then
every expression in it is spelled as its head, its arguments and its results say. Where reading
fails, either nothing can be read or a word has been read and text is left.
-/

namespace StorageUpgrade.Identifier

/-! ## Words of the grammar -/

mutual

/-- Texts that a type identifier may consist of. -/
inductive IsWord : List Char → Prop
  | plain {head : List Char} (hhead : Plain head) : IsWord head
  | named (kind : NamedKind) {name ending : List Char} (hname : Balanced name)
      (hending : IsEnding ending) : IsWord (kind.head ++ '(' :: (name ++ ')' :: ending))
  | applied {head ending : List Char} {args : List (List Char)} (hhead : Plain head)
      (hnamed : ∀ kind : NamedKind, head ≠ kind.head) (hargs : ∀ arg ∈ args, IsWord arg)
      (hending : IsEnding ending) :
      IsWord (head ++ '(' :: ([','].intercalate args ++ ')' :: ending))

/-- Texts that may follow the brackets of an identifier. -/
inductive IsEnding : List Char → Prop
  | tail {text : List Char} (htext : Plain text) (hreturns : ¬ returnsWord <+: text) :
      IsEnding text
  | returns {types : List (List Char)} (htypes : ∀ type ∈ types, IsWord type) :
      IsEnding (returnsWord ++ '(' :: ([','].intercalate types ++ [')']))

end

/-! ## Lists of expressions -/

theorem TypeExpr.write_eq_text_append (e : TypeExpr) (rest : List Char) :
    e.write rest = e.text ++ rest := by
  rw [text, e.write_append, List.nil_append]

theorem writeFirst_eq_intercalate (es : List TypeExpr) (rest : List Char) :
    writeFirst rest es = [','].intercalate (es.map TypeExpr.text) ++ ')' :: rest := by
  induction es with
  | nil => rfl
  | cons e es ih =>
    rw [writeFirst, e.write_eq_text_append]
    cases es with
    | nil => simp [writeMore]
    | cons next es =>
      rw [writeMore_of_ne_nil (List.cons_ne_nil _ _), ih]
      simp [List.intercalate_cons_cons]

/-- Texts that expressions are written as can be written as a list that is not taken for another. -/
theorem exists_list_of_forall_exists {types : List (List Char)}
    (h : ∀ type ∈ types, ∃ e : TypeExpr, e.Proper ∧ e.text = type) :
    ∃ es : List TypeExpr, es ≠ [.word []] ∧ (∀ e ∈ es, e.Proper) ∧
      [','].intercalate (es.map TypeExpr.text) = [','].intercalate types := by
  obtain ⟨es, hes, hmap⟩ : ∃ es : List TypeExpr, (∀ e ∈ es, e.Proper) ∧
      es.map TypeExpr.text = types := by
    induction types with
    | nil => exact ⟨[], List.forall_mem_nil _, rfl⟩
    | cons type types ih =>
      rw [List.forall_mem_cons] at h
      obtain ⟨e, he, rfl⟩ := h.1
      obtain ⟨es, hes, rfl⟩ := ih h.2
      exact ⟨e :: es, List.forall_mem_cons.2 ⟨he, hes⟩, rfl⟩
  -- An empty word alone is written as the empty list is, and that is how it is read.
  by_cases hempty : es = [.word []]
  · refine ⟨[], (List.cons_ne_nil _ _).symm, List.forall_mem_nil _, ?_⟩
    rw [← hmap, hempty]
    rfl
  · exact ⟨es, hempty, hes, by rw [hmap]⟩

/-! ## Words and expressions -/

mutual

theorem TypeExpr.Proper.isWord {e : TypeExpr} (h : e.Proper) : IsWord e.text := by
  cases h with
  | word hhead =>
    rw [TypeExpr.text, TypeExpr.write, List.append_nil]
    exact .plain hhead
  | @named kind name ending hname hending =>
    have hword := IsWord.named kind hname hending.isEnding
    simpa [TypeExpr.text, TypeExpr.write] using hword
  | @applied head args ending hhead hnamed hempty hargs hending =>
    have htexts : ∀ text ∈ args.map TypeExpr.text, IsWord text :=
      List.forall_mem_map.2 fun arg harg => (hargs arg harg).isWord
    have hword := IsWord.applied hhead (NamedKind.ofHead?_eq_none_iff.1 hnamed) htexts
      hending.isEnding
    rwa [TypeExpr.text, TypeExpr.write, writeFirst_eq_intercalate]

theorem Ending.Proper.isEnding {ending : Ending} (h : ending.Proper) :
    IsEnding (ending.write []) := by
  cases h with
  | tail htext hreturns =>
    rw [Ending.write, List.append_nil]
    exact .tail htext hreturns
  | @returns types hempty htypes =>
    rw [Ending.write, writeFirst_eq_intercalate]
    exact .returns (List.forall_mem_map.2 fun type htype => (htypes type htype).isWord)

end

mutual

theorem IsWord.exists_proper {text : List Char} (h : IsWord text) :
    ∃ e : TypeExpr, e.Proper ∧ e.text = text := by
  match h with
  | @IsWord.plain head hhead =>
    exact ⟨.word head, .word hhead, by rw [TypeExpr.text, TypeExpr.write, List.append_nil]⟩
  | @IsWord.named kind name _ hname hending =>
    obtain ⟨read, hread, rfl⟩ := hending.exists_proper
    exact ⟨.named kind name read, .named hname hread, by simp [TypeExpr.text, TypeExpr.write]⟩
  | @IsWord.applied head _ _ hhead hnamed hargs hending =>
    obtain ⟨read, hread, rfl⟩ := hending.exists_proper
    obtain ⟨es, hempty, hes, hlist⟩ :=
      exists_list_of_forall_exists fun arg harg => (hargs arg harg).exists_proper
    refine ⟨.applied head es read,
      .applied hhead (NamedKind.ofHead?_eq_none_iff.2 hnamed) hempty hes hread, ?_⟩
    rw [TypeExpr.text, TypeExpr.write, writeFirst_eq_intercalate, hlist]
termination_by structural h

theorem IsEnding.exists_proper {text : List Char} (h : IsEnding text) :
    ∃ ending : Ending, ending.Proper ∧ ending.write [] = text := by
  match h with
  | .tail htext hreturns =>
    exact ⟨.tail text, .tail htext hreturns, by rw [Ending.write, List.append_nil]⟩
  | .returns htypes =>
    obtain ⟨es, hempty, hes, hlist⟩ :=
      exists_list_of_forall_exists fun type htype => (htypes type htype).exists_proper
    refine ⟨.returns es, .returns hempty hes, ?_⟩
    rw [Ending.write, writeFirst_eq_intercalate, hlist]
termination_by structural h

end

theorem isWord_iff_exists_proper {text : List Char} :
    IsWord text ↔ ∃ e : TypeExpr, e.Proper ∧ e.text = text := by
  constructor
  · exact IsWord.exists_proper
  · rintro ⟨e, he, rfl⟩
    exact he.isWord

/-! ## How expressions are spelled -/

theorem Ending.Proper.of_mem {ending : Ending} {part : TypeExpr} (h : ending.Proper)
    (hpart : part ∈ ending.types?.getD []) : part.Proper := by
  cases h with
  | tail => cases hpart
  | returns _ htypes => exact htypes part hpart

namespace TypeExpr

/-- What stands in the brackets of an expression: the name of a declaration if it is headed by the
word of a named kind, else the identifiers of its arguments. -/
inductive Encloses (e : TypeExpr) : String → Prop
  | name {name : String} (hnamed : e.isNamed = true) (hargs : e.args? = none)
      (hname : Balanced name.toList) : Encloses e name
  | args {args : List TypeExpr} (hnamed : e.isNamed = false) (hargs : e.args? = some args) :
      Encloses e (",".intercalate (args.map id))

/-- What stands behind the brackets of an expression. -/
inductive EndsIn (e : TypeExpr) : String → Prop
  | tail {text : String} (hrets : e.rets? = none) (htext : Plain text.toList)
      (hreturns : ¬ returnsWord <+: text.toList) : EndsIn e text
  | returns {types : List TypeExpr} (hrets : e.rets? = some types) :
      EndsIn e ("returns(" ++ ",".intercalate (types.map id) ++ ")")

/-- Whether the identifier of an expression is made of its head, its arguments and its results. -/
inductive Spelled (e : TypeExpr) : Prop
  | word (hid : e.id = e.head) (hargs : e.args? = none) (hrets : e.rets? = none)
  | brackets {inside ending : String} (hinside : e.Encloses inside) (hending : e.EndsIn ending)
      (hid : e.id = e.head ++ "(" ++ inside ++ ")" ++ ending)

/-- An expression and the ones within it, at any depth. -/
def Contains : TypeExpr → TypeExpr → Prop :=
  Relation.ReflTransGen fun outer inner => inner ∈ outer.parts

theorem ofList_intercalate_text (es : List TypeExpr) :
    String.ofList ([','].intercalate (es.map text)) = ",".intercalate (es.map id) := by
  rw [← String.toList_inj, String.toList_ofList, String.toList_intercalate, List.map_map]
  congr 2
  funext e
  exact String.toList_ofList.symm

theorem endsIn_of_proper {e : TypeExpr} {ending : Ending} (h : ending.Proper)
    (hrets : e.rets? = ending.types?) : e.EndsIn (String.ofList (ending.write [])) := by
  cases h with
  | @tail text htext hreturns =>
    rw [Ending.write, List.append_nil]
    exact .tail hrets (by rwa [String.toList_ofList]) (by rwa [String.toList_ofList])
  | @returns types =>
    have htext : String.ofList ((Ending.returns types).write []) =
        "returns(" ++ ",".intercalate (types.map id) ++ ")" := by
      have hfront : "returns(".toList = returnsWord ++ ['('] := by decide
      rw [Ending.write, writeFirst_eq_intercalate, ← ofList_intercalate_text, ← String.toList_inj]
      simp [hfront]
    rw [htext]
    exact .returns hrets

theorem Proper.spelled {e : TypeExpr} (h : e.Proper) : e.Spelled := by
  cases h with
  | word hhead =>
    refine .word ?_ rfl rfl
    rw [id, text, write, List.append_nil]
    rfl
  | @named kind name ending hname hending =>
    have hinside : (TypeExpr.named kind name ending).Encloses (String.ofList name) :=
      .name (by rw [isNamed, headText, NamedKind.ofHead?_head]; rfl) rfl
        (by rwa [String.toList_ofList])
    refine .brackets hinside (endsIn_of_proper hending rfl) ?_
    rw [← String.toList_inj]
    simp [id, text, write, head, headText]
  | @applied head args ending hhead hnamed hempty hargs hending =>
    have hinside : (TypeExpr.applied head args ending).Encloses (",".intercalate (args.map id)) :=
      .args (by rw [isNamed, headText, hnamed]; rfl) rfl
    refine .brackets hinside (endsIn_of_proper hending rfl) ?_
    rw [← ofList_intercalate_text, ← String.toList_inj]
    simp [id, text, write, TypeExpr.head, headText, writeFirst_eq_intercalate]

theorem Proper.of_mem_parts {e part : TypeExpr} (h : e.Proper) (hpart : part ∈ e.parts) :
    part.Proper := by
  cases h with
  | word => cases hpart
  | named _ hending => exact hending.of_mem hpart
  | applied _ _ _ hargs hending =>
    rcases List.mem_append.1 hpart with harg | hret
    · exact hargs part harg
    · exact hending.of_mem hret

theorem Proper.of_contains {e node : TypeExpr} (h : e.Proper) (hnode : e.Contains node) :
    node.Proper := by
  induction hnode with
  | refl => exact h
  | tail _ hpart ih => exact ih.of_mem_parts hpart

end TypeExpr

/-! ## Parsing -/

section

variable {raw text : String}

/-- The structure of an identifier is the proper expression that is written as its normalized
form. -/
theorem parse_eq_ok_iff_proper (h : normalize raw = .ok text) {e : TypeExpr} :
    parse raw = .ok e ↔ e.Proper ∧ e.id = text := by
  rw [parse_eq_ok_iff, TypeExpr.id, ← String.toList_inj, String.toList_ofList,
    ← TypeExpr.read?_eq_some_nil_iff]
  constructor
  · rintro ⟨_, hnormalize, hread⟩
    rw [h] at hnormalize
    cases hnormalize
    exact hread
  · exact fun hread => ⟨text, h, hread⟩

theorem proper_of_parse {e : TypeExpr} (h : parse raw = .ok e) : e.Proper :=
  ((parse_eq_ok_iff_proper (normalize_of_parse h)).1 h).1

theorem exists_parse_iff_isWord (h : normalize raw = .ok text) :
    (∃ e, parse raw = .ok e) ↔ IsWord text.toList := by
  simp only [parse_eq_ok_iff_proper h, isWord_iff_exists_proper]
  refine exists_congr fun e => and_congr_right fun _ => ?_
  rw [TypeExpr.id, ← String.toList_inj, String.toList_ofList]

theorem parse_error_cases (h : normalize raw = .ok text) {error : Error}
    (herror : parse raw = .error error) : error = .unbalancedParentheses text ∨
      ∃ front trailing, front ++ trailing = text ∧ IsWord front.toList ∧ trailing ≠ "" ∧
        error = .trailingInput text trailing := by
  unfold parse at herror
  rw [h, ok_bind] at herror
  split at herror
  next =>
    cases herror
    exact .inl rfl
  next => cases herror
  next e trailing hne hread =>
    cases herror
    have hwrite := TypeExpr.write_of_read? hread
    rw [e.write_eq_text_append] at hwrite
    have hproper : e.Proper := proper_of_readExpr hread
    refine .inr ⟨e.id, String.ofList trailing, ?_, ?_, ?_, rfl⟩
    · rw [TypeExpr.id, ← String.ofList_append, hwrite, String.ofList_toList]
    · rw [TypeExpr.id, String.toList_ofList]
      exact hproper.isWord
    · intro hempty
      exact hne (by simpa using congrArg String.toList hempty)

end

/-- An identifier has a structure exactly if its normalized form is a word of the grammar. Its own
identifier is then the normalized form, and every expression in it is made of its head, its
arguments and its results. Otherwise nothing can be read of it, or a word of the grammar with text
behind it. No budget beyond the one that is given for the text would change what is read. -/
theorem parse_reads_grammar {raw text : String} (h : normalize raw = .ok text) :
    ((∃ e, parse raw = .ok e) ↔ IsWord text.toList) ∧
    (∀ e, parse raw = .ok e → e.id = text ∧ ∀ node, e.Contains node → node.Spelled) ∧
    (∀ error, parse raw = .error error → error = .unbalancedParentheses text ∨
      ∃ front trailing, front ++ trailing = text ∧ IsWord front.toList ∧ trailing ≠ "" ∧
        error = .trailingInput text trailing) ∧
    ∀ budget, 3 * text.length < budget →
      readExpr budget text.toList = TypeExpr.read? text.toList := by
  refine ⟨exists_parse_iff_isWord h, fun e he => ?_, fun _ => parse_error_cases h,
    fun budget hbudget => ?_⟩
  · obtain ⟨hproper, hid⟩ := (parse_eq_ok_iff_proper h).1 he
    exact ⟨hid, fun node hnode => (hproper.of_contains hnode).spelled⟩
  · rw [← String.length_toList] at hbudget
    exact readExpr_budget hbudget (Nat.lt_succ_self _)

theorem parse_reads_grammar_nested :
    normalize "f$_é_$_g$__$__$_$returns$_t_enum$_x(y)_$7_$" =
      .ok "f(é,g(,))returns(t_enum(x(y))7)" ∧
    IsWord "f(é,g(,))returns(t_enum(x(y))7)".toList := by
  have h : normalize "f$_é_$_g$__$__$_$returns$_t_enum$_x(y)_$7_$" =
      .ok "f(é,g(,))returns(t_enum(x(y))7)" := by decide
  have hparse : (parse "f$_é_$_g$__$__$_$returns$_t_enum$_x(y)_$7_$").map TypeExpr.id =
      .ok "f(é,g(,))returns(t_enum(x(y))7)" := by decide +kernel
  obtain ⟨e, he, -⟩ := map_eq_ok_iff.1 hparse
  exact ⟨h, (parse_reads_grammar h).1.1 ⟨e, he⟩⟩

end StorageUpgrade.Identifier
