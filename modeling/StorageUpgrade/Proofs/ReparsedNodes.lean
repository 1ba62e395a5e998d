import StorageUpgrade.Proofs.FoldedPointers
import StorageUpgrade.Proofs.TypeGrammar

/-!
# Reading the nodes of an expression again

Of the arguments and results in an identifier only their identifiers are kept, and they are read
again without the text that they stood in. What is written of an expression is part of what is
written of the one around it, and a proper expression is all that can be read of what is written of
it; so the same node is found, as long as normalizing the text a second time changes nothing.
-/

namespace StorageUpgrade.Identifier

/-! ## Parts are written within the whole -/

theorem suffix_append_cons {α : Type} (front : List α) (x : α) (rest : List α) :
    rest <:+ front ++ x :: rest :=
  (List.suffix_cons x rest).trans (List.suffix_append front _)

theorem text_infix_writeFirst {part : TypeExpr} {es : List TypeExpr} (h : part ∈ es)
    (rest : List Char) : part.text <:+: writeFirst rest es := by
  induction es with
  | nil => cases h
  | cons e es ih =>
    rw [writeFirst, e.write_eq_text_append]
    rcases List.mem_cons.1 h with rfl | h
    · exact (List.prefix_append _ _).isInfix
    · rw [writeMore_of_ne_nil (List.ne_nil_of_mem h)]
      exact (ih h).trans (suffix_append_cons e.text ',' _).isInfix

theorem Ending.text_infix_write {part : TypeExpr} {ending : Ending}
    (h : part ∈ ending.types?.getD []) (rest : List Char) : part.text <:+: ending.write rest := by
  cases ending with
  | tail => cases h
  | returns types =>
    have hpart : part.text <:+: writeFirst rest types := text_infix_writeFirst h rest
    exact hpart.trans (suffix_append_cons returnsWord '(' _).isInfix

theorem suffix_writeFirst (es : List TypeExpr) (rest : List Char) :
    rest <:+ writeFirst rest es := by
  rw [writeFirst_eq_intercalate]
  exact suffix_append_cons _ ')' rest

namespace TypeExpr

theorem text_infix_of_mem_parts {e part : TypeExpr} (h : part ∈ e.parts) :
    part.text <:+: e.text := by
  cases e with
  | word => cases h
  | named kind name ending =>
    have hpart : part.text <:+: ending.write [] := Ending.text_infix_write h []
    exact hpart.trans (suffix_append_cons (kind.head ++ '(' :: name) ')' _).isInfix
  | applied head args ending =>
    have hlist := suffix_append_cons head '(' (writeFirst (ending.write []) args)
    rcases List.mem_append.1 h with harg | hret
    · exact (text_infix_writeFirst harg _).trans hlist.isInfix
    · have hending : part.text <:+: ending.write [] := Ending.text_infix_write hret []
      exact (hending.trans (suffix_writeFirst args _).isInfix).trans hlist.isInfix

theorem text_infix_of_contains {e node : TypeExpr} (h : e.Contains node) :
    node.text <:+: e.text := by
  induction h with
  | refl => exact List.infix_rfl
  | tail _ hpart ih => exact (text_infix_of_mem_parts hpart).trans ih

theorem length_id (e : TypeExpr) : e.id.length = e.text.length := by
  rw [id, String.length_ofList]

end TypeExpr

/-! ## Nodes are read again -/

theorem parse_id_of_infix {raw text : String} {node : TypeExpr} (h : normalize raw = .ok text)
    (hpointer : ¬ storagePointerWord <:+: text.toList) (hproper : node.Proper)
    (hwithin : node.id.toList <:+: text.toList) : parse node.id = .ok node := by
  have hescape : '$' ∉ node.id.toList := fun hmem =>
    dollar_not_mem_of_normalize h (hwithin.subset hmem)
  have hnormalize : normalize node.id = .ok node.id :=
    normalize_eq_self hescape fun hword => hpointer (hword.trans hwithin)
  exact (parse_eq_ok_iff_proper hnormalize).2 ⟨hproper, rfl⟩

theorem not_infix_normalize {raw decoded text : String} (hdecode : decode raw = .ok decoded)
    (h : normalize raw = .ok text)
    (hdoubled : ¬ "_storage_ptr_ptr".toList <:+: decoded.toList) :
    ¬ storagePointerWord <:+: text.toList := by
  obtain ⟨chars, hchars, hreplace⟩ := normalize_eq_ok_iff.1 h
  rw [decode_eq_ok_iff_toList, hchars] at hdecode
  cases hdecode
  have hword : "_storage_ptr_ptr".toList = storagePointerWord ++ pointerEnding := by decide
  rw [← hreplace]
  exact fun hpointer => hdoubled (hword ▸ doubled_of_infix_replace hpointer)

/-- The identifier of every node of a structure is part of the normalized identifier, and those of
its parts are shorter. If the normalized identifier names no pointer into storage, which can only
happen where the ending of a pointer was doubled, then each node is what is read of its own
identifier. -/
theorem parse_id_of_contains {raw : String} {e : TypeExpr} (h : parse raw = .ok e) :
    ∃ decoded text, decode raw = .ok decoded ∧ normalize raw = .ok text ∧
      (¬ "_storage_ptr_ptr".toList <:+: decoded.toList →
        ¬ storagePointerWord <:+: text.toList) ∧
      ∀ node, e.Contains node →
        (¬ storagePointerWord <:+: text.toList → parse node.id = .ok node) ∧
        node.id.toList <:+: text.toList ∧
        ∀ part ∈ node.parts, part.id.length < node.id.length := by
  have hnormalize := normalize_of_parse h
  obtain ⟨chars, hchars, -⟩ := normalize_eq_ok_iff.1 hnormalize
  have hdecode : decode raw = .ok (String.ofList chars) :=
    decode_eq_ok_iff_toList.2 (by rw [hchars, String.toList_ofList])
  refine ⟨_, e.id, hdecode, hnormalize, not_infix_normalize hdecode hnormalize,
    fun node hnode => ?_⟩
  have hwithin : node.id.toList <:+: e.id.toList := by
    simpa [TypeExpr.id] using TypeExpr.text_infix_of_contains hnode
  refine ⟨fun hpointer => ?_, hwithin, fun part hpart => ?_⟩
  · exact parse_id_of_infix hnormalize hpointer ((proper_of_parse h).of_contains hnode) hwithin
  · rw [part.length_id, node.length_id]
    exact TypeExpr.length_text_of_mem_parts hpart

theorem parse_id_of_contains_nested : ∃ e,
    parse "f$_t_enum$_x(y)_$7_storage_ptr_$returns$_g$__$__$_$" = .ok e ∧
    ∀ node, e.Contains node → parse node.id = .ok node := by
  have hparse : (parse "f$_t_enum$_x(y)_$7_storage_ptr_$returns$_g$__$__$_$").map TypeExpr.id =
      .ok "f(t_enum(x(y))7_storage)returns(g(,))" := by decide +kernel
  obtain ⟨e, he, hid⟩ := map_eq_ok_iff.1 hparse
  obtain ⟨decoded, text, -, hnormalize, -, hnodes⟩ := parse_id_of_contains he
  obtain rfl : e.id = text := Except.ok.inj ((normalize_of_parse he).symm.trans hnormalize)
  have hpointer : ¬ storagePointerWord <:+: e.id.toList := by
    rw [hid]
    decide
  exact ⟨e, he, fun node hnode => (hnodes node hnode).1 hpointer⟩

end StorageUpgrade.Identifier
