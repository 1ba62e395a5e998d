import StorageUpgrade.Proofs.EscapeTokens
import StorageUpgrade.Proofs.PointerForms
import StorageUpgrade.Proofs.Skeletons
import StorageUpgrade.Proofs.ValueTypes

/-!
# Identifiers of structs, enums and contracts

The compiler writes the name of a declaration between the tokens of two brackets. The characters of
tokens are legal in names too, and nothing marks the name off from the tokens. A name without dollar
signs is read as it is written, unless it begins with an underscore: reading takes that for the
beginning of another token, finds none, and gives up at the bracket in front of the name. A name
with a dollar sign is never read as it is written.
-/

namespace StorageUpgrade

namespace Text

/-- Replacing goes on anew behind a character that the word does not have. -/
theorem replace_append_cons {old : List Char} (hold : old ≠ []) {c : Char} (hc : c ∉ old)
    (new left right : List Char) :
    replace old new (left ++ c :: right) = replace old new left ++ c :: replace old new right := by
  induction left using replace_induction hold with
  | nil =>
    have hfront : ¬ old <+: c :: right := by
      intro hfound
      obtain ⟨d, word, rfl⟩ := List.exists_cons_of_ne_nil hold
      exact hc (List.mem_cons.2 (.inl (List.cons_prefix_cons.1 hfound).1.symm))
    exact replace_cons new c right hfront
  | found rest ih =>
    rw [List.append_assoc, replace_append new _ hold, ih, replace_append new rest hold,
      List.append_assoc]
  | passed d rest hfront ih =>
    have hfront' : ¬ old <+: d :: rest ++ c :: right := by
      intro hfound
      rcases List.prefix_or_prefix_of_prefix hfound (List.prefix_append (d :: rest) _) with
        hword | ⟨back, hback⟩
      · exact hfront hword
      · rw [← hback, List.prefix_append_right_inj] at hfound
        cases back with
        | nil => exact hfront ⟨[], by rw [← hback, List.append_nil, List.append_nil]⟩
        | cons e back =>
          obtain ⟨rfl, -⟩ := List.cons_prefix_cons.1 hfound
          exact hc (hback ▸ List.mem_append_right _ List.mem_cons_self)
    rw [List.cons_append] at hfront' ⊢
    rw [replace_cons new d _ hfront', ih, replace_cons new d rest hfront, List.cons_append]

end Text

namespace Identifier

/-! ## Names of declarations -/

/-- Whether a character may stand in the name of a declaration. -/
def isNameChar (c : Char) : Bool := c.isAlphanum || c == '_' || c == '$'

/-- The name of a declaration, which does not begin with a digit. -/
structure IsDeclarationName (name : String) : Prop where
  nonempty : name ≠ ""
  start : name.toList.head?.any Char.isDigit = false
  legal : ∀ c ∈ name.toList, isNameChar c = true

instance (name : String) : Decidable (IsDeclarationName name) :=
  decidable_of_iff (name ≠ "" ∧ name.toList.head?.any Char.isDigit = false ∧
      name.toList.all isNameChar = true)
    ⟨fun h => ⟨h.1, h.2.1, List.all_eq_true.1 h.2.2⟩,
      fun h => ⟨h.nonempty, h.start, List.all_eq_true.2 h.legal⟩⟩

theorem not_isDelimiter_of_isNameChar {c : Char} (h : isNameChar c = true) :
    isDelimiter c = false := by
  rw [isNameChar, Bool.or_eq_true, Bool.or_eq_true, beq_iff_eq, beq_iff_eq] at h
  rcases h with (halphanum | rfl) | rfl
  · exact (ordinary_of_isAlphanum halphanum).1
  · decide
  · decide

theorem IsDeclarationName.plain {name : String} (h : IsDeclarationName name) :
    Plain name.toList :=
  fun c hc => not_isDelimiter_of_isNameChar (h.legal c hc)

/-! ## Identifiers -/

/-- The forms in which the compiler names the type of a declaration. A struct lies in storage, or a
pointer leads to it. -/
inductive NamedForm where
  | structReference
  | structPointer
  | enum
  | contract
  deriving DecidableEq, Repr

namespace NamedForm

def kind : NamedForm → NamedKind
  | structReference | structPointer => .struct
  | enum => .enum
  | contract => .contract

/-- What stands behind the number of the declaration. -/
def location : NamedForm → List Char
  | structReference => storageWord
  | structPointer => storagePointerWord
  | enum | contract => []

/-- What is left of it in a normalized identifier. -/
def foldedLocation : NamedForm → List Char
  | structReference | structPointer => storageWord
  | enum | contract => []

end NamedForm

/-- The decoded text of an identifier. -/
def namedText (kind : NamedKind) (name number location : List Char) : List Char :=
  kind.head ++ '(' :: (name ++ ')' :: (number ++ location))

/-- The identifier of a declared type, as the compiler writes it. -/
def namedId (form : NamedForm) (name : String) (number : Int) : String :=
  String.ofList form.kind.head ++ "$_" ++ name ++ "_$" ++ number.repr ++ String.ofList form.location

/-- The identifier of a declared type in normalized form. -/
def namedKey (form : NamedForm) (name : String) (number : Int) : String :=
  String.ofList form.kind.head ++ "(" ++ name ++ ")" ++ number.repr ++
    String.ofList form.foldedLocation

section

variable {form : NamedForm} {name : String} {number : Int}

theorem toList_namedId (form : NamedForm) (name : String) (number : Int) :
    (namedId form name number).toList = form.kind.head ++ '$' :: '_' :: (name.toList ++
      '_' :: '$' :: (number.repr.toList ++ form.location)) := by
  simp [namedId]

theorem toList_namedKey (form : NamedForm) (name : String) (number : Int) :
    (namedKey form name number).toList =
      namedText form.kind name.toList number.repr.toList form.foldedLocation := by
  simp [namedKey, namedText]

theorem plain_location (form : NamedForm) : Plain form.location :=
  plain_iff_all.2 (by cases form <;> decide)

theorem encode_namedText (h : IsDeclarationName name) (form : NamedForm) (number : Int) :
    Escape.encode (namedText form.kind name.toList number.repr.toList form.location) =
      (namedId form name number).toList := by
  have hhead := Escape.encode_eq_self (plain_head form.kind)
  have hname := Escape.encode_eq_self h.plain
  have hnumber := Escape.encode_eq_self (ordinary_repr number).plain
  have hlocation := Escape.encode_eq_self (plain_location form)
  rw [toList_namedId]
  simp [namedText, hhead, hname, hnumber, hlocation, Escape.token]

/-! ## Names that are read -/

/-- Text without delimiters and dollar signs runs into nothing, unless an opening bracket stands
behind an underscore at its end. -/
theorem separable_plain_append {left right : List Char} (hplain : Plain left)
    (hdollar : '$' ∉ left) (hright : Escape.Separable right)
    (hopen : left.getLast? = some '_' → right.head? ≠ some '(') :
    Escape.Separable (left ++ right) := by
  induction left with
  | nil => exact hright
  | cons c left ih =>
    obtain ⟨hc, hleft⟩ := plain_cons_iff.1 hplain
    rw [List.mem_cons, not_or] at hdollar
    have hlast : left.getLast? = some '_' → right.head? ≠ some '(' := by
      intro hlast
      apply hopen
      rw [List.getLast?_cons, hlast]
      rfl
    refine Escape.separable_cons.2 ⟨Ne.symm hdollar.1, fun d hd => ?_, ih hleft hdollar.2 hlast⟩
    by_cases hunderscore : c = '_'
    · rw [hunderscore, Escape.joins_underscore]
      rintro rfl
      cases left with
      | nil => exact hopen (congrArg some hunderscore) hd
      | cons e left =>
        cases hd
        exact absurd (hleft '(' List.mem_cons_self) (by decide)
    · exact Escape.joins_of_plain hc hunderscore d

theorem separable_namedText (h : IsDeclarationName name) (hdollar : '$' ∉ name.toList)
    (hstart : name.toList.head? ≠ some '_') (form : NamedForm) (number : Int) :
    Escape.Separable (namedText form.kind name.toList number.repr.toList form.location) := by
  have hlocation : Escape.Separable form.location := by
    have happend := separable_plain_append (plain_location form) (by cases form <;> decide)
      Escape.separable_nil fun _ => nofun
    rwa [List.append_nil] at happend
  have hclosed := separable_close_repr number hlocation
  have hname := separable_plain_append h.plain hdollar hclosed fun _ => by simp
  have hne : name.toList ≠ [] := fun hnil => h.nonempty (String.toList_inj.1 hnil)
  have hopened := separable_open_append hne hstart hname
  exact separable_plain_append (plain_head form.kind) (by cases form <;> decide) hopened
    (absurd · (by cases form <;> decide))

/-- Nothing but a pointer in the name and behind the number is changed by normalizing. -/
theorem normalize_namedId (h : IsDeclarationName name) (hdollar : '$' ∉ name.toList)
    (hstart : name.toList.head? ≠ some '_') (form : NamedForm) (number : Int) :
    normalize (namedId form name number) = .ok (String.ofList (namedText form.kind
      (Text.replace storagePointerWord storageWord name.toList) number.repr.toList
        form.foldedLocation)) := by
  have hseparable := separable_namedText h hdollar hstart form number
  have hdecode := Escape.decode_encode_eq_ok_iff.2 hseparable
  rw [encode_namedText h] at hdecode
  have hdelimiter : ∀ {c : Char}, isDelimiter c = true → c ∉ storagePointerWord := by
    intro c hc hmem
    have hplain : Plain storagePointerWord := plain_iff_all.2 (by decide)
    rw [hplain c hmem] at hc
    cases hc
  have hhead : Text.replace storagePointerWord storageWord form.kind.head = form.kind.head := by
    cases form <;> decide
  have hnumber : ∀ c ∈ storagePointerWord.head?, c ∉ number.repr.toList := by
    rintro c ⟨⟩ hmem
    exact (ordinary_repr number '_' hmem).2.1 rfl
  have hlocation : Text.replace storagePointerWord storageWord form.location =
      form.foldedLocation := by
    cases form <;> decide
  refine normalize_eq_ok_iff.2 ⟨_, hdecode, ?_⟩
  rw [String.toList_ofList, namedText, namedText,
    Text.replace_append_cons storagePointerWord_ne_nil (hdelimiter rfl),
    Text.replace_append_cons storagePointerWord_ne_nil (hdelimiter rfl),
    Text.replace_append_of_notMem storagePointerWord_ne_nil hnumber, hhead, hlocation]

/-- What is read of the identifier of a declared type. -/
def namedExpr (form : NamedForm) (name : String) (number : Int) : TypeExpr :=
  .named form.kind (Text.replace storagePointerWord storageWord name.toList)
    (.tail (number.repr.toList ++ form.foldedLocation))

theorem proper_namedExpr (h : IsDeclarationName name) (form : NamedForm) (number : Int) :
    (namedExpr form name number).Proper := by
  have hname : Plain (Text.replace storagePointerWord storageWord name.toList) := by
    intro c hc
    rcases Text.mem_of_mem_replaceFrom hc with hword | hmem
    · exact plain_iff_all.2 (by decide : storageWord.all (!isDelimiter ·) = true) c hword
    · exact h.plain c hmem
  have hlocation : Plain form.foldedLocation := plain_iff_all.2 (by cases form <;> decide)
  refine .named hname.balanced (.tail ?_ ?_)
  · intro c hc
    rcases List.mem_append.1 hc with hnumber | hword
    · exact (ordinary_repr number).plain c hnumber
    · exact hlocation c hword
  · intro hreturns
    have hmem : 'u' ∈ number.repr.toList ++ form.foldedLocation := hreturns.subset (by decide)
    rcases List.mem_append.1 hmem with hnumber | hword
    · rcases isDigit_or_eq_minus_of_mem_repr hnumber with hdigit | hminus
      · exact absurd hdigit (by decide)
      · cases hminus
    · exact absurd hword (by cases form <;> decide)

theorem text_namedExpr (form : NamedForm) (name : String) (number : Int) :
    (namedExpr form name number).text = namedText form.kind
      (Text.replace storagePointerWord storageWord name.toList) number.repr.toList
        form.foldedLocation := by
  simp [namedExpr, namedText, TypeExpr.text, TypeExpr.write, Ending.write]

theorem parse_namedId_of_not_underscore (h : IsDeclarationName name) (hdollar : '$' ∉ name.toList)
    (hstart : name.toList.head? ≠ some '_') (form : NamedForm) (number : Int) :
    parse (namedId form name number) = .ok (namedExpr form name number) := by
  apply (parse_eq_ok_iff_proper (normalize_namedId h hdollar hstart form number)).2
  exact ⟨proper_namedExpr h form number, congrArg String.ofList (text_namedExpr form name number)⟩

theorem id_namedExpr (hpointer : ¬ storagePointerWord <:+: name.toList) (form : NamedForm)
    (number : Int) : (namedExpr form name number).id = namedKey form name number := by
  rw [TypeExpr.id, ← String.toList_inj, String.toList_ofList, toList_namedKey, text_namedExpr,
    Text.replace_eq_self storageWord hpointer]

/-! ## Names that are not read -/

/-- The underscore that a name begins with belongs to no token. -/
theorem not_tiled_of_underscore {rest : List Char} (hhead : name.toList.head? = some '_')
    (hdollar : '$' ∉ name.toList) :
    Escape.tiled ('$' :: '_' :: (name.toList ++ '_' :: '$' :: rest)) = false := by
  obtain ⟨behind, hname⟩ := List.head?_eq_some_iff.1 hhead
  rw [hname, List.mem_cons, not_or] at hdollar
  rw [hname, Escape.tiled, List.cons_append]
  cases behind with
  | nil => rfl
  | cons c behind =>
    have hc : c ≠ '$' := fun hc => hdollar.2 (hc ▸ List.mem_cons_self)
    simp [Escape.tiled, hc]

theorem parse_namedId_of_underscore (hdollar : '$' ∉ name.toList)
    (hstart : name.toList.head? = some '_') (form : NamedForm) (number : Int) :
    parse (namedId form name number) =
      .error (.malformedEscape (namedId form name number) form.kind.head.length) := by
  have hhead : '$' ∉ form.kind.head ∧ form.kind.head.getLast? ≠ some '_' ∧
      0 + String.utf8Len form.kind.head = form.kind.head.length := by
    cases form <;> decide
  obtain ⟨hhead, hlast, hlength⟩ := hhead
  have hdecode : Escape.decode (namedId form name number).toList =
      .error form.kind.head.length := by
    rw [toList_namedId, Escape.decode, Escape.decodeFrom_append_of_dollar_not_mem hhead
      (absurd · hlast), hlength, Escape.decodeFrom_of_not_tiled (.inl rfl)
        (not_tiled_of_underscore hstart hdollar)]
    rfl
  unfold parse normalize mapDecoded
  rw [hdecode]
  rfl

/-- Reading leaves no dollar sign, so a name with one is not among what is read. -/
theorem id_ne_namedKey (hdollar : '$' ∈ name.toList) {raw : String} {expr : TypeExpr}
    (h : parse raw = .ok expr) (form : NamedForm) (number : Int) :
    expr.id ≠ namedKey form name number := by
  intro hid
  apply dollar_not_mem_of_normalize (normalize_of_parse h)
  rw [hid, toList_namedKey]
  exact List.mem_append_right _ (List.mem_cons_of_mem _ (List.mem_append_left _ hdollar))

end

/-- A name without dollar signs that does not begin with an underscore is read, as that of a type of
its kind without parts, and stands in the identifier as it is if it mentions no pointer. A name that
begins with an underscore, and has no dollar sign, makes the identifier one that cannot be decoded.
A name with a dollar sign never stands in an identifier that is read. -/
theorem parse_namedId {name : String} (h : IsDeclarationName name) (form : NamedForm)
    (number : Int) :
    ('$' ∉ name.toList → name.toList.head? ≠ some '_' →
      ∃ expr, parse (namedId form name number) = .ok expr ∧
        expr.head = String.ofList form.kind.head ∧ expr.args? = none ∧ expr.rets? = none ∧
        (¬ "_storage_ptr".toList <:+: name.toList → expr.id = namedKey form name number)) ∧
    ('$' ∉ name.toList → name.toList.head? = some '_' →
      parse (namedId form name number) =
        .error (.malformedEscape (namedId form name number) form.kind.head.length)) ∧
    ('$' ∈ name.toList → ∀ expr, parse (namedId form name number) = .ok expr →
      expr.id ≠ namedKey form name number) := by
  refine ⟨fun hdollar hstart => ?_, fun hdollar hstart => ?_, fun hdollar expr hparse => ?_⟩
  · have hparse := parse_namedId_of_not_underscore h hdollar hstart form number
    exact ⟨_, hparse, rfl, rfl, rfl, fun hpointer => id_namedExpr hpointer form number⟩
  · exact parse_namedId_of_underscore hdollar hstart form number
  · exact id_ne_namedKey hdollar hparse form number

/-- Names with an underscore at the end, with one at the front, and with a dollar sign that is taken
for the beginning of a bracket. -/
theorem parse_namedId_points :
    IsDeclarationName "Point_" ∧ IsDeclarationName "_Point" ∧ IsDeclarationName "P_$_Q" ∧
      (∃ expr, parse "t_struct$_Point__$3_storage_ptr" = .ok expr ∧
        expr.id = "t_struct(Point_)3_storage") ∧
      parse "t_contract$__Point_$3" = .error (.malformedEscape "t_contract$__Point_$3" 10) ∧
      ∀ expr, parse "t_enum$_P_$_Q_$3" = .ok expr → expr.id ≠ "t_enum(P_$_Q)3" := by
  have hbehind : IsDeclarationName "Point_" := by decide +kernel
  have hbefore : IsDeclarationName "_Point" := by decide +kernel
  have hwithin : IsDeclarationName "P_$_Q" := by decide +kernel
  obtain ⟨expr, hparse, -, -, -, hid⟩ := (parse_namedId hbehind .structPointer 3).1
    (by decide +kernel) (by decide +kernel)
  have herror := (parse_namedId hbefore .contract 3).2.1 (by decide +kernel) (by decide +kernel)
  have hother := (parse_namedId hwithin .enum 3).2.2 (by decide +kernel)
  exact ⟨hbehind, hbefore, hwithin, ⟨expr, hparse, hid (by decide +kernel)⟩, herror, hother⟩

/-- Not every name that a declaration may have can be read from the identifier of its type. -/
theorem not_reads_every_name :
    ¬ ∀ (form : NamedForm) (name : String) (number : Int), IsDeclarationName name →
      ∃ expr, parse (namedId form name number) = .ok expr ∧
        expr.head = String.ofList form.kind.head ∧ expr.args? = none ∧ expr.rets? = none ∧
        (¬ "_storage_ptr".toList <:+: name.toList → expr.id = namedKey form name number) := by
  intro h
  obtain ⟨expr, hparse, -⟩ := h .structReference "_Point" 3 (by decide +kernel)
  have herror : parse (namedId .structReference "_Point" 3) = .error _ :=
    parse_namedId_of_underscore (by decide +kernel) (by decide +kernel) .structReference 3
  rw [hparse] at herror
  cases herror

end Identifier

end StorageUpgrade
