import StorageUpgrade.Proofs.MarkedReferences

/-!
# Matching brackets

A closing bracket belongs to the opening one in front of it if every bracket between the two has a
partner there. It belongs to one opening bracket at most, and to none if no bracket is open where it
stands. The marks of a text are set with a stack of the brackets that are open; a character is
marked exactly if, in this sense, it closes a reference to a struct, an enum or a contract.
-/

namespace StorageUpgrade.Identifier

variable {text left right : List Char}

/-! ## Balanced text -/

namespace Balanced

theorem append (hleft : Balanced left) (hright : Balanced right) : Balanced (left ++ right) := by
  induction hleft with
  | nil => exact hright
  | cons hopen hclose _ ih => exact .cons hopen hclose ih
  | brackets hinner _ _ ih =>
    rw [List.append_assoc, List.cons_append]
    exact .brackets hinner ih

theorem singleton {c : Char} (hopen : c ≠ '(') (hclose : c ≠ ')') : Balanced [c] :=
  .cons hopen hclose .nil

theorem enclosed (h : Balanced text) : Balanced ('(' :: text ++ [')']) :=
  .brackets h .nil

theorem count_eq (h : Balanced text) : text.count '(' = text.count ')' := by
  induction h with
  | nil => rfl
  | cons hopen hclose _ ih => simpa [hopen, hclose] using ih
  | brackets _ _ ihInner ihRest =>
    simp [ihInner, ihRest]
    omega

end Balanced

/-! ## Open brackets -/

/-- Text at the end of which no bracket is open: from every point on, no more brackets are opened
than closed. -/
def NoneOpen (text : List Char) : Prop :=
  ∀ back, back <:+ text → back.count '(' ≤ back.count ')'

namespace NoneOpen

theorem nil : NoneOpen [] := by
  intro back hback
  rw [List.suffix_nil.1 hback]
  exact Nat.le_refl 0

theorem append (hleft : NoneOpen left) (hright : NoneOpen right) : NoneOpen (left ++ right) := by
  intro back hback
  rcases List.suffix_or_suffix_of_suffix hback (List.suffix_append left right) with h | ⟨front, rfl⟩
  · exact hright back h
  · have hfront := hleft front ((List.suffix_append_self_iff).1 hback)
    have hback := hright right List.suffix_rfl
    rw [List.count_append, List.count_append]
    omega

theorem closing : NoneOpen [')'] := by
  intro back hback
  rcases List.suffix_cons_iff.1 hback with rfl | h
  · decide
  · exact nil back h

end NoneOpen

theorem Balanced.noneOpen (h : Balanced text) : NoneOpen text := by
  induction h with
  | nil => exact .nil
  | @cons c rest hopen hclose hrest ih =>
    intro back hback
    rcases List.suffix_cons_iff.1 hback with rfl | h
    · exact Nat.le_of_eq (Balanced.cons hopen hclose hrest).count_eq
    · exact ih back h
  | @brackets inner rest hinner hrest ihInner ihRest =>
    intro back hback
    rcases List.suffix_cons_iff.1 hback with rfl | h
    · exact Nat.le_of_eq (Balanced.brackets hinner hrest).count_eq
    · exact ihInner.append (NoneOpen.closing.append ihRest) back h

/-- No bracket in front of balanced text is open behind an opening bracket. -/
theorem not_noneOpen_open (h : Balanced right) : ¬ NoneOpen (left ++ '(' :: right) := by
  intro hnone
  have hcount := hnone ('(' :: right) (List.suffix_append left _)
  have heq := h.count_eq
  simp at hcount
  omega

theorem eq_nil_of_open_eq {inner inner' between : List Char} (hinner : Balanced inner)
    (hinner' : Balanced inner') (h : '(' :: inner = between ++ '(' :: inner') : between = [] := by
  cases between with
  | nil => rfl
  | cons c between =>
    obtain ⟨-, rfl⟩ := List.cons.inj h
    exact absurd hinner.noneOpen (not_noneOpen_open hinner')

/-- A closing bracket belongs to one opening bracket at most. -/
theorem eq_of_append_open {inner inner' : List Char} (hinner : Balanced inner)
    (hinner' : Balanced inner') (h : left ++ '(' :: inner = right ++ '(' :: inner') :
    left = right := by
  rcases List.append_eq_append_iff.1 h with ⟨between, rfl, hback⟩ | ⟨between, rfl, hback⟩
  · rw [eq_nil_of_open_eq hinner hinner' hback, List.append_nil]
  · rw [eq_nil_of_open_eq hinner' hinner hback, List.append_nil]

namespace Stable

/-- The brackets that are open at the end of a text, the innermost first, each with whether it opens
a reference. -/
inductive LeavesOpen : List Char → List Bool → Prop
  | none {text : List Char} (h : NoneOpen text) : LeavesOpen text []
  | opening {before inner : List Char} {opened : List Bool} (h : LeavesOpen before opened)
      (hinner : Balanced inner) :
      LeavesOpen (before ++ '(' :: inner) (opensReference before.reverse :: opened)

namespace LeavesOpen

variable {opened : List Bool}

theorem append_balanced (h : LeavesOpen text opened) (hright : Balanced right) :
    LeavesOpen (text ++ right) opened := by
  cases h with
  | none h => exact .none (h.append hright.noneOpen)
  | opening h hinner =>
    rw [List.append_assoc, List.cons_append]
    exact .opening h (hinner.append hright)

theorem append_open (h : LeavesOpen text opened) :
    LeavesOpen (text ++ ['(']) (opensReference text.reverse :: opened) :=
  .opening h .nil

theorem append_close (h : LeavesOpen text opened) : LeavesOpen (text ++ [')']) opened.tail := by
  cases h with
  | none h => exact .none (h.append .closing)
  | opening h hinner =>
    rw [List.append_assoc, List.cons_append]
    exact h.append_balanced hinner.enclosed

end LeavesOpen

/-! ## References -/

/-- Text that ends with a reference, from the word of a named kind to the bracket that closes the
name. -/
def EndsReference (text : List Char) : Prop :=
  ∃ front kind name, Balanced name ∧ text = front ++ NamedKind.head kind ++ '(' :: name ++ [')']

theorem not_endsReference_append_singleton {c : Char} (hc : c ≠ ')') :
    ¬ EndsReference (text ++ [c]) := by
  rintro ⟨front, kind, name, -, heq⟩
  obtain ⟨-, heq⟩ := List.append_inj' heq rfl
  exact hc (List.singleton_inj.1 heq)

theorem opensReference_reverse_iff :
    opensReference text.reverse = true ↔ ∃ kind : NamedKind, kind.head <:+ text := by
  simp [opensReference, NamedKind.mem_all]

/-- What the stack says of a closing bracket is whether it closes a reference. -/
theorem LeavesOpen.endsReference_iff {opened : List Bool} (h : LeavesOpen text opened) :
    EndsReference (text ++ [')']) ↔ opened.headD false = true := by
  cases h with
  | none h =>
    refine iff_of_false ?_ Bool.false_ne_true
    rintro ⟨front, kind, name, hname, heq⟩
    rw [List.append_left_inj] at heq
    exact not_noneOpen_open hname (heq ▸ h)
  | @opening before inner opened h hinner =>
    rw [List.headD_cons, opensReference_reverse_iff]
    constructor
    · rintro ⟨front, kind, name, hname, heq⟩
      rw [List.append_left_inj] at heq
      exact ⟨kind, front, (eq_of_append_open hinner hname heq).symm⟩
    · rintro ⟨kind, front, rfl⟩
      exact ⟨front, kind, inner, hinner, rfl⟩

/-- Whether all marks behind `passed` are where references close, and every such place is marked. -/
def MarksReferences (passed : List Char) (marked : List (Char × Bool)) : Prop :=
  ∀ front p back, marked = front ++ p :: back →
    (p.2 = true ↔ EndsReference (passed ++ front.map Prod.fst ++ [p.1]))

theorem forall_append_cons_iff {α : Type} {P : List α → α → List α → Prop} {a : α} {as : List α} :
    (∀ front b back, a :: as = front ++ b :: back → P front b back) ↔
      P [] a as ∧ ∀ front b back, as = front ++ b :: back → P (a :: front) b back := by
  constructor
  · intro h
    exact ⟨h [] a as rfl, fun front b back heq => h (a :: front) b back (congrArg _ heq)⟩
  · rintro ⟨hfirst, hrest⟩ front b back heq
    cases front with
    | nil =>
      cases heq
      exact hfirst
    | cons first front =>
      obtain ⟨rfl, has⟩ := List.cons.inj heq
      exact hrest front b back has

theorem marksReferences_cons_iff {passed : List Char} {c : Char} {closes : Bool}
    {marked : List (Char × Bool)} : MarksReferences passed ((c, closes) :: marked) ↔
      (closes = true ↔ EndsReference (passed ++ [c])) ∧ MarksReferences (passed ++ [c]) marked := by
  unfold MarksReferences
  rw [forall_append_cons_iff]
  simp

theorem marksReferences_markFrom {opened : List Bool} {before : List Char}
    (h : LeavesOpen before.reverse opened) :
    MarksReferences before.reverse (markFrom opened before text) := by
  fun_induction markFrom opened before text with
  | case1 => exact fun front p back heq => by cases front <;> cases heq
  | case2 opened before rest ih =>
    have hopen := h.append_open
    rw [List.reverse_reverse, ← List.reverse_cons] at hopen
    refine marksReferences_cons_iff.2 ⟨?_, List.reverse_cons ▸ ih hopen⟩
    exact iff_of_false Bool.false_ne_true (not_endsReference_append_singleton (by decide))
  | case3 opened before rest ih =>
    have hclose := h.append_close
    rw [← List.reverse_cons] at hclose
    exact marksReferences_cons_iff.2 ⟨h.endsReference_iff.symm, List.reverse_cons ▸ ih hclose⟩
  | case4 opened before c rest hopen hclose ih =>
    have hplain := h.append_balanced (.singleton hopen hclose)
    rw [← List.reverse_cons] at hplain
    refine marksReferences_cons_iff.2 ⟨?_, List.reverse_cons ▸ ih hplain⟩
    exact iff_of_false Bool.false_ne_true (not_endsReference_append_singleton hclose)

/-- A character is marked exactly if it closes a reference. -/
theorem marksReferences_mark (text : List Char) : MarksReferences [] (mark text) := by
  have hnil : LeavesOpen (List.reverse []) [] := .none .nil
  exact marksReferences_markFrom hnil

theorem eq_close_of_mem_mark {p : Char × Bool} (h : p ∈ mark text) (hp : p.2 = true) :
    p.1 = ')' := by
  obtain ⟨front, back, hmarked⟩ := List.append_of_mem h
  have hends := (marksReferences_mark text front p back hmarked).1 hp
  exact Decidable.not_not.1 fun hne => not_endsReference_append_singleton hne hends

theorem endsReference_iff_getLast? :
    EndsReference text ↔ (mark text).getLast?.any Prod.snd = true := by
  have hmark := map_fst_mark text
  cases hlast : (mark text).getLast? with
  | none =>
    rw [List.getLast?_eq_none_iff.1 hlast] at hmark
    subst hmark
    simp [EndsReference]
  | some last =>
    obtain ⟨front, heq⟩ := List.getLast?_eq_some_iff.1 hlast
    have hiff := marksReferences_mark text front last [] heq
    rw [heq, List.map_append] at hmark
    rw [Option.any_some, hiff, List.nil_append, ← hmark]
    rfl

instance : DecidablePred EndsReference :=
  fun _ => decidable_of_iff _ endsReference_iff_getLast?.symm

example : EndsReference "a)t_enum(b(c))".toList := by decide

example : ¬ EndsReference "t_enum(b))".toList := by decide

end Stable

end StorageUpgrade.Identifier
