import StorageUpgrade.Identifier.TypeExpr

/-!
# Reading type expressions

An expression is read from the front of a text, as far as it goes. Where a bracket is missing or
one is closed that cannot be, nothing is read. Every call spends one unit of `budget`, so a text
of `n` characters needs no more than `3 * n + 1`: with every third call in a row a bracket or a
comma is passed.
-/

namespace StorageUpgrade.Identifier

/-- Whether a character ends a word. -/
def isDelimiter (c : Char) : Bool :=
  c = '(' || c = ')' || c = ','

/-- The text up to the next delimiter, and the text from there. -/
def splitWord (text : List Char) : List Char × List Char :=
  (text.takeWhile (!isDelimiter ·), text.dropWhile (!isDelimiter ·))

theorem splitWord_append (text : List Char) : (splitWord text).1 ++ (splitWord text).2 = text :=
  List.takeWhile_append_dropWhile

theorem not_isDelimiter_of_mem_splitWord {text : List Char} {c : Char}
    (h : c ∈ (splitWord text).1) : isDelimiter c = false := by
  simpa using List.all_eq_true.1 List.all_takeWhile c h

def dropWord? : List Char → List Char → Option (List Char)
  | [], text => some text
  | c :: word, d :: text => if c = d then dropWord? word text else none
  | _ :: _, [] => none

theorem dropWord?_eq_some_iff {word text rest : List Char} :
    dropWord? word text = some rest ↔ text = word ++ rest := by
  fun_induction dropWord? word text <;> grind

/-- The text up to the bracket that closes an open one, and the text behind that bracket. `depth`
counts the brackets opened since. -/
def splitClosed (depth : Nat) : List Char → Option (List Char × List Char)
  | [] => none
  | '(' :: rest => (splitClosed (depth + 1) rest).map fun (name, rest) => ('(' :: name, rest)
  | ')' :: rest =>
    match depth with
    | 0 => some ([], rest)
    | depth + 1 => (splitClosed depth rest).map fun (name, rest) => (')' :: name, rest)
  | c :: rest => (splitClosed depth rest).map fun (name, rest) => (c :: name, rest)

/-- The bracket between the two parts is all that is left out. -/
theorem append_of_splitClosed {depth : Nat} {text name rest : List Char}
    (h : splitClosed depth text = some (name, rest)) : name ++ ')' :: rest = text := by
  fun_induction splitClosed depth text generalizing name rest with
  | case1 => simp at h
  | case3 => simp_all
  | case2 depth text ih | case4 text depth ih | case5 depth c text _ _ ih =>
    obtain ⟨⟨name, rest⟩, hs, h⟩ := Option.map_eq_some_iff.1 h
    cases h
    simp [ih hs]

mutual

/-- Reads an expression, and gives the text behind it. -/
def readExpr : Nat → List Char → Option (TypeExpr × List Char)
  | 0, _ => none
  | budget + 1, text =>
    let (head, rest) := splitWord text
    match rest with
    | '(' :: rest =>
      match NamedKind.ofHead? head with
      | some kind => do
        let (name, rest) ← splitClosed 0 rest
        let (ending, rest) ← readEnding budget rest
        return (.named kind name ending, rest)
      | none => do
        let (args, rest) ← readList budget rest
        let (ending, rest) ← readEnding budget rest
        return (.applied head args ending, rest)
    | _ => some (.word head, rest)

def readEnding : Nat → List Char → Option (Ending × List Char)
  | 0, _ => none
  | budget + 1, text =>
    match dropWord? returnsWord text with
    | some ('(' :: rest) => do
      let (types, rest) ← readList budget rest
      return (.returns types, rest)
    | some _ => none
    | none => let (tail, rest) := splitWord text
      some (.tail tail, rest)

/-- Reads a list of expressions up to and with its closing bracket, behind the opening one. -/
def readList : Nat → List Char → Option (List TypeExpr × List Char)
  | 0, _ => none
  | _ + 1, ')' :: rest => some ([], rest)
  | budget + 1, text => readItems budget text

def readItems : Nat → List Char → Option (List TypeExpr × List Char)
  | 0, _ => none
  | budget + 1, text => do
    let (item, rest) ← readExpr budget text
    match rest with
    | ',' :: rest => do
      let (items, rest) ← readItems budget rest
      return (item :: items, rest)
    | ')' :: rest => return ([item], rest)
    | _ => none

end

mutual

/-- What is read, written in front of the rest, is the text. -/
theorem write_of_readExpr {budget : Nat} {text rest : List Char} {e : TypeExpr}
    (h : readExpr budget text = some (e, rest)) : e.write rest = text := by
  match budget with
  | 0 => simp [readExpr] at h
  | budget + 1 =>
    have hword := splitWord_append text
    simp only [readExpr] at h
    split at h
    next open_ hrest =>
      rw [hrest] at hword
      split at h
      next kind hkind =>
        simp only [Option.bind_eq_bind, Option.bind_eq_some_iff, Option.pure_def,
          Option.some.injEq, Prod.exists, Prod.mk.injEq] at h
        obtain ⟨name, behind, hclosed, ending, rest, hending, rfl, rfl⟩ := h
        rw [TypeExpr.write, write_of_readEnding hending, NamedKind.head_of_ofHead? hkind,
          List.append_assoc, List.cons_append, append_of_splitClosed hclosed, hword]
      next hkind =>
        simp only [Option.bind_eq_bind, Option.bind_eq_some_iff, Option.pure_def,
          Option.some.injEq, Prod.exists, Prod.mk.injEq] at h
        obtain ⟨args, behind, hargs, ending, rest, hending, rfl, rfl⟩ := h
        rw [TypeExpr.write, write_of_readEnding hending, writeFirst_of_readList hargs, hword]
    next =>
      simp only [Option.some.injEq, Prod.mk.injEq] at h
      obtain ⟨rfl, rfl⟩ := h
      exact hword

theorem write_of_readEnding {budget : Nat} {text rest : List Char} {ending : Ending}
    (h : readEnding budget text = some (ending, rest)) : ending.write rest = text := by
  match budget with
  | 0 => simp [readEnding] at h
  | budget + 1 =>
    simp only [readEnding] at h
    split at h
    next behind hreturns =>
      simp only [Option.bind_eq_bind, Option.bind_eq_some_iff, Option.pure_def,
        Option.some.injEq, Prod.exists, Prod.mk.injEq] at h
      obtain ⟨types, rest, htypes, rfl, rfl⟩ := h
      rw [Ending.write, writeFirst_of_readList htypes, dropWord?_eq_some_iff.1 hreturns]
    next => cases h
    next =>
      simp only [Option.some.injEq, Prod.mk.injEq] at h
      obtain ⟨rfl, rfl⟩ := h
      exact splitWord_append text

theorem writeFirst_of_readList {budget : Nat} {text rest : List Char} {es : List TypeExpr}
    (h : readList budget text = some (es, rest)) : writeFirst rest es = text := by
  match budget with
  | 0 => simp [readList] at h
  | budget + 1 =>
    unfold readList at h
    split at h
    next heq => cases heq
    next =>
      simp only [Option.some.injEq, Prod.mk.injEq] at h
      obtain ⟨rfl, rfl⟩ := h
      rfl
    next heq _ =>
      cases heq
      exact (writeFirst_of_readItems h).2

theorem writeFirst_of_readItems {budget : Nat} {text rest : List Char} {es : List TypeExpr}
    (h : readItems budget text = some (es, rest)) : es ≠ [] ∧ writeFirst rest es = text := by
  match budget with
  | 0 => simp [readItems] at h
  | budget + 1 =>
    simp only [readItems, Option.bind_eq_bind, Option.bind_eq_some_iff, Prod.exists] at h
    obtain ⟨item, behind, hitem, h⟩ := h
    have hwrite := write_of_readExpr hitem
    split at h
    next behind =>
      simp only [Option.bind_eq_some_iff, Option.pure_def, Option.some.injEq, Prod.exists,
        Prod.mk.injEq] at h
      obtain ⟨items, rest, hitems, rfl, rfl⟩ := h
      obtain ⟨hne, hitems⟩ := writeFirst_of_readItems hitems
      refine ⟨by simp, ?_⟩
      rw [writeFirst, writeMore_of_ne_nil hne, hitems, hwrite]
    next =>
      simp only [Option.pure_def, Option.some.injEq, Prod.mk.injEq] at h
      obtain ⟨rfl, rfl⟩ := h
      exact ⟨by simp, hwrite⟩
    next => cases h

end

def TypeExpr.read? (text : List Char) : Option (TypeExpr × List Char) :=
  readExpr (3 * text.length + 1) text

theorem TypeExpr.write_of_read? {text rest : List Char} {e : TypeExpr}
    (h : TypeExpr.read? text = some (e, rest)) : e.write rest = text :=
  write_of_readExpr h

end StorageUpgrade.Identifier
