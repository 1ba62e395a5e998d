import Mathlib.Tactic.Push
import StorageUpgrade.Proofs.Expansion

/-!
# Outlines of types

The outline of a type is the word that it begins with and the numbers of its arguments and results,
and so on for the types that these are. It is the same notion for the structure of an identifier and
for a type written out from a dictionary, where what the dictionary adds is left out. Two outlines
are compared place by place, along the paths that lead from a type to an argument or a result.
-/

namespace StorageUpgrade

variable {α β : Type}

/-- What a type is made of, as far as its identifier says. -/
structure Level (α : Type) where
  head : String
  args : Option (List α)
  rets : Option (List α)

/-- The way from a type to one of its arguments or results. -/
inductive Step where
  | arg (index : Nat)
  | ret (index : Nat)
  deriving DecidableEq, Repr

/-- A head, and how many arguments and results there are, where there are lists of them. -/
structure Outline where
  head : String
  argCount : Option Nat
  retCount : Option Nat
  deriving DecidableEq, Repr

namespace Level

def map (f : α → β) (level : Level α) : Level β where
  head := level.head
  args := level.args.map (List.map f)
  rets := level.rets.map (List.map f)

def part? (level : Level α) : Step → Option α
  | .arg index => level.args.bind (·[index]?)
  | .ret index => level.rets.bind (·[index]?)

def outline (level : Level α) : Outline where
  head := level.head
  argCount := level.args.map List.length
  retCount := level.rets.map List.length

@[simp]
theorem outline_map (f : α → β) (level : Level α) : (level.map f).outline = level.outline := by
  simp [outline, map, Function.comp_def]

@[simp]
theorem part?_map (f : α → β) (level : Level α) (step : Step) :
    (level.map f).part? step = (level.part? step).map f := by
  obtain ⟨head, args, rets⟩ := level
  cases step with
  | arg => cases args <;> simp [part?, map]
  | ret => cases rets <;> simp [part?, map]

theorem getElem?_eq_none_congr {xs? : Option (List α)} {ys? : Option (List β)}
    (h : xs?.map List.length = ys?.map List.length) (index : Nat) :
    xs?.bind (·[index]?) = none ↔ ys?.bind (·[index]?) = none := by
  cases xs? with
  | none => cases ys? <;> simp_all
  | some xs => cases ys? <;> simp_all

/-- Lists that are there together and have equal items are equal. -/
theorem lists_eq_of_items {xs? ys? : Option (List α)}
    (hlength : xs?.map List.length = ys?.map List.length)
    (h : ∀ (index : Nat) x y, xs?.bind (·[index]?) = some x → ys?.bind (·[index]?) = some y →
      x = y) : xs? = ys? := by
  cases xs? with
  | none => cases ys? <;> simp_all
  | some xs =>
    cases ys? with
    | none => simp at hlength
    | some ys =>
      simp only [Option.map_some, Option.some.injEq, Option.bind_some] at hlength h ⊢
      refine List.ext_getElem hlength fun index hx hy => ?_
      exact h index _ _ (List.getElem?_eq_getElem hx) (List.getElem?_eq_getElem hy)

theorem mem_of_getElem?_eq_some {xs? : Option (List α)} {index : Nat} {x : α}
    (h : xs?.bind (·[index]?) = some x) : x ∈ xs?.getD [] := by
  obtain ⟨xs, rfl, hx⟩ := Option.bind_eq_some_iff.1 h
  exact List.mem_of_getElem? hx

/-- Which places there are is said by the outline. -/
theorem part?_eq_none_congr {level : Level α} {level' : Level β}
    (h : level.outline = level'.outline) (step : Step) :
    level.part? step = none ↔ level'.part? step = none := by
  cases step with
  | arg index => exact getElem?_eq_none_congr (congrArg Outline.argCount h) index
  | ret index => exact getElem?_eq_none_congr (congrArg Outline.retCount h) index

end Level

/-! ## Places in a type -/

/-- The type at the end of a path, if the path leads anywhere. -/
def follow? (level : α → Level α) : List Step → α → Option α
  | [], x => some x
  | step :: path, x => ((level x).part? step).bind (follow? level path)

def outlineAt? (level : α → Level α) (path : List Step) (x : α) : Option Outline :=
  (follow? level path x).map fun found => (level found).outline

/-- What a relation has to say about one level for related types to have the same outline. -/
structure RespectsOutlines (level : α → Level α) (level' : β → Level β) (related : α → β → Prop) :
    Prop where
  outline_eq {x : α} {y : β} (h : related x y) : (level x).outline = (level' y).outline
  part {x : α} {y : β} {step : Step} {part : α} {part' : β} (h : related x y)
    (hpart : (level x).part? step = some part) (hpart' : (level' y).part? step = some part') :
    related part part'

/-- Related types have the same outline at every place. -/
theorem RespectsOutlines.outlineAt?_eq {level : α → Level α} {level' : β → Level β}
    {related : α → β → Prop} (hrespects : RespectsOutlines level level' related) {x : α} {y : β}
    (h : related x y) (path : List Step) :
    outlineAt? level path x = outlineAt? level' path y := by
  induction path generalizing x y with
  | nil => simp [outlineAt?, follow?, hrespects.outline_eq h]
  | cons step path ih =>
    have hnone := Level.part?_eq_none_congr (hrespects.outline_eq h) step
    simp only [outlineAt?, follow?] at ih ⊢
    cases hpart : (level x).part? step with
    | none => simp [hnone.1 hpart]
    | some part =>
      obtain ⟨part', hpart'⟩ := Option.ne_none_iff_exists'.1 (mt hnone.2 (by simp [hpart]))
      simpa [hpart'] using ih (hrespects.part h hpart hpart')

/-! ## Outlines of identifiers and of types written out -/

namespace Identifier.TypeExpr

def level (e : TypeExpr) : Level TypeExpr where
  head := e.head
  args := e.args?
  rets := e.rets?

/-- Structures with the same heads and the same numbers of arguments and results throughout. -/
def SameOutline (e e' : TypeExpr) : Prop :=
  ∀ path, outlineAt? level path e = outlineAt? level path e'

end Identifier.TypeExpr

def TypeNode.level {ref : Type} (node : TypeNode ref) : Level ref where
  head := node.head
  args := node.args
  rets := node.rets

theorem TypeNode.level_map (f : α → β) (node : TypeNode α) :
    (node.map f).level = node.level.map f :=
  rfl

namespace TypeShape

def level : TypeShape → Level TypeShape
  | node head _ args rets _ => ⟨head, args, rets⟩

def label : TypeShape → String
  | node _ label _ _ _ => label

def members : TypeShape → Option (Members TypeShape)
  | node _ _ _ _ members => members

/-- Types with the same heads and the same numbers of arguments and results throughout. -/
def SameOutline (shape shape' : TypeShape) : Prop :=
  ∀ path, outlineAt? level path shape = outlineAt? level path shape'

theorem level_shape (node : TypeNode TypeShape) : node.shape.level = node.level :=
  rfl

theorem sameOutline_part {shape shape' part part' : TypeShape} {step : Step}
    (h : shape.SameOutline shape') (hpart : shape.level.part? step = some part)
    (hpart' : shape'.level.part? step = some part') : part.SameOutline part' := by
  intro path
  simpa [outlineAt?, follow?, hpart, hpart'] using h (step :: path)

theorem sizeOf_lt_of_mem {part : TypeShape} {parts? : Option (List TypeShape)}
    (h : part ∈ parts?.getD []) : sizeOf part < sizeOf parts? := by
  cases parts? with
  | none => cases h
  | some parts =>
    have hlt := List.sizeOf_lt_of_mem h
    rw [Option.getD_some] at hlt
    rw [Option.some.sizeOf_spec]
    omega

theorem sizeOf_part_lt {shape part : TypeShape} {step : Step}
    (h : shape.level.part? step = some part) : sizeOf part < sizeOf shape := by
  obtain ⟨head, label, args, rets, members⟩ := shape
  rw [node.sizeOf_spec]
  cases step with
  | arg index =>
    have hlt : sizeOf part < sizeOf args := sizeOf_lt_of_mem (Level.mem_of_getElem?_eq_some h)
    omega
  | ret index =>
    have hlt : sizeOf part < sizeOf rets := sizeOf_lt_of_mem (Level.mem_of_getElem?_eq_some h)
    omega

/-- A type is given by its outline and the labels and members at all places. -/
theorem eq_of_sameOutline (shape shape' : TypeShape) (h : shape.SameOutline shape')
    (hplaces : ∀ path found found', follow? level path shape = some found →
      follow? level path shape' = some found' →
        found.label = found'.label ∧ found.members = found'.members) : shape = shape' := by
  have houtline : shape.level.outline = shape'.level.outline := Option.some.inj (h [])
  have hroot := hplaces [] shape shape' rfl rfl
  have hparts : ∀ step part part', shape.level.part? step = some part →
      shape'.level.part? step = some part' → part = part' := by
    intro step part part' hpart hpart'
    have hlt := sizeOf_part_lt hpart
    refine eq_of_sameOutline part part' (sameOutline_part h hpart hpart')
      fun path found found' hfound hfound' => hplaces (step :: path) found found' ?_ ?_
    · simp [follow?, hpart, hfound]
    · simp [follow?, hpart', hfound']
  obtain ⟨head, label, args, rets, members⟩ := shape
  obtain ⟨head', label', args', rets', members'⟩ := shape'
  have hargs : args = args' :=
    Level.lists_eq_of_items (congrArg Outline.argCount houtline) fun index => hparts (.arg index)
  have hrets : rets = rets' :=
    Level.lists_eq_of_items (congrArg Outline.retCount houtline) fun index => hparts (.ret index)
  obtain rfl : head = head' := congrArg Outline.head houtline
  obtain ⟨rfl, rfl⟩ : label = label' ∧ members = members' := hroot
  rw [hargs, hrets]
termination_by sizeOf shape

/-- Two types with the same outline that differ have other labels or members at some place. -/
theorem SameOutline.exists_difference {shape shape' : TypeShape} (h : shape.SameOutline shape')
    (hne : shape ≠ shape') :
    ∃ path found found', follow? level path shape = some found ∧
      follow? level path shape' = some found' ∧
        (found.label ≠ found'.label ∨ found.members ≠ found'.members) := by
  by_contra hnone
  push Not at hnone
  exact hne (eq_of_sameOutline shape shape' h hnone)

end TypeShape

/-! ## Outlines and references -/

/-- The arguments and results of a type are those that it refers to, written out. -/
theorem Layout.HasShape.exists_node {layout : Layout} {id : String} {shape : TypeShape}
    (h : layout.HasShape id shape) :
    ∃ node, layout.describe id = .ok node ∧ shape.level.outline = node.level.outline ∧
      ∀ step part, shape.level.part? step = some part →
        ∃ partId, node.level.part? step = some partId ∧ layout.HasShape partId part := by
  obtain ⟨levels, h⟩ := h
  cases levels with
  | zero => cases h
  | succ levels =>
    obtain ⟨node, parts, hnode, hparts, rfl⟩ := expandWithin_succ_eq_some_iff.1 h
    have hlevel := congrArg TypeNode.level hparts
    rw [TypeNode.level_map, TypeNode.level_map] at hlevel
    rw [TypeShape.level_shape]
    refine ⟨node, Layout.node?_eq_some_iff.1 hnode, ?_, fun step part hpart => ?_⟩
    · simpa using (congrArg Level.outline hlevel).symm
    · have hstep := congrArg (Level.part? · step) hlevel
      simp only [Level.part?_map, hpart, Option.map_some] at hstep
      obtain ⟨partId, hpartId, hexpand⟩ := Option.map_eq_some_iff.1 hstep
      exact ⟨partId, hpartId, levels, hexpand⟩

end StorageUpgrade
