import Mathlib.Data.List.Basic
import StorageUpgrade.Proofs.NestedTypeNames

/-!
# Type names in pre-order

A type name comes before what it is made of, and all that an earlier child is made of before a later
child. One can say so by recursion through the lists of parameters in a function, by a loop over a
stack, and by the places where type names stand. The type names within a type name are listed in
this order, whichever way it is said. Equal type names may stand at several places, and are then
listed as many times.
-/

namespace StorageUpgrade.Source

/-! ## Recursion -/

mutual

/-- The type names within a type name, itself first, by recursion on how it is written. -/
def TypeName.preorder : TypeName → List TypeName
  | .elementary descriptions => [.elementary descriptions]
  | .userDefined declaration descriptions => [.userDefined declaration descriptions]
  | .array base descriptions => .array base descriptions :: base.preorder
  | .mapping key value descriptions =>
    .mapping key value descriptions :: (key.preorder ++ value.preorder)
  | .function parameters returns descriptions =>
    .function parameters returns descriptions ::
      (variablesPreorder parameters ++ variablesPreorder returns)

def Variable.preorder : Variable → List TypeName
  | { typeName := none, .. } => []
  | { typeName := some name, .. } => name.preorder

def variablesPreorder : List Variable → List TypeName
  | [] => []
  | v :: vs => v.preorder ++ variablesPreorder vs

end

theorem variablesPreorder_eq (vs : List Variable) :
    variablesPreorder vs = (vs.filterMap (·.typeName)).flatMap TypeName.preorder := by
  induction vs with
  | nil => rfl
  | cons v vs ih =>
    obtain ⟨id, label, constant, mutability, src, typeName, descriptions⟩ := v
    cases typeName <;> simp [variablesPreorder, Variable.preorder, ih]

namespace TypeName

theorem preorder_eq (name : TypeName) : name.preorder = name :: name.children.flatMap preorder := by
  cases name with
  | elementary => rfl
  | userDefined => rfl
  | array base => simp [preorder, children]
  | mapping key value => simp [preorder, children]
  | function parameters returns =>
    rw [preorder, variablesPreorder_eq, variablesPreorder_eq, children, List.filterMap_append,
      List.flatMap_append]

/-- Whatever is pending, it is listed in pre-order, one type name after the other. -/
theorem listFrom_eq (pending : List TypeName) : listFrom pending = pending.flatMap preorder := by
  fun_induction listFrom pending with
  | case1 => rfl
  | case2 name pending ih =>
    rw [ih, List.flatMap_append, List.flatMap_cons, preorder_eq name, List.cons_append]

theorem descendants_eq_preorder (name : TypeName) : name.descendants = name.preorder := by
  rw [descendants, listFrom_eq, List.flatMap_cons, List.flatMap_nil, List.append_nil]

theorem descendants_eq (name : TypeName) :
    name.descendants = name :: name.children.flatMap descendants := by
  rw [funext descendants_eq_preorder, preorder_eq name]

example (owner amount amounts balances : TypeDescriptions) :
    (mapping (elementary owner) (array (elementary amount) amounts) balances).descendants =
      [mapping (elementary owner) (array (elementary amount) amounts) balances,
        elementary owner, array (elementary amount) amounts, elementary amount] := by
  cbv

end TypeName

/-! ## The loop over a stack -/

/-- A list of type names in the making: those that are listed, and those that wait on a stack, the
next one at its end. -/
structure Traversal where
  listed : List TypeName
  stack : List TypeName

namespace Traversal

def start (name : TypeName) : Traversal := ⟨[], [name]⟩

/-- Lists the type name at the end of the stack and puts its children there, the first one last. -/
def next? (state : Traversal) : Option Traversal :=
  state.stack.getLast?.map fun current =>
    ⟨state.listed ++ [current], state.stack.dropLast ++ current.children.reverse⟩

/-- What is listed once the stack is empty, unless that takes more turns. -/
def runWithin (turns : Nat) (state : Traversal) : Option (List TypeName) :=
  match state.next?, turns with
  | none, _ => some state.listed
  | some _, 0 => none
  | some next, turns + 1 => next.runWithin turns

/-- What is listed, and then what is to come from the stack. -/
def outcome (state : Traversal) : List TypeName :=
  state.listed ++ state.stack.reverse.flatMap TypeName.preorder

/-- The number of type names that are to come from the stack. -/
def remaining (state : Traversal) : Nat := TypeName.totalSize state.stack

variable {state next : Traversal}

theorem stack_eq_nil_of_next? (h : state.next? = none) : state.stack = [] := by
  simpa [next?] using h

theorem exists_stack_of_next? (h : state.next? = some next) :
    ∃ current rest, state.stack = rest ++ [current] ∧
      next = ⟨state.listed ++ [current], rest ++ current.children.reverse⟩ := by
  obtain ⟨current, hlast, rfl⟩ := Option.map_eq_some_iff.1 h
  obtain ⟨rest, hstack⟩ := List.getLast?_eq_some_iff.1 hlast
  refine ⟨current, rest, hstack, ?_⟩
  rw [hstack, List.dropLast_concat]

/-- A turn moves one type name from the stack to the list, and its children come next, so what is
listed in the end stays the same. -/
theorem outcome_next (h : state.next? = some next) : next.outcome = state.outcome := by
  obtain ⟨current, rest, hstack, rfl⟩ := exists_stack_of_next? h
  simp [outcome, hstack, TypeName.preorder_eq current]

theorem remaining_next (h : state.next? = some next) : next.remaining + 1 = state.remaining := by
  obtain ⟨current, rest, hstack, rfl⟩ := exists_stack_of_next? h
  have hsize := TypeName.totalSize_children current
  rw [remaining, remaining, hstack, TypeName.totalSize_append, TypeName.totalSize_append,
    TypeName.totalSize_reverse, TypeName.totalSize_singleton]
  omega

theorem runWithin_finished (h : state.next? = none) (turns : Nat) :
    state.runWithin turns = if state.remaining ≤ turns then some state.outcome else none := by
  have hstack := stack_eq_nil_of_next? h
  have hremaining : state.remaining = 0 := by rw [remaining, hstack, TypeName.totalSize]
  have houtcome : state.outcome = state.listed := by simp [outcome, hstack]
  unfold runWithin
  rw [h, hremaining, houtcome, if_pos (Nat.zero_le turns)]

theorem runWithin_zero (h : state.next? = some next) : state.runWithin 0 = none := by
  unfold runWithin
  rw [h]

theorem runWithin_succ (h : state.next? = some next) (turns : Nat) :
    state.runWithin (turns + 1) = next.runWithin turns := by
  rw [runWithin.eq_def, h]

/-- The loop ends after as many turns as there are type names to come, and no earlier. -/
theorem runWithin_eq (turns : Nat) (state : Traversal) :
    state.runWithin turns = if state.remaining ≤ turns then some state.outcome else none := by
  induction turns generalizing state with
  | zero =>
    cases hnext : state.next? with
    | none => exact runWithin_finished hnext 0
    | some next =>
      have hremaining := remaining_next hnext
      rw [runWithin_zero hnext, if_neg (by omega)]
  | succ turns ih =>
    cases hnext : state.next? with
    | none => exact runWithin_finished hnext (turns + 1)
    | some next =>
      rw [runWithin_succ hnext, ih next, outcome_next hnext, ← remaining_next hnext]
      simp only [Nat.add_le_add_iff_right]

end Traversal

/-! ## Places -/

namespace TypeName

/-- The type name at a place, which is given by the positions of the children that lead there. -/
def at? (name : TypeName) : List Nat → Option TypeName
  | [] => some name
  | position :: place => name.children[position]?.bind fun inner => inner.at? place

/-- A list has one type name for each place in a type name, in ascending order of the places, in
which a place comes before all places within it. -/
structure Enumerates (name : TypeName) (places : List (List Nat)) (listed : List TypeName) :
    Prop where
  ascending : places.Pairwise (List.Lex (· < ·))
  mem_iff (place : List Nat) : place ∈ places ↔ (name.at? place).isSome
  names_eq : places.map name.at? = listed.map some

/-- The places in a type name, from those in its children. -/
def placesWith (places : TypeName → List (List Nat)) (name : TypeName) : List (List Nat) :=
  [] :: name.children.zipIdx.flatMap fun child => (places child.1).map (child.2 :: ·)

section

variable {name : TypeName} {places : TypeName → List (List Nat)}

/-- Places in a child are in order behind its position, those in two children by their positions. -/
theorem ascending_placesWith
    (h : ∀ inner ∈ name.children, (places inner).Pairwise (List.Lex (· < ·))) :
    (placesWith places name).Pairwise (List.Lex (· < ·)) := by
  have hpositions : name.children.zipIdx.Pairwise fun first second => first.2 < second.2 := by
    rw [← List.pairwise_map (f := Prod.snd), List.zipIdx_map_snd]
    exact List.pairwise_lt_range'
  rw [placesWith, List.pairwise_cons, List.pairwise_flatMap]
  refine ⟨fun place hplace => ?_, fun child hchild => ?_, ?_⟩
  · obtain ⟨child, -, hplace⟩ := List.mem_flatMap.1 hplace
    obtain ⟨rest, -, rfl⟩ := List.mem_map.1 hplace
    exact .nil
  · rw [List.pairwise_map]
    exact (h child.1 (List.fst_mem_of_mem_zipIdx hchild)).imp .cons
  · refine hpositions.imp fun hlt place hplace place' hplace' => ?_
    obtain ⟨rest, -, rfl⟩ := List.mem_map.1 hplace
    obtain ⟨rest', -, rfl⟩ := List.mem_map.1 hplace'
    exact .rel hlt

theorem cons_mem_placesWith_iff {position : Nat} {place : List Nat} :
    position :: place ∈ placesWith places name ↔
      ∃ inner, name.children[position]? = some inner ∧ place ∈ places inner := by
  simp only [placesWith, List.mem_cons, reduceCtorEq, false_or, List.mem_flatMap, List.mem_map,
    List.cons.injEq]
  constructor
  · rintro ⟨⟨inner, _⟩, hchild, _, hplace, rfl, rfl⟩
    exact ⟨inner, List.mem_zipIdx_iff_getElem?.1 hchild, hplace⟩
  · rintro ⟨inner, hchild, hplace⟩
    exact ⟨(inner, position), List.mem_zipIdx_iff_getElem?.2 hchild, place, hplace, rfl, rfl⟩

theorem mem_placesWith_iff
    (h : ∀ inner ∈ name.children, ∀ place, place ∈ places inner ↔ (inner.at? place).isSome)
    (place : List Nat) : place ∈ placesWith places name ↔ (name.at? place).isSome := by
  cases place with
  | nil => simp [placesWith, at?]
  | cons position place =>
    rw [cons_mem_placesWith_iff, at?, Option.isSome_bind, Option.any_eq_true]
    refine exists_congr fun inner => and_congr_right fun hinner => ?_
    exact h inner (List.mem_of_getElem? hinner) place

theorem map_at?_placesWith
    (h : ∀ inner ∈ name.children, (places inner).map inner.at? = inner.preorder.map some) :
    (placesWith places name).map name.at? = name.preorder.map some := by
  have hchildren : name.children.flatMap preorder =
      name.children.zipIdx.flatMap fun child => child.1.preorder := by
    have hfirst := List.flatMap_map Prod.fst preorder name.children.zipIdx
    rwa [List.zipIdx_map_fst] at hfirst
  rw [placesWith, preorder_eq, hchildren, List.map_cons, List.map_cons, List.map_flatMap,
    List.map_flatMap, at?]
  refine congrArg (some name :: ·) (List.flatMap_congr fun child hchild => ?_)
  have hat : ∀ place, name.at? (child.2 :: place) = child.1.at? place := by
    intro place
    rw [at?, List.mem_zipIdx_iff_getElem?.1 hchild, Option.bind_some]
  rw [← h child.1 (List.fst_mem_of_mem_zipIdx hchild), List.map_map]
  exact List.map_congr_left fun place _ => hat place

end

/-- The pre-order has one type name for each place. -/
theorem exists_enumerates (name : TypeName) : ∃ places, name.Enumerates places name.preorder := by
  induction name using induction_children with
  | step name ih =>
    -- The children have places of their own, known so far only to exist.
    choose! places hplaces using ih
    refine ⟨placesWith places name, ?_, ?_, ?_⟩
    · exact ascending_placesWith fun inner hinner => (hplaces inner hinner).ascending
    · exact mem_placesWith_iff fun inner hinner => (hplaces inner hinner).mem_iff
    · exact map_at?_placesWith fun inner hinner => (hplaces inner hinner).names_eq

/-- The type names within a type name are listed in pre-order. A loop over a stack lists them in as
many turns as there are. They are the type name itself and, child by child, those within its
children, which is what the recursion through its parts gives. Each of its places has one of them,
which stands before those at later places. -/
theorem descendants_preorder (name : TypeName) :
    (∀ turns, (Traversal.start name).runWithin turns =
      if name.size ≤ turns then some name.descendants else none) ∧
    name.descendants = name :: name.children.flatMap descendants ∧
    name.descendants = name.preorder ∧
    ∃ places, name.Enumerates places name.descendants := by
  refine ⟨fun turns => ?_, descendants_eq name, descendants_eq_preorder name, ?_⟩
  · have hremaining : (Traversal.start name).remaining = name.size := totalSize_singleton name
    have houtcome : (Traversal.start name).outcome = name.descendants := by
      rw [descendants, listFrom_eq]
      rfl
    rw [Traversal.runWithin_eq, hremaining, houtcome]
  · rw [descendants_eq_preorder]
    exact exists_enumerates name

end TypeName

end StorageUpgrade.Source
