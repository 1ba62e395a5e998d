import StorageUpgrade.Proofs.EqualPairs
import StorageUpgrade.Proofs.ForbiddenEdits
import StorageUpgrade.Proofs.Outlines
import StorageUpgrade.Proofs.Skeletons

/-!
# What tolerating numbers of declarations can hide

A policy that tolerates other numbers of declarations lets a change of type through if the two
identifiers have one stable form. Such identifiers have one skeleton, and so have the identifiers of
their arguments and results, though each of these is read again from its own text. So the two types
have the same outline, and since they differ, they differ in what the dictionaries say at some
place of it.
-/

namespace StorageUpgrade

/-! ## Skeletons and outlines -/

namespace Identifier

theorem TypeExpr.level_skeleton (e : TypeExpr) : e.skeleton.level = e.level.map skeleton := by
  have hending : ∀ ending : Ending, ending.skeleton.types? =
      ending.types?.map (List.map skeleton) := by
    intro ending
    cases ending <;> simp [Ending.skeleton, Ending.types?, listSkeleton_eq_map]
  cases e <;>
    simp [TypeExpr.skeleton, level, Level.map, head, headText, args?, rets?, hending,
      listSkeleton_eq_map]

theorem TypeExpr.mem_parts_of_part? {e part : TypeExpr} {step : Step}
    (h : e.level.part? step = some part) : part ∈ e.parts := by
  cases step with
  | arg index => exact List.mem_append_left _ (Level.mem_of_getElem?_eq_some h)
  | ret index => exact List.mem_append_right _ (Level.mem_of_getElem?_eq_some h)

theorem TypeExpr.level_map_skeleton_congr {e e' : TypeExpr} (h : e.skeleton = e'.skeleton) :
    e.level.map skeleton = e'.level.map skeleton := by
  rw [← level_skeleton, ← level_skeleton, h]

theorem respectsOutlines_skeleton :
    RespectsOutlines TypeExpr.level TypeExpr.level fun e e' => e.skeleton = e'.skeleton where
  outline_eq h := by
    simpa using congrArg Level.outline (TypeExpr.level_map_skeleton_congr h)
  part {e e' step part part'} h hpart hpart' := by
    have hstep := congrArg (Level.part? · step) (TypeExpr.level_map_skeleton_congr h)
    simpa [hpart, hpart'] using hstep

/-- Identifiers with one skeleton have structures with one outline. -/
theorem SameSkeleton.sameOutline {raw raw' : String} {e e' : TypeExpr}
    (h : SameSkeleton raw raw') (hparse : parse raw = .ok e) (hparse' : parse raw' = .ok e') :
    e.SameOutline e' :=
  respectsOutlines_skeleton.outlineAt?_eq (h.skeleton_eq hparse hparse')

end Identifier

namespace Layout

open Identifier

variable {layout before after : Layout} {id : String} {shape : TypeShape}

/-- A type written out begins like the structure of its identifier, and its arguments and results
are what the identifiers there stand for. -/
theorem HasShape.exists_parse (h : layout.HasShape id shape) :
    ∃ e, Identifier.parse id = .ok e ∧ shape.level.outline = e.level.outline ∧
      ∀ step part, shape.level.part? step = some part →
        ∃ argument, e.level.part? step = some argument ∧ layout.HasShape argument.id part := by
  obtain ⟨node, hnode, houtline, hparts⟩ := h.exists_node
  obtain ⟨e, entry, hparse, -, rfl⟩ := describe_eq_ok_iff.1 hnode
  refine ⟨e, hparse, houtline.trans (Level.outline_map TypeExpr.id e.level), ?_⟩
  intro step part hpart
  obtain ⟨partId, hpartId, hshape⟩ := hparts step part hpart
  have hid : (e.level.part? step).map TypeExpr.id = some partId := by
    rw [← Level.part?_map]
    exact hpartId
  obtain ⟨argument, hargument, rfl⟩ := Option.map_eq_some_iff.1 hid
  exact ⟨argument, hargument, hshape⟩

/-- Types whose identifiers have one skeleton have one outline, whatever the dictionaries say. -/
theorem respectsOutlines_shapes (before after : Layout) :
    RespectsOutlines TypeShape.level TypeShape.level fun shape shape' =>
      ∃ id id', SameSkeleton id id' ∧ before.HasShape id shape ∧
        after.HasShape id' shape' where
  outline_eq {shape shape'} h := by
    obtain ⟨id, id', hsame, hshape, hshape'⟩ := h
    obtain ⟨e, hparse, houtline, -⟩ := hshape.exists_parse
    obtain ⟨e', hparse', houtline', -⟩ := hshape'.exists_parse
    rw [houtline, houtline']
    exact Option.some.inj (hsame.sameOutline hparse hparse' [])
  part {shape shape' step part part'} h hpart hpart' := by
    obtain ⟨id, id', hsame, hshape, hshape'⟩ := h
    obtain ⟨e, hparse, -, hparts⟩ := hshape.exists_parse
    obtain ⟨e', hparse', -, hparts'⟩ := hshape'.exists_parse
    obtain ⟨argument, hargument, hpartShape⟩ := hparts step part hpart
    obtain ⟨argument', hargument', hpartShape'⟩ := hparts' step part' hpart'
    have hskeleton : argument.skeleton = argument'.skeleton :=
      respectsOutlines_skeleton.part (hsame.skeleton_eq hparse hparse') hargument hargument'
    have hid : SameSkeleton argument.id argument'.id := sameSkeleton_id hparse hparse'
      (TypeExpr.mem_parts_of_part? hargument) (TypeExpr.mem_parts_of_part? hargument') hskeleton
    exact ⟨argument.id, argument'.id, hid, hpartShape, hpartShape'⟩

end Layout

/-! ## Where changes of type come from -/

namespace Alignment

variable {α : Type} {verdict : Nat → Nat → Verdict} {before after : List α}

theorem Edit.pair_eq_typeChange_iff {v : Verdict} {x y x' y' : α} :
    pair v x y = .typeChange x' y' ↔ v = .typeChange ∧ x = x' ∧ y = y' := by
  cases v <;> simp [pair]

/-- A change of type in a valid script pairs items for which that is the verdict. -/
theorem Replays.exists_of_typeChange {i j : Nat} {script : List (Edit α)}
    (h : Replays verdict before after i j script) {x y : α} (hedit : .typeChange x y ∈ script) :
    ∃ (k l : Nat) (hk : k < before.length) (hl : l < after.length),
      verdict k l = .typeChange ∧ before[k] = x ∧ after[l] = y := by
  obtain ⟨front, later, rfl⟩ := List.append_of_mem hedit
  obtain ⟨k, l, hreplays⟩ := h.exists_of_append
  generalize hscript : Edit.typeChange x y :: later = script at hreplays
  cases hreplays with
  | pair hk hl =>
    exact ⟨k, l, hk, hl, Edit.pair_eq_typeChange_iff.1 (List.cons.inj hscript).1.symm⟩
  | _ => cases hscript

end Alignment

/-! ## Changes of type that a policy lets through -/

section

variable {before after : Layout} {old new : ResolvedLayout}

theorem ResolvedLayout.Mirrors.exists_hasShape (h : old.Mirrors before) {k : Nat}
    (hk : k < before.stored.length) :
    ∃ shape, before.HasShape before.stored[k].typeId shape := by
  have hk' : k < old.stored.length := h.stored.length_eq ▸ hk
  obtain ⟨shape, -, hshape⟩ : ∃ shape, old.types.HasShape old.stored[k].type shape ∧
      before.HasShape before.stored[k].typeId shape :=
    h.pool.exists_expands (h.stored.get hk hk').id
  exact ⟨shape, hshape⟩

/-- A change of type between resolved layouts is about variables whose types differ. -/
theorem exists_shapes_of_typeChange (hold : old.Mirrors before) (hnew : new.Mirrors after)
    {x y : VariableInfo} (h : .typeChange x y ∈ old.editsTo new) :
    ∃ shape shape', before.HasShape x.typeId shape ∧ after.HasShape y.typeId shape' ∧
      shape ≠ shape' := by
  obtain ⟨edit, hmem, hedit⟩ := List.mem_map.1 h
  cases edit with
  | typeChange v w =>
    cases hedit
    obtain ⟨k, l, hk, hl, hverdict, rfl, rfl⟩ :=
      (Alignment.replays_align _ _ _ _).exists_of_typeChange hmem
    have hk' : k < before.stored.length := hold.stored.length_eq ▸ hk
    have hl' : l < after.stored.length := hnew.stored.length_eq ▸ hl
    obtain ⟨shape, hshape⟩ := hold.exists_hasShape hk'
    obtain ⟨shape', hshape'⟩ := hnew.exists_hasShape hl'
    obtain ⟨sameType, hgiven, hsame⟩ := exists_given_classify_eq hold hnew hk' hl'
    rw [hold.typeId_eq hk' hk, hnew.typeId_eq hl' hl]
    refine ⟨shape, shape', hshape, hshape', ?_⟩
    rintro rfl
    rw [hsame.2 ⟨shape, hshape, hshape'⟩, hverdict] at hgiven
    cases hname : decide (before.stored[k].label = after.stored[l].label) <;>
      rw [hname] at hgiven <;> cases hgiven
  | _ => cases hedit

end

/-- Identifiers of one stable form have structures of one outline. So where a policy lets a change
of type through, the identifiers of the two variables have structures of one outline, and the two
types written out do as well; at some place of these the dictionaries give other labels or other
members. -/
theorem sameOutline_of_tolerated :
    (∀ (raw raw' : String) (e e' : Identifier.TypeExpr),
      Identifier.parse raw = .ok e → Identifier.parse raw' = .ok e' →
      Identifier.stabilize raw = Identifier.stabilize raw' → e.SameOutline e') ∧
    ∀ (before after : Layout) (old new : ResolvedLayout) (policy : Policy),
      before.resolve = .ok old → after.resolve = .ok new →
      ∃ judgement, judge policy before after = .ok judgement ∧
        ∀ x y, .typeChange x y ∈ judgement.edits →
          .typeChange x y ∉ judgement.incompatibilities →
          policy.allowTypeChurn = true ∧
          (∃ e e', Identifier.parse x.typeId = .ok e ∧ Identifier.parse y.typeId = .ok e' ∧
            e.SameOutline e') ∧
          ∃ shape shape', before.HasShape x.typeId shape ∧ after.HasShape y.typeId shape' ∧
            shape.SameOutline shape' ∧
            ∃ path found found', follow? TypeShape.level path shape = some found ∧
              follow? TypeShape.level path shape' = some found' ∧
                (found.label ≠ found'.label ∨ found.members ≠ found'.members) := by
  constructor
  · intro raw raw' e e' hparse hparse' hsame
    obtain ⟨stable, hstable⟩ := Identifier.exists_stabilize_of_parse hparse
    have hstable' := hsame.symm.trans hstable
    exact (Identifier.sameSkeleton_of_stabilize hstable hstable').sameOutline hparse hparse'
  intro before after old new policy hold hnew
  have hmirrors := mirrors_of_resolve hold
  have hmirrors' := mirrors_of_resolve hnew
  refine ⟨_, judge_of_resolve hold hnew (rejected_eq_filter_forbids policy hmirrors hmirrors'),
    fun x y hedit hdropped => ?_⟩
  have hallowed : ¬ policy.Forbids (.typeChange x y) := fun hforbids =>
    hdropped (List.mem_filter.2 ⟨hedit, decide_eq_true hforbids⟩)
  obtain ⟨hchurn, stable, hstable, hstable'⟩ :
      policy.allowTypeChurn = true ∧ x.SameStableId y := not_not.1 hallowed
  have hsame := Identifier.sameSkeleton_of_stabilize hstable hstable'
  obtain ⟨shape, shape', hshape, hshape', hne⟩ :=
    exists_shapes_of_typeChange hmirrors hmirrors' hedit
  obtain ⟨e, hparse, -⟩ := hshape.exists_parse
  obtain ⟨e', hparse', -⟩ := hshape'.exists_parse
  have houtline : shape.SameOutline shape' :=
    (Layout.respectsOutlines_shapes before after).outlineAt?_eq
      ⟨x.typeId, y.typeId, hsame, hshape, hshape'⟩
  exact ⟨hchurn, ⟨e, e', hparse, hparse', hsame.sameOutline hparse hparse'⟩, shape, shape', hshape,
    hshape', houtline, houtline.exists_difference hne⟩

/-- Numbers are erased from within an identifier, and a struct has another field. -/
theorem sameOutline_of_tolerated_marks :
    (∃ e e', Identifier.parse "f(t_enum(A)3,)2" = .ok e ∧
      Identifier.parse "f(t_enum(A)7_,)2" = .ok e' ∧ e.SameOutline e') ∧
    ∃ judgement, judge ⟨true, false⟩ (Layout.marks "count" "3" "x")
        (Layout.marks "count" "7" "y") = .ok judgement ∧
      judgement.incompatibilities = [] ∧
      ∃ x y, .typeChange x y ∈ judgement.edits ∧
        ∃ shape shape', (Layout.marks "count" "3" "x").HasShape x.typeId shape ∧
          (Layout.marks "count" "7" "y").HasShape y.typeId shape' ∧ shape.SameOutline shape' := by
  obtain ⟨houtline, htolerated⟩ := sameOutline_of_tolerated
  constructor
  · have hparse : (Identifier.parse "f(t_enum(A)3,)2").map Identifier.TypeExpr.id =
        .ok "f(t_enum(A)3,)2" := by decide +kernel
    have hparse' : (Identifier.parse "f(t_enum(A)7_,)2").map Identifier.TypeExpr.id =
        .ok "f(t_enum(A)7_,)2" := by decide +kernel
    have hsame : Identifier.stabilize "f(t_enum(A)3,)2" =
        Identifier.stabilize "f(t_enum(A)7_,)2" := by decide +kernel
    obtain ⟨e, he, -⟩ := map_eq_ok_iff.1 hparse
    obtain ⟨e', he', -⟩ := map_eq_ok_iff.1 hparse'
    exact ⟨e, e', he, he', houtline _ _ e e' he he' hsame⟩
  · obtain ⟨old, hold⟩ := exists_ok_of_isOk
      (show (Layout.marks "count" "3" "x").resolve.isOk = true by decide +kernel)
    obtain ⟨new, hnew⟩ := exists_ok_of_isOk
      (show (Layout.marks "count" "7" "y").resolve.isOk = true by decide +kernel)
    obtain ⟨judgement, hjudge, hchanges⟩ := htolerated _ _ old new ⟨true, false⟩ hold hnew
    have hjudged : (judge ⟨true, false⟩ (Layout.marks "count" "3" "x")
        (Layout.marks "count" "7" "y")).map (fun judgement =>
          (judgement.incompatibilities, judgement.edits)) = .ok ([], [.equal, .typeChange
        ⟨"Box", "mark", "t_struct(Mark)3_storage", "struct Mark", "Box.sol:5:5"⟩
        ⟨"Box", "mark", "t_struct(Mark)7_storage", "struct Mark", "Box.sol:5:5"⟩]) := by
      decide +kernel
    rw [hjudge, Except.map, Except.ok.injEq, Prod.mk.injEq] at hjudged
    obtain ⟨hnone, hedits⟩ := hjudged
    have hmem := hedits ▸ List.mem_cons_of_mem _ List.mem_cons_self
    obtain ⟨-, -, shape, shape', hshape, hshape', hsame, -⟩ :=
      hchanges _ _ hmem (by simp [hnone])
    exact ⟨judgement, hjudge, hnone, _, _, hmem, shape, shape', hshape, hshape', hsame⟩

end StorageUpgrade
