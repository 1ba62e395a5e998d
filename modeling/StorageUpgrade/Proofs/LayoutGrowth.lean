import StorageUpgrade.Proofs.SuccessiveUpgrades

/-!
# Growing layouts

A variable that is added to a layout comes behind all others, and a type that is added never takes
the place of one that is described already. So whatever is added, in whatever order, the types of
the variables that were there stay what they are, and checking the layout against the larger one
finds additions alone. Whether the larger layout resolves is not said: the additions may refer to
types that nobody describes.
-/

namespace StorageUpgrade

/-- Something that is added to a layout. -/
inductive Addition where
  | stored (added : StoredVariable)
  | type (id : String) (entry : TypeEntry)
  deriving DecidableEq, Repr

def Addition.stored? : Addition → Option StoredVariable
  | stored added => some added
  | type _ _ => none

/-- The place and the words of a variable's declaration, without what is known of its type. -/
def VariableInfo.declaration (info : VariableInfo) : StoredVariable where
  contract := info.contract
  label := info.label
  typeId := info.typeId
  src := info.src

namespace Layout

def add (layout : Layout) : Addition → Layout
  | .stored added => layout.addVariable added
  | .type id entry => layout.define id entry

def addAll (layout : Layout) (additions : List Addition) : Layout :=
  additions.foldl add layout

variable {layout larger : Layout}

theorem stored_add (layout : Layout) (addition : Addition) :
    (layout.add addition).stored = layout.stored ++ addition.stored?.toList := by
  cases addition with
  | stored added => rfl
  | type id entry => exact (List.append_nil _).symm

theorem stored_addAll (layout : Layout) (additions : List Addition) :
    (layout.addAll additions).stored = layout.stored ++ additions.filterMap (·.stored?) := by
  induction additions generalizing layout with
  | nil => exact (List.append_nil _).symm
  | cons addition additions ih =>
    have hrest := ih (layout.add addition)
    rw [stored_add] at hrest
    rw [addAll, List.foldl_cons, ← addAll, hrest, List.append_assoc]
    cases addition <;> rfl

/-- What is said of a type is not taken back. -/
def Keeps (larger layout : Layout) : Prop :=
  ∀ id entry, layout.type? id = some entry → larger.type? id = some entry

theorem keeps_add (layout : Layout) (addition : Addition) : (layout.add addition).Keeps layout := by
  intro id entry hentry
  cases addition with
  | stored added => exact hentry
  | type id' entry' => rw [add, type?_define, hentry, Option.some_or]

theorem keeps_addAll (layout : Layout) (additions : List Addition) :
    (layout.addAll additions).Keeps layout := by
  induction additions generalizing layout with
  | nil => exact fun _ _ hentry => hentry
  | cons addition additions ih =>
    exact fun id entry hentry => ih (layout.add addition) id entry
      (keeps_add layout addition id entry hentry)

theorem Keeps.describe (h : larger.Keeps layout) {id : String} {node : TypeNode String}
    (hnode : layout.describe id = .ok node) : larger.describe id = .ok node := by
  obtain ⟨expr, entry, hparse, htype, hnode⟩ := describe_eq_ok_iff.1 hnode
  exact describe_eq_ok_iff.2 ⟨expr, entry, hparse, h _ _ htype, hnode⟩

/-- A type keeps its shape in a layout that knows more types. -/
theorem Keeps.hasShape (h : larger.Keeps layout) {id : String} {shape : TypeShape}
    (hshape : layout.HasShape id shape) : larger.HasShape id shape := by
  refine Expands.relabel (fun id => id) (fun _ => True) ?_ trivial hshape
  intro id node _ hnode
  refine ⟨⟨node.id, ?_⟩, fun _ _ => trivial⟩
  rw [TypeNode.map_id]
  exact node?_eq_some_iff.2 (h.describe (node?_eq_some_iff.1 hnode))

end Layout

section

variable {layout : Layout} {additions : List Addition} {old new : ResolvedLayout}

/-- A layout is continued by everything that it grows to. -/
theorem ResolvedLayout.Mirrors.continuedBy_addAll (h : old.Mirrors layout)
    (additions : List Addition) : layout.ContinuedBy (layout.addAll additions) where
  le := by
    rw [Layout.stored_addAll, List.length_append]
    exact Nat.le_add_right _ _
  same := by
    intro k x y hx hy
    obtain ⟨hk, -⟩ := List.getElem?_eq_some_iff.1 hx
    rw [Layout.stored_addAll, List.getElem?_append_left hk] at hy
    obtain ⟨-, shape, hshape, -⟩ := h.continuedBy_self.same k x x hx hx
    rw [hx] at hy
    cases hy
    exact ⟨rfl, shape, hshape, (Layout.keeps_addAll layout additions).hasShape hshape⟩

/-- The variables of a resolved layout are declared like those of the layout. -/
theorem ResolvedLayout.Mirrors.map_declaration (h : old.Mirrors layout) :
    old.stored.map (fun v => v.info.declaration) = layout.stored := by
  refine (map_eq_map_of_forall₂ (h := fun x => x) (h.stored.imp ?_)).trans (List.map_id' _)
  intro x v hv
  obtain ⟨source, -, hinfo⟩ := hv.info
  rw [hinfo]
  rfl

theorem Policy.rejects_of_isSafe (policy : Policy) {edit : StorageEdit} (h : edit.isSafe = true) :
    policy.rejects edit = .ok false := by
  cases edit with
  | equal => rfl
  | append => rfl
  | _ => cases h

end

/-- Whatever is added to a layout, and whatever is tolerated: checking the layout against the larger
one keeps all its variables, appends those that were added, in their order, and finds nothing to
reject. -/
theorem judge_addAll {layout : Layout} {additions : List Addition} {old new : ResolvedLayout}
    (hold : layout.resolve = .ok old) (hnew : (layout.addAll additions).resolve = .ok new)
    (policy : Policy) :
    ∃ (judgement : Judgement) (appended : List VariableInfo),
      judge policy layout (layout.addAll additions) = .ok judgement ∧
      judgement.edits =
        List.replicate layout.stored.length .equal ++ appended.map .append ∧
      appended.map VariableInfo.declaration = additions.filterMap Addition.stored? ∧
      judgement.incompatibilities = [] ∧ judgement.accept = .ok () := by
  have hmirrors := mirrors_of_resolve hold
  have hmirrors' := mirrors_of_resolve hnew
  have hedits := editsTo_of_continuedBy hmirrors hmirrors' (hmirrors.continuedBy_addAll additions)
  have hsafe : ∀ edit ∈ old.editsTo new, policy.rejects edit = .ok false := by
    intro edit hedit
    apply policy.rejects_of_isSafe
    rw [hedits, List.mem_append, List.mem_replicate, List.mem_map] at hedit
    rcases hedit with ⟨-, rfl⟩ | ⟨v, -, rfl⟩
    · rfl
    · rfl
  have hrejected := Policy.rejected_of_forall hsafe
  rw [List.filter_false] at hrejected
  refine ⟨_, (new.stored.drop layout.stored.length).map (·.info),
    judge_of_resolve hold hnew hrejected, ?_, ?_, rfl, rfl⟩
  · rw [hedits, List.map_map]
    rfl
  · have hdeclarations := hmirrors'.map_declaration
    rw [Layout.stored_addAll] at hdeclarations
    rw [List.map_map, List.map_drop]
    change (new.stored.map fun v => v.info.declaration).drop _ = _
    rw [hdeclarations, List.drop_left]

/-- A second point with the name and the type of the first, and another word for a type that is
described already, which is not taken over. -/
def Layout.morePoints : List Addition := [
  .stored ⟨"Box", "start", "t_struct(Point)3_storage", "Box.sol:6:6"⟩,
  .type "t_uint256" ⟨"uint", none⟩,
  .stored ⟨"Box", "open", "t_bool", "Box.sol:7:7"⟩,
  .type "t_bool" ⟨"bool", none⟩]

theorem judge_addAll_morePoints :
    ∃ (judgement : Judgement) (appended : List VariableInfo),
      judge ⟨true, true⟩ (Layout.points "3") ((Layout.points "3").addAll Layout.morePoints) =
        .ok judgement ∧
      judgement.edits = [.equal, .equal] ++ appended.map .append ∧
      appended.map VariableInfo.declaration = [
        ⟨"Box", "start", "t_struct(Point)3_storage", "Box.sol:6:6"⟩,
        ⟨"Box", "open", "t_bool", "Box.sol:7:7"⟩] := by
  obtain ⟨old, hold⟩ := exists_ok_of_isOk
    (show (Layout.points "3").resolve.isOk = true by decide +kernel)
  obtain ⟨new, hnew⟩ := exists_ok_of_isOk
    (show ((Layout.points "3").addAll Layout.morePoints).resolve.isOk = true by decide +kernel)
  obtain ⟨judgement, appended, hjudge, hedits, happended, -⟩ := judge_addAll hold hnew ⟨true, true⟩
  exact ⟨judgement, appended, hjudge, hedits, happended⟩

end StorageUpgrade
