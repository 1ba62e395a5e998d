import StorageUpgrade.Proofs.Normalization
import StorageUpgrade.Proofs.StrictSafety

/-!
# Tolerance

A policy may tolerate variables that are renamed, and types that change while their identifiers
differ in numbers of declarations alone. It decides about single edits; what it promises is about
positions. No policy tolerates an insertion or a deletion, so all that it tolerates together leaves
every variable at its position. What a tolerated change of type does to stored data is not said.
-/

namespace StorageUpgrade

/-! ## The items of a script -/

namespace Alignment

variable {α β : Type}

namespace Edit

/-- The items that an edit tells of. -/
def items : Edit α → List α
  | equal => []
  | rename before after | typeChange before after | replace before after => [before, after]
  | insert after | append after => [after]
  | delete before => [before]

theorem items_map (f : α → β) (edit : Edit α) : (edit.map f).items = edit.items.map f := by
  cases edit <;> rfl

theorem eq_or_eq_of_mem_items_pair {verdict : Verdict} {x y z : α}
    (h : z ∈ (pair verdict x y).items) : z = x ∨ z = y := by
  cases verdict with
  | equal => cases h
  | _ => simpa [pair, items] using h

end Edit

variable {verdict : Nat → Nat → Verdict} {before after : List α}

/-- A valid script tells of items of the two lists alone. -/
theorem Replays.mem_of_mem_items {i j : Nat} {script : List (Edit α)}
    (h : Replays verdict before after i j script) :
    ∀ edit ∈ script, ∀ z ∈ edit.items, z ∈ before ∨ z ∈ after := by
  induction h with
  | done => exact fun edit hedit => nomatch hedit
  | pair hi hj _ ih =>
    refine List.forall_mem_cons.2 ⟨fun z hz => ?_, ih⟩
    rcases Edit.eq_or_eq_of_mem_items_pair hz with rfl | rfl
    · exact .inl (List.getElem_mem hi)
    · exact .inr (List.getElem_mem hj)
  | delete hi _ ih =>
    refine List.forall_mem_cons.2 ⟨fun z hz => .inl ?_, ih⟩
    rw [List.mem_singleton.1 hz]
    exact List.getElem_mem hi
  | insert _ hj _ ih =>
    refine List.forall_mem_cons.2 ⟨fun z hz => .inr ?_, ih⟩
    rw [List.mem_singleton.1 hz]
    exact List.getElem_mem hj
  | append hj _ ih =>
    refine List.forall_mem_cons.2 ⟨fun z hz => .inr ?_, ih⟩
    rw [List.mem_singleton.1 hz]
    exact List.getElem_mem hj

end Alignment

/-! ## Deciding about an edit -/

namespace Identifier

theorem exists_mapDecoded {f g : List Char → List Char} {raw text : String}
    (h : mapDecoded f raw = .ok text) : ∃ text', mapDecoded g raw = .ok text' := by
  obtain ⟨decoded, hdecode, -⟩ := mapDecoded_eq_ok_iff.1 h
  exact ⟨_, mapDecoded_eq_ok_iff.2 ⟨decoded, hdecode, String.toList_ofList.symm⟩⟩

/-- An identifier that has a structure has a stable form. -/
theorem exists_stabilize_of_parse {raw : String} {expr : TypeExpr} (h : parse raw = .ok expr) :
    ∃ stable, stabilize raw = .ok stable :=
  exists_mapDecoded (normalize_of_parse h)

end Identifier

namespace Policy

variable {policy : Policy}

/-- A policy decides about every edit of variables whose identifiers have stable forms. -/
theorem exists_rejects {edit : StorageEdit}
    (h : ∀ info ∈ edit.items, ∃ stable, Identifier.stabilize info.typeId = .ok stable) :
    ∃ isRejected, policy.rejects edit = .ok isRejected := by
  cases edit with
  | typeChange before after =>
    obtain ⟨stable, hstable⟩ := h before (by simp [Alignment.Edit.items])
    obtain ⟨stable', hstable'⟩ := h after (by simp [Alignment.Edit.items])
    by_cases hchurn : policy.allowTypeChurn = true
    · refine ⟨stable ≠ stable', ?_⟩
      rw [rejects, if_pos hchurn, hstable, hstable']
      rfl
    · exact ⟨true, by rw [rejects, if_neg hchurn]⟩
  | _ => exact ⟨_, rfl⟩

/-- All that a policy can tolerate of a pair of variables. -/
theorem rejects_pair_cases {verdict : Alignment.Verdict} {before after : VariableInfo}
    (h : policy.rejects (.pair verdict before after) = .ok false) :
    verdict = .equal ∨ (verdict = .rename ∧ policy.allowRenames = true) ∨
      (verdict = .typeChange ∧ policy.allowTypeChurn = true ∧
        ∃ stable, Identifier.stabilize before.typeId = .ok stable ∧
          Identifier.stabilize after.typeId = .ok stable) := by
  cases verdict with
  | equal => exact .inl rfl
  | rename =>
    refine .inr (.inl ⟨rfl, ?_⟩)
    simpa [Alignment.Edit.pair, rejects] using h
  | typeChange =>
    refine .inr (.inr ⟨rfl, ?_⟩)
    rw [Alignment.Edit.pair, rejects] at h
    split at h
    next hchurn =>
      obtain ⟨stable, hstable, h⟩ := bind_eq_ok_iff.1 h
      obtain ⟨stable', hstable', h⟩ := bind_eq_ok_iff.1 h
      have heq : stable = stable' := by simpa [pure_eq_ok_iff] using h
      exact ⟨hchurn, stable, hstable, heq ▸ hstable'⟩
    next => cases h
  | replace => cases h

theorem keepsPlace_of_rejects {edit : StorageEdit} (h : policy.rejects edit = .ok false) :
    edit.keepsPlace = true := by
  cases edit with
  | insert => cases h
  | delete => cases h
  | _ => rfl

end Policy

/-! ## The edits between resolved layouts -/

section

variable {policy : Policy} {before after : Layout} {old new : ResolvedLayout}

theorem ResolvedLayout.Mirrors.typeId_eq (h : old.Mirrors before) {k : Nat}
    (hk : k < before.stored.length) (hk' : k < old.stored.length) :
    old.stored[k].info.typeId = before.stored[k].typeId := by
  obtain ⟨source, -, hinfo⟩ := (h.stored.get hk hk').info
  exact congrArg (·.typeId) hinfo

theorem ResolvedLayout.Mirrors.exists_stabilize (h : old.Mirrors before) {v : ResolvedVariable}
    (hv : v ∈ old.stored) : ∃ stable, Identifier.stabilize v.info.typeId = .ok stable := by
  obtain ⟨k, hk', rfl⟩ := List.getElem_of_mem hv
  have hk : k < before.stored.length := h.stored.length_eq ▸ hk'
  obtain ⟨source, hsource⟩ := h.exists_describe (.of_mem (List.getElem_mem hk))
  obtain ⟨expr, -, hparse, -⟩ := Layout.describe_eq_ok_iff.1 hsource
  rw [h.typeId_eq hk hk']
  exact Identifier.exists_stabilize_of_parse hparse

/-- The edits between layouts that resolve tell of variables whose identifiers have stable forms. -/
theorem exists_stabilize_of_mem_editsTo (hold : old.Mirrors before) (hnew : new.Mirrors after)
    {edit : StorageEdit} (hedit : edit ∈ old.editsTo new) :
    ∀ info ∈ edit.items, ∃ stable, Identifier.stabilize info.typeId = .ok stable := by
  obtain ⟨edit, hmem, rfl⟩ := List.mem_map.1 hedit
  rw [Alignment.Edit.items_map, List.forall_mem_map]
  intro v hv
  rcases (Alignment.replays_align _ _ _ _).mem_of_mem_items edit hmem v hv with hv | hv
  · exact hold.exists_stabilize hv
  · exact hnew.exists_stabilize hv

/-- Every policy decides about all edits between layouts that resolve. -/
theorem exists_isRejected (policy : Policy) (hold : old.Mirrors before) (hnew : new.Mirrors after) :
    ∃ isRejected : StorageEdit → Bool,
      ∀ edit ∈ old.editsTo new, policy.rejects edit = .ok (isRejected edit) := by
  have hdecides : ∀ edit ∈ old.editsTo new,
      ∃ isRejected, policy.rejects edit = .ok isRejected :=
    fun edit hedit => Policy.exists_rejects (exists_stabilize_of_mem_editsTo hold hnew hedit)
  choose! isRejected hisRejected using hdecides
  exact ⟨isRejected, hisRejected⟩

/-! ## Positions -/

/-- What a policy may tolerate of the variables at one position of two layouts. -/
def Policy.Tolerates (policy : Policy) (before after : Layout) (x y : StoredVariable) : Prop :=
  (x.label = y.label ∧ before.SameShape after x.typeId y.typeId) ∨
    (policy.allowRenames = true ∧ before.SameShape after x.typeId y.typeId) ∨
    (policy.allowTypeChurn = true ∧ x.label = y.label ∧
      ∃ stable, Identifier.stabilize x.typeId = .ok stable ∧
        Identifier.stabilize y.typeId = .ok stable)

theorem sameType_of_ofAgreement_eq_rename {sameName sameType : Bool}
    (h : Alignment.Verdict.ofAgreement sameName sameType = .rename) : sameType = true := by
  cases sameName <;> cases sameType <;> first | rfl | cases h

theorem sameName_of_ofAgreement_eq_typeChange {sameName sameType : Bool}
    (h : Alignment.Verdict.ofAgreement sameName sameType = .typeChange) : sameName = true := by
  cases sameName <;> cases sameType <;> first | rfl | cases h

/-- If a policy tolerates the edit that pairs two variables, it is for one of these reasons. -/
theorem tolerates_of_rejects (hold : old.Mirrors before) (hnew : new.Mirrors after) {k : Nat}
    (hk : k < before.stored.length) (hk' : k < after.stored.length)
    (hi : k < old.stored.length) (hj : k < new.stored.length)
    (h : policy.rejects (.pair (Alignment.given EqualityTable.classify old.stored new.stored
      (.ofPools old.types new.types) k k) old.stored[k].info new.stored[k].info) = .ok false) :
    policy.Tolerates before after before.stored[k] after.stored[k] := by
  obtain ⟨sameType, hverdict, hsame⟩ := exists_given_classify_eq hold hnew hk hk'
  rw [hverdict] at h
  rcases Policy.rejects_pair_cases h with hequal | ⟨hrename, hallow⟩ | ⟨hchange, hallow, hstable⟩
  · rw [ofAgreement_eq_equal_iff, decide_eq_true_iff, hsame] at hequal
    exact .inl hequal
  · exact .inr (.inl ⟨hallow, hsame.1 (sameType_of_ofAgreement_eq_rename hrename)⟩)
  · have hname := of_decide_eq_true (sameName_of_ofAgreement_eq_typeChange hchange)
    rw [hold.typeId_eq hk hi, hnew.typeId_eq hk' hj] at hstable
    exact .inr (.inr ⟨hallow, hname, hstable⟩)

/-- Tolerated edits leave every variable at its position. -/
theorem tolerates_of_forall_rejects (hold : old.Mirrors before) (hnew : new.Mirrors after)
    (h : ∀ edit ∈ old.editsTo new, policy.rejects edit = .ok false) :
    before.stored.length ≤ after.stored.length ∧
      ∀ (k : Nat) (x y : StoredVariable), before.stored[k]? = some x → after.stored[k]? = some y →
        policy.Tolerates before after x y := by
  have hmap : ∀ edit ∈ (Alignment.align EqualityTable.classify old.stored new.stored
      (.ofPools old.types new.types)).1, policy.rejects (edit.map (·.info)) = .ok false :=
    List.forall_mem_map.1 h
  obtain ⟨hle, hscript⟩ := (Alignment.replays_align EqualityTable.classify old.stored new.stored
    (.ofPools old.types new.types)).eq_inPlace fun edit hedit => by
      rw [← Alignment.Edit.keepsPlace_map]
      exact Policy.keepsPlace_of_rejects (hmap edit hedit)
  have hlength := hold.stored.length_eq
  have hlength' := hnew.stored.length_eq
  refine ⟨by omega, fun k x y hx hy => ?_⟩
  obtain ⟨hk, rfl⟩ := List.getElem?_eq_some_iff.1 hx
  obtain ⟨hk', rfl⟩ := List.getElem?_eq_some_iff.1 hy
  have hpair := hmap _ (hscript ▸ Alignment.mem_inPlace (hlength ▸ hk) (hlength' ▸ hk'))
  rw [Alignment.Edit.map_pair] at hpair
  exact tolerates_of_rejects hold hnew hk hk' _ _ hpair

/-- Whatever is tolerated, a check comes to an end for layouts that resolve. It lets no insertion,
deletion or replacement through, and if it rejects nothing, every variable is at its position
and has changed at most in a way that the policy tolerates. -/
theorem check_eq_nil_tolerates (hold : before.resolve = .ok old) (hnew : after.resolve = .ok new)
    (policy : Policy) :
    ∃ rejected, check policy before after = .ok rejected ∧
      (∀ x, .insert x ∈ old.editsTo new → .insert x ∈ rejected) ∧
      (∀ x, .delete x ∈ old.editsTo new → .delete x ∈ rejected) ∧
      (∀ x y, .replace x y ∈ old.editsTo new → .replace x y ∈ rejected) ∧
      (rejected = [] → before.stored.length ≤ after.stored.length ∧
        ∀ (k : Nat) (x y : StoredVariable), before.stored[k]? = some x →
          after.stored[k]? = some y → policy.Tolerates before after x y) := by
  have hmirrors := mirrors_of_resolve hold
  have hmirrors' := mirrors_of_resolve hnew
  obtain ⟨isRejected, hdecides⟩ := exists_isRejected policy hmirrors hmirrors'
  have hmem : ∀ edit ∈ old.editsTo new, policy.rejects edit = .ok true →
      edit ∈ (old.editsTo new).filter isRejected := by
    intro edit hedit hrejects
    rw [hdecides edit hedit, Except.ok.injEq] at hrejects
    exact List.mem_filter.2 ⟨hedit, hrejects⟩
  refine ⟨_, check_of_resolve hold hnew (Policy.rejected_of_forall hdecides),
    fun x hx => hmem _ hx rfl, fun x hx => hmem _ hx rfl, fun x y hxy => hmem _ hxy rfl, ?_⟩
  intro hnil
  refine tolerates_of_forall_rejects hmirrors hmirrors' fun edit hedit => ?_
  rw [hdecides edit hedit, Bool.eq_false_iff.2 (List.filter_eq_nil_iff.1 hnil edit hedit)]

end

/-- A layout with a variable of a type of its own. -/
def Layout.marks (label number field : String) : Layout where
  stored := [
    ⟨"Box", label, "t_uint256", "Box.sol:4:4"⟩,
    ⟨"Box", "mark", "t_struct(Mark)" ++ number ++ "_storage", "Box.sol:5:5"⟩]
  types := .ofList [
    ("t_struct(Mark)" ++ number ++ "_storage",
      ⟨"struct Mark", some (.struct [⟨field, "t_uint256"⟩])⟩),
    ("t_uint256", ⟨"uint256", none⟩)]

/-- A variable gets another name, and a struct another field: both may be tolerated at once. -/
theorem check_eq_nil_tolerates_marks :
    check ⟨true, true⟩ (Layout.marks "count" "3" "x") (Layout.marks "total" "7" "y") = .ok [] ∧
      ∀ (k : Nat) (x y : StoredVariable),
        (Layout.marks "count" "3" "x").stored[k]? = some x →
          (Layout.marks "total" "7" "y").stored[k]? = some y →
            Policy.Tolerates ⟨true, true⟩ (Layout.marks "count" "3" "x")
              (Layout.marks "total" "7" "y") x y := by
  have hcheck : check ⟨true, true⟩ (Layout.marks "count" "3" "x")
      (Layout.marks "total" "7" "y") = .ok [] := by
    decide +kernel
  obtain ⟨old, hold⟩ := exists_ok_of_isOk
    (show (Layout.marks "count" "3" "x").resolve.isOk = true by decide +kernel)
  obtain ⟨new, hnew⟩ := exists_ok_of_isOk
    (show (Layout.marks "total" "7" "y").resolve.isOk = true by decide +kernel)
  obtain ⟨rejected, hrejected, -, -, -, htolerates⟩ := check_eq_nil_tolerates hold hnew ⟨true, true⟩
  rw [hcheck] at hrejected
  cases hrejected
  exact ⟨hcheck, (htolerates rfl).2⟩

end StorageUpgrade
