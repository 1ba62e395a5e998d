import StorageUpgrade.Proofs.NestedQuestions
import StorageUpgrade.Proofs.StrictSafety
import StorageUpgrade.Proofs.SuccessiveUpgrades
import StorageUpgrade.Proofs.TreeAgreement

/-!
# Questions to a table

A table is asked about pairs of types and pairs of variables, in any order and as often as one
likes. Every question about types of two resolved layouts comes to an end inside the pools, with the
answer that a new table would give: types are equal exactly if their trees agree. Equality of types
is therefore an equivalence, also across layouts.
-/

namespace StorageUpgrade

/-- What a table is asked: whether two types are equal, or the verdict on two variables. -/
inductive Question where
  | equal (i j : Nat)
  | classify (before after : ResolvedVariable)

inductive Answer where
  | equal (same : Bool)
  | verdict (verdict : Alignment.Verdict)
deriving DecidableEq

namespace Question

/-- The two types that a question is about. -/
def types : Question → Nat × Nat
  | equal i j => (i, j)
  | classify before after => (before.type, after.type)

/-- The answer, given whether the two types are equal. -/
def answer : Question → Bool → Answer
  | equal _ _, same => .equal same
  | classify before after, same =>
    .verdict (.ofAgreement (before.info.label = after.info.label) same)

def put : Question → StateM EqualityTable Answer
  | equal i j => return .equal (← EqualityTable.ask i j)
  | classify before after => return .verdict (← EqualityTable.classify before after)

/-- A question put with a bound on the questions inside each other. -/
def putWithin (levels : Nat) (question : Question) : StateM (Option EqualityTable) Answer :=
  return question.answer (← EqualityTable.askWithin levels question.types.1 question.types.2)

/-- A question about types of two pools. -/
def IsAbout (question : Question) (before after : TypePool) : Prop :=
  question.types.1 < before.size ∧ question.types.2 < after.size

/-- An answer that takes two types for equal exactly if their trees agree. -/
def IsRight (before after : TypePool) (question : Question) (answer : Answer) : Prop :=
  ∃ tree tree' same, before.HasTree question.types.1 tree ∧ after.HasTree question.types.2 tree' ∧
    (same = true ↔ tree.Agrees tree') ∧ answer = question.answer same

theorem put_apply (question : Question) (table : EqualityTable) :
    question.put table =
      (question.answer (EqualityTable.ask question.types.1 question.types.2 table).1,
        (EqualityTable.ask question.types.1 question.types.2 table).2) := by
  cases question <;> rfl

theorem putWithin_apply (levels : Nat) (question : Question) (state : Option EqualityTable) :
    question.putWithin levels state =
      (question.answer
          (EqualityTable.askWithin levels question.types.1 question.types.2 state).1,
        (EqualityTable.askWithin levels question.types.1 question.types.2 state).2) :=
  rfl

/-- There is one right answer: a type has one tree. -/
theorem IsRight.unique {before after : TypePool} {question : Question} {answer answer' : Answer}
    (h : IsRight before after question answer) (h' : IsRight before after question answer') :
    answer = answer' := by
  obtain ⟨tree, tree', same, htree, htree', hsame, rfl⟩ := h
  obtain ⟨_, _, same', hother, hother', hsame', rfl⟩ := h'
  obtain rfl := htree.unique hother
  obtain rfl := htree'.unique hother'
  rw [Bool.eq_iff_iff.2 (hsame.trans hsame'.symm)]

end Question

theorem mapM_cons_apply {α β σ : Type} (f : α → StateM σ β) (item : α) (items : List α) (s : σ) :
    (item :: items).mapM f s =
      ((f item s).1 :: (items.mapM f (f item s).2).1, (items.mapM f (f item s).2).2) := by
  rw [List.mapM_cons]
  rfl

/-! ## Pools that can be unfolded -/

/-- The trees and the shapes of the types of a pool, by their numbers. -/
structure TypePool.Unfolds (pool : TypePool) (trees : Nat → TypeTree)
    (shapes : Nat → TypeShape) : Prop where
  trees : ∀ k < pool.size, pool.HasTree k (trees k)
  shapes : pool.ShapedBy shapes

theorem TypePool.Mirrors.exists_unfolds {layout : Layout} {pool : TypePool}
    {pending : List String} (h : pool.Mirrors layout pending) :
    ∃ trees shapes, pool.Unfolds trees shapes := by
  obtain ⟨trees, htrees⟩ := exists_expansions TypeTree.node fun k hk => h.descends hk
  obtain ⟨shapes, hshapes, -⟩ := h.exists_shapes
  exact ⟨trees, shapes, htrees, hshapes⟩

theorem TypePool.Unfolds.descends {pool : TypePool} {trees : Nat → TypeTree}
    {shapes : Nat → TypeShape} (h : pool.Unfolds trees shapes) {k : Nat} (hk : k < pool.size) :
    ∃ node, pool.node? k = some node ∧ ∀ r ∈ node.references, r < k := by
  obtain ⟨node, hnode, hlt, -⟩ := h.shapes k hk
  exact ⟨node, hnode, hlt⟩

namespace EqualityTable

section

variable {before after : TypePool} {trees trees' : Nat → TypeTree}
  {shapes shapes' : Nat → TypeShape}
  (hbefore : before.Unfolds trees shapes) (hafter : after.Unfolds trees' shapes')
include hbefore hafter

theorem isEqual_ofPools_iff {i j : Nat} (hi : i < before.size) (hj : j < after.size) :
    (ofPools before after).isEqual i j = true ↔ shapes i = shapes' j :=
  (decides_ask hbefore.shapes hafter.shapes hi hj _
    (sound_ofPools before after shapes shapes')).1

/-! ## One question and the next -/

/-- A question to a table that remembers nothing wrong has the right answer, leaves such a table,
and needs no more levels than the first pool has types. -/
theorem put_of_sound {question : Question} (hquestion : question.IsAbout before after)
    {table : EqualityTable} (htable : Sound before after shapes shapes' table) :
    question.putWithin before.size (some table) =
        ((question.put table).1, some (question.put table).2) ∧
      question.IsRight before after (question.put table).1 ∧
      Sound before after shapes shapes' (question.put table).2 := by
  obtain ⟨hi, hj⟩ := hquestion
  obtain ⟨hanswer, hsound⟩ := decides_ask hbefore.shapes hafter.shapes hi hj table htable
  have hagrees := TypePool.agrees_iff_shape_eq hbefore.trees hafter.trees hbefore.shapes
    hafter.shapes hi hj
  rw [question.put_apply, question.putWithin_apply,
    askWithin_eq (fun _ => hbefore.descends) (fun _ => hafter.descends) htable.before_eq
      htable.after_eq hi hj]
  refine ⟨rfl, ?_, hsound⟩
  exact ⟨_, _, _, hbefore.trees _ hi, hafter.trees _ hj, hanswer.trans hagrees.symm, rfl⟩

/-- What was asked before is no matter. -/
theorem put_eq_put_ofPools {question : Question} (hquestion : question.IsAbout before after)
    {table : EqualityTable} (htable : Sound before after shapes shapes' table) :
    (question.put table).1 = (question.put (ofPools before after)).1 := by
  obtain ⟨-, hright, -⟩ := put_of_sound hbefore hafter hquestion htable
  obtain ⟨-, hright', -⟩ := put_of_sound hbefore hafter hquestion
    (sound_ofPools before after shapes shapes')
  exact hright.unique hright'

/-- All questions of a list have their right answers, which are those of new tables. -/
theorem mapM_put_of_sound {questions : List Question}
    (hquestions : ∀ question ∈ questions, question.IsAbout before after) {table : EqualityTable}
    (htable : Sound before after shapes shapes' table) :
    ∃ answers last, questions.mapM Question.put table = (answers, last) ∧
      questions.mapM (Question.putWithin before.size) (some table) = (answers, some last) ∧
      List.Forall₂ (Question.IsRight before after) questions answers ∧
      answers = questions.map fun question => (question.put (ofPools before after)).1 := by
  induction questions generalizing table with
  | nil => exact ⟨[], table, rfl, rfl, .nil, rfl⟩
  | cons question questions ih =>
    rw [List.forall_mem_cons] at hquestions
    obtain ⟨hquestion, hothers⟩ := hquestions
    obtain ⟨hwithin, hright, hsound⟩ := put_of_sound hbefore hafter hquestion htable
    obtain ⟨answers, last, hput, hputWithin, hanswers, hnew⟩ := ih hothers hsound
    refine ⟨(question.put table).1 :: answers, last, ?_, ?_, .cons hright hanswers, ?_⟩
    · rw [mapM_cons_apply, hput]
    · rw [mapM_cons_apply, hwithin, hputWithin]
    · rw [List.map_cons, ← hnew, put_eq_put_ofPools hbefore hafter hquestion htable]

end

/-! ## Tables of resolved layouts -/

/-- Questions about resolved layouts are all answered, with at most as many levels of questions
inside each other as the first pool has types and without reading a missing entry. Types are equal
exactly if their trees agree, and it does not matter what was asked before. So each type is equal to
itself, the layouts can be exchanged, and equality is passed on from layout to layout. -/
theorem mapM_put_of_resolve {first second third : Layout} {a b c : ResolvedLayout}
    (ha : first.resolve = .ok a) (hb : second.resolve = .ok b) (hc : third.resolve = .ok c) :
    (∀ questions : List Question,
      (∀ question ∈ questions, question.IsAbout a.types b.types) →
      ∃ answers last,
        questions.mapM Question.put (ofPools a.types b.types) = (answers, last) ∧
        questions.mapM (Question.putWithin a.types.size) (some (ofPools a.types b.types)) =
          (answers, some last) ∧
        List.Forall₂ (Question.IsRight a.types b.types) questions answers ∧
        answers = questions.map fun question => (question.put (ofPools a.types b.types)).1) ∧
    (∀ i < a.types.size, (ofPools a.types a.types).isEqual i i = true) ∧
    (∀ i < a.types.size, ∀ j < b.types.size,
      (ofPools a.types b.types).isEqual i j = (ofPools b.types a.types).isEqual j i) ∧
    ∀ i < a.types.size, ∀ j < b.types.size, ∀ k < c.types.size,
      (ofPools a.types b.types).isEqual i j = true →
      (ofPools b.types c.types).isEqual j k = true →
      (ofPools a.types c.types).isEqual i k = true := by
  obtain ⟨treesA, shapesA, hunfoldsA⟩ := (mirrors_of_resolve ha).pool.exists_unfolds
  obtain ⟨treesB, shapesB, hunfoldsB⟩ := (mirrors_of_resolve hb).pool.exists_unfolds
  obtain ⟨treesC, shapesC, hunfoldsC⟩ := (mirrors_of_resolve hc).pool.exists_unfolds
  refine ⟨fun questions hquestions => ?_, fun i hi => ?_, fun i hi j hj => ?_,
    fun i hi j hj k hk hij hjk => ?_⟩
  · exact mapM_put_of_sound hunfoldsA hunfoldsB hquestions (sound_ofPools _ _ shapesA shapesB)
  · rw [isEqual_ofPools_iff hunfoldsA hunfoldsA hi hi]
  · rw [Bool.eq_iff_iff, isEqual_ofPools_iff hunfoldsA hunfoldsB hi hj,
      isEqual_ofPools_iff hunfoldsB hunfoldsA hj hi]
    exact eq_comm
  · rw [isEqual_ofPools_iff hunfoldsA hunfoldsB hi hj] at hij
    rw [isEqual_ofPools_iff hunfoldsB hunfoldsC hj hk] at hjk
    rw [isEqual_ofPools_iff hunfoldsA hunfoldsC hi hk]
    exact hij.trans hjk

def pointVariable (label : String) : ResolvedVariable :=
  ⟨⟨"Box", label, "t_struct(Point)_storage", "struct Point", "Box.sol:4:4"⟩, 1⟩

/-- Points have the number 1, and numbers the number 0. -/
def pointQuestions : List Question :=
  [.equal 1 1, .classify (pointVariable "start") (pointVariable "stop"), .equal 1 0, .equal 1 1]

/-- The points of three releases, with other numbers of their declaration each time. -/
theorem mapM_put_of_resolve_points :
    ∃ a b c, (Layout.points "3").resolve = .ok a ∧ (Layout.points "5").resolve = .ok b ∧
      (Layout.countedPoints "8").resolve = .ok c ∧
      List.Forall₂ (Question.IsRight a.types b.types) pointQuestions
        [.equal true, .verdict .rename, .equal false, .equal true] ∧
      (ofPools a.types c.types).isEqual 1 1 = true := by
  have hrun : (do
      let a ← (Layout.points "3").resolve
      let b ← (Layout.points "5").resolve
      let c ← (Layout.countedPoints "8").resolve
      return ((a.types.size, b.types.size, c.types.size),
        (pointQuestions.mapM Question.put (ofPools a.types b.types)).1,
        (ofPools a.types b.types).isEqual 1 1, (ofPools b.types c.types).isEqual 1 1)) =
      .ok ((2, 2, 2), [.equal true, .verdict .rename, .equal false, .equal true], true, true) := by
    decide +kernel
  obtain ⟨a, ha, hrun⟩ := bind_eq_ok_iff.1 hrun
  obtain ⟨b, hb, hrun⟩ := bind_eq_ok_iff.1 hrun
  obtain ⟨c, hc, hrun⟩ := bind_eq_ok_iff.1 hrun
  simp only [pure_eq_ok_iff, Prod.mk.injEq] at hrun
  obtain ⟨⟨hsizeA, hsizeB, hsizeC⟩, hanswers, hequalAB, hequalBC⟩ := hrun
  obtain ⟨hquestions, -, -, htrans⟩ := mapM_put_of_resolve ha hb hc
  have habout : ∀ question ∈ pointQuestions, question.IsAbout a.types b.types := by
    simp only [Question.IsAbout, hsizeA, hsizeB]
    decide
  obtain ⟨answers, last, hput, -, hright, -⟩ := hquestions pointQuestions habout
  rw [hput] at hanswers
  cases hanswers
  refine ⟨a, b, c, ha, hb, hc, hright, ?_⟩
  exact htrans 1 (by omega) 1 (by omega) 1 (by omega) hequalAB hequalBC

end EqualityTable

end StorageUpgrade
