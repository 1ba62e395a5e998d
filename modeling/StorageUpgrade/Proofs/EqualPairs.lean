import StorageUpgrade.Proofs.InPlaceScripts

/-!
# Pairs of equal items

Whatever a script pairs it neither inserts nor deletes, so what a valid script costs is known from
the numbers of equal and of unequal items that it pairs. One equal pair is worth four unequal ones:
scripts of least cost may differ in the number of their equal pairs, and the chosen script need not
have the most of them. It falls short by at most one for every four unequal pairs that it has. Ties
are broken from the end on, edit by edit; there an equal pair is given up for an append only.
-/

namespace StorageUpgrade.Alignment

variable {α σ : Type}

namespace Edit

def isEqual : Edit α → Bool
  | equal => true
  | _ => false

/-- Whether an edit pairs items that are not equal. -/
def isChange : Edit α → Bool
  | rename .. | typeChange .. | replace .. => true
  | _ => false

/-- Whether an edit consumes an item of the first list. -/
def takesBefore : Edit α → Bool
  | insert _ | append _ => false
  | _ => true

/-- Whether an edit consumes an item of the second list. -/
def takesAfter : Edit α → Bool
  | delete _ => false
  | _ => true

theorem takesBefore_pair (verdict : Verdict) (x y : α) :
    (pair verdict x y).takesBefore = true := by
  cases verdict <;> rfl

theorem takesAfter_pair (verdict : Verdict) (x y : α) : (pair verdict x y).takesAfter = true := by
  cases verdict <;> rfl

theorem pair_eq_equal_iff {verdict : Verdict} {x y : α} :
    pair verdict x y = .equal ↔ verdict = .equal := by
  cases verdict <;> simp [pair]

end Edit

/-! ## What a script costs -/

/-- An equal pair saves an insertion and a deletion, an unequal one a quarter of them. -/
theorem scriptCost_add_pairs (script : List (Edit α)) :
    scriptCost script + 4 * script.countP Edit.isEqual + script.countP Edit.isChange =
      2 * (script.countP Edit.takesBefore + script.countP Edit.takesAfter) := by
  induction script with
  | nil => rfl
  | cons edit script ih =>
    cases edit <;>
      simp only [scriptCost_cons, Edit.cost, Verdict.changeCost, insertionCost, deletionCost,
        List.countP_cons, Edit.isEqual, Edit.isChange, Edit.takesBefore, Edit.takesAfter, if_true,
        Bool.false_eq_true, if_false] <;>
      omega

section

variable {verdict : Nat → Nat → Verdict} {before after : List α}

/-- The positions that a valid script starts from are read off what it consumes. -/
theorem Replays.countP_takes {i j : Nat} {script : List (Edit α)}
    (h : Replays verdict before after i j script) :
    script.countP Edit.takesBefore + i = before.length ∧
      script.countP Edit.takesAfter + j = after.length := by
  induction h with
  | done => simp
  | pair _ _ _ ih =>
    rw [List.countP_cons_of_pos (Edit.takesBefore_pair ..),
      List.countP_cons_of_pos (Edit.takesAfter_pair ..)]
    omega
  | delete _ _ ih | insert _ _ _ ih | append _ _ ih =>
    simp only [List.countP_cons, Edit.takesBefore, Edit.takesAfter, if_true, Bool.false_eq_true,
      if_false]
    omega

/-- The edits at the end of a valid script are valid from some positions on. -/
theorem Replays.exists_of_append {i j : Nat} {front later : List (Edit α)}
    (h : Replays verdict before after i j (front ++ later)) :
    ∃ k l, Replays verdict before after k l later := by
  induction front generalizing i j with
  | nil => exact ⟨i, j, h⟩
  | cons edit front ih =>
    rw [List.cons_append] at h
    generalize hscript : edit :: (front ++ later) = script at h
    cases h with
    | done => cases hscript
    | pair _ _ hlater | delete _ hlater | insert _ _ hlater | append _ hlater =>
      rw [(List.cons.inj hscript).2.symm] at hlater
      exact ih hlater

theorem Replays.of_equal {i j : Nat} {later : List (Edit α)}
    (h : Replays verdict before after i j (.equal :: later)) :
    verdict i j = .equal ∧ Replays verdict before after (i + 1) (j + 1) later := by
  generalize hscript : .equal :: later = script at h
  cases h with
  | pair _ _ hlater =>
    obtain ⟨hedit, rfl⟩ := List.cons.inj hscript
    exact ⟨Edit.pair_eq_equal_iff.1 hedit.symm, hlater⟩
  | _ => cases hscript

/-- A valid script of which no other costs less. -/
structure Cheapest (verdict : Nat → Nat → Verdict) (before after : List α)
    (script : List (Edit α)) : Prop where
  replays : Replays verdict before after 0 0 script
  least : ∀ other, Replays verdict before after 0 0 other → scriptCost script ≤ scriptCost other

/-- Among cheapest scripts, four unequal pairs stand against one equal pair. -/
theorem Cheapest.pairs_eq {script other : List (Edit α)}
    (h : Cheapest verdict before after script) (hother : Cheapest verdict before after other) :
    4 * other.countP Edit.isEqual + other.countP Edit.isChange =
      4 * script.countP Edit.isEqual + script.countP Edit.isChange := by
  have hcost : scriptCost script = scriptCost other :=
    Nat.le_antisymm (h.least other hother.replays) (hother.least script h.replays)
  have hpairs := scriptCost_add_pairs script
  have hpairs' := scriptCost_add_pairs other
  have htakes := h.replays.countP_takes
  have htakes' := hother.replays.countP_takes
  omega

/-! ## The last edits of the chosen script -/

/-- An equal pair that could stand last is passed over for an append only. -/
theorem LastEdit.eq_equal_or_append {i j k l i' j' : Nat} {edit : Edit α}
    (h : LastEdit verdict before after k l edit i' j') (hk : k = i + 1) (hl : l = j + 1)
    (hequal : verdict i j = .equal) : edit = .equal ∨ ∃ y, edit = .append y := by
  have hcost : leastCost verdict (i + 1) (j + 1) = leastCost verdict i j + (verdict i j).cost := by
    rw [leastCost_of_equal verdict hequal, hequal]
    rfl
  cases h with
  | append => exact .inr ⟨_, rfl⟩
  | pair =>
    cases hk
    cases hl
    exact .inl (Edit.pair_eq_equal_iff.2 hequal)
  | insert _ _ _ hpair =>
    cases hl
    exact absurd hcost (hpair i hk)
  | delete _ _ _ hpair =>
    cases hk
    exact absurd hcost (hpair j hl)

/-- Scripts that the walk from the end can choose, edit by edit. -/
inductive Walks (verdict : Nat → Nat → Verdict) (before after : List α) :
    Nat → Nat → List (Edit α) → Prop
  | done : Walks verdict before after before.length after.length []
  | step {i j i' j' : Nat} {edit : Edit α} {later : List (Edit α)}
      (hlast : LastEdit verdict before after i j edit i' j')
      (h : Walks verdict before after i j later) : Walks verdict before after i' j' (edit :: later)

theorem Walks.replays {i j : Nat} {script : List (Edit α)}
    (h : Walks verdict before after i j script) : Replays verdict before after i j script := by
  induction h with
  | done => exact .done
  | step hlast _ ih => exact hlast.replays ih

/-- Every edit was a last edit when it was chosen. -/
theorem Walks.exists_lastEdit {k l : Nat} {front later : List (Edit α)} {edit : Edit α}
    (h : Walks verdict before after k l (front ++ edit :: later)) :
    ∃ i j i' j', LastEdit verdict before after i j edit i' j' ∧
      Walks verdict before after i j later := by
  induction front generalizing k l with
  | nil =>
    cases h with
    | step hlast hlater => exact ⟨_, _, _, _, hlast, hlater⟩
  | cons first front ih =>
    cases h with
    | step _ hlater => exact ih hlater

end

section

variable (classify : α → α → StateM σ Verdict) (before after : List α) (s : σ)

theorem scriptCost_align : scriptCost (align classify before after s).1 =
    leastCost (given classify before after s) before.length after.length := by
  obtain ⟨script, hscript, -, hcost⟩ :=
    exists_replays_cost_eq (length_classifyAll classify before after s)
  rw [script?_classifyAll] at hscript
  cases hscript
  exact hcost

theorem cheapest_align :
    Cheapest (given classify before after s) before after (align classify before after s).1 := by
  refine ⟨replays_align classify before after s, fun other hother => ?_⟩
  have hle := hother.leastCost_le
  rwa [leastCost_zero_zero, Nat.zero_add, ← scriptCost_align classify before after s] at hle

theorem walks_align : Walks (given classify before after s) before after 0 0
    (align classify before after s).1 := by
  have hscript : ∃ script, script? (classifyAll classify before after s).1 before after =
      some script ∧ Walks (given classify before after s) before after 0 0 script :=
    script?_induction (length_classifyAll classify before after s)
      (motive := Walks (given classify before after s) before after) .done fun hlast => .step hlast
  obtain ⟨script, hsome, hwalks⟩ := hscript
  rw [script?_classifyAll] at hsome
  cases hsome
  exact hwalks

end

/-! ## How many equal pairs are kept -/

/-- Compares items by their names and by their types. -/
def compareNamed (x y : String × String) : StateM Unit Verdict :=
  pure (.ofAgreement (x.1 = y.1) (x.2 = y.2))

/-- The chosen script is a cheapest one. No cheapest script has more equal pairs than it, but for one
for every four unequal pairs of the chosen script; so if these are fewer than four, it has the most.
Read from the end, another valid script parts from the chosen one by an equal pair only where that
one appends. -/
theorem countP_isEqual_align (classify : α → α → StateM σ Verdict) (before after : List α) (s : σ) :
    ∃ script, (align? classify before after s).1 = some script ∧
      Cheapest (given classify before after s) before after script ∧
      (∀ other, Cheapest (given classify before after s) before after other →
        other.countP Edit.isEqual ≤
          script.countP Edit.isEqual + script.countP Edit.isChange / 4) ∧
      (script.countP Edit.isChange < 4 →
        ∀ other, Cheapest (given classify before after s) before after other →
          other.countP Edit.isEqual ≤ script.countP Edit.isEqual) ∧
      ∀ front edit later front', script = front ++ edit :: later →
        Replays (given classify before after s) before after 0 0 (front' ++ .equal :: later) →
        edit = .equal ∨ ∃ y, edit = .append y := by
  have hcheapest := cheapest_align classify before after s
  refine ⟨_, congrArg Prod.fst (align?_eq classify before after s), hcheapest, ?_, ?_, ?_⟩
  · intro other hother
    have hpairs := hcheapest.pairs_eq hother
    omega
  · intro hfew other hother
    have hpairs := hcheapest.pairs_eq hother
    omega
  · intro front edit later front' hscript hother
    have hwalks := walks_align classify before after s
    rw [hscript] at hwalks
    obtain ⟨i, j, i', j', hlast, hlater⟩ := hwalks.exists_lastEdit
    obtain ⟨k, l, hequal⟩ := hother.exists_of_append
    obtain ⟨hverdict, hlater'⟩ := hequal.of_equal
    have hplace := hlater.replays.countP_takes
    have hplace' := hlater'.countP_takes
    exact hlast.eq_equal_or_append (by omega) (by omega) hverdict

/-- One item is removed in front and another one is added behind: the three others are kept. -/
theorem countP_isEqual_align_shift :
    (align? compareNamed [("a", "t"), ("b", "u"), ("c", "v"), ("d", "w")]
        [("b", "u"), ("c", "v"), ("d", "w"), ("e", "p")] ()).1 =
      some [.delete ("a", "t"), .equal, .equal, .equal, .append ("e", "p")] ∧
    ∀ other, Cheapest (given compareNamed [("a", "t"), ("b", "u"), ("c", "v"), ("d", "w")]
        [("b", "u"), ("c", "v"), ("d", "w"), ("e", "p")] ())
      [("a", "t"), ("b", "u"), ("c", "v"), ("d", "w")]
      [("b", "u"), ("c", "v"), ("d", "w"), ("e", "p")] other → other.countP Edit.isEqual ≤ 3 := by
  obtain ⟨script, hscript, -, -, hmost, -⟩ := countP_isEqual_align compareNamed
    [("a", "t"), ("b", "u"), ("c", "v"), ("d", "w")]
    [("b", "u"), ("c", "v"), ("d", "w"), ("e", "p")] ()
  have hchosen : (align? compareNamed [("a", "t"), ("b", "u"), ("c", "v"), ("d", "w")]
      [("b", "u"), ("c", "v"), ("d", "w"), ("e", "p")] ()).1 =
        some [.delete ("a", "t"), .equal, .equal, .equal, .append ("e", "p")] := by
    decide +kernel
  rw [hchosen] at hscript
  cases hscript
  exact ⟨hchosen, hmost (by decide)⟩

def fourItems : List (String × String) := [("x", "t"), ("a", "u"), ("b", "v"), ("c", "w")]

/-- Other items, but for the last, which is the first of the four. -/
def fourOthers : List (String × String) := [("d", "p"), ("e", "q"), ("f", "r"), ("x", "t")]

/-- Replacing the four items in place costs as much as the longer way that keeps one of them. -/
theorem exists_cheapest_of_more_equal :
    ∃ script other,
      (align? compareNamed fourItems fourOthers ()).1 = some script ∧
      Cheapest (given compareNamed fourItems fourOthers ()) fourItems fourOthers other ∧
      script.countP Edit.isEqual < other.countP Edit.isEqual := by
  have hchosen : (align? compareNamed fourItems fourOthers ()).1 = some [
      .replace ("x", "t") ("d", "p"), .replace ("a", "u") ("e", "q"),
      .replace ("b", "v") ("f", "r"), .replace ("c", "w") ("x", "t")] := by
    decide +kernel
  have halign := hchosen
  rw [align?_eq, Option.some.injEq] at halign
  have hcheapest := cheapest_align compareNamed fourItems fourOthers ()
  rw [halign] at hcheapest
  have hequal : given compareNamed fourItems fourOthers () 0 3 = .equal := by
    decide +kernel
  have hkeep : Replays (given compareNamed fourItems fourOthers ()) fourItems fourOthers 0 3
      (.pair (given compareNamed fourItems fourOthers () 0 3) ("x", "t") ("x", "t") ::
        [.delete ("a", "u"), .delete ("b", "v"), .delete ("c", "w")]) :=
    .pair (by decide) (by decide)
      (.delete (by decide) (.delete (by decide) (.delete (by decide) .done)))
  rw [hequal] at hkeep
  exact ⟨_, _, hchosen, ⟨.insert (by decide) (by decide) (.insert (by decide) (by decide)
    (.insert (by decide) (by decide) hkeep)), hcheapest.least⟩, by decide⟩

end StorageUpgrade.Alignment
