import Mathlib.Data.List.Induction
import StorageUpgrade.Proofs.EqualPairs

/-!
# How ties are broken

Scripts of least cost are compared from their last edits backwards. Where the chosen script parts
from another one, its edit has the higher priority: an append comes before a pairing, that before an
insertion, and a deletion comes last. The walk decides edit by edit and never looks ahead; that its
choice is the first one among all scripts of least cost is what is shown here.
-/

namespace StorageUpgrade.Alignment

variable {α σ : Type}

/-- Which of two edits is preferred where both could stand last. -/
def Edit.priority : Edit α → Nat
  | append _ => 3
  | equal | rename .. | typeChange .. | replace .. => 2
  | insert _ => 1
  | delete _ => 0

theorem Edit.priority_pair (verdict : Verdict) (x y : α) : (pair verdict x y).priority = 2 := by
  cases verdict <;> rfl

theorem Edit.priority_le_append (edit : Edit α) (y : α) : edit.priority ≤ (append y).priority := by
  cases edit <;> simp [priority]

/-- Read from their ends, the two scripts part where the first one has the edit of higher
priority. -/
def Precedes (script other : List (Edit α)) : Prop :=
  ∃ front edit front' edit' later, script = front ++ edit :: later ∧
    other = front' ++ edit' :: later ∧ edit'.priority < edit.priority

/-! ## Where two lists part -/

section

variable {β : Type}

theorem eq_of_cons_suffix {x y : β} {later items : List β} (hx : x :: later <:+ items)
    (hy : y :: later <:+ items) : x = y := by
  have hsuffix : x :: later <:+ y :: later := List.suffix_of_suffix_length_le hx hy (Nat.le_refl _)
  exact (List.cons.inj (hsuffix.eq_of_length rfl)).1

/-- Two lists of which neither is the end of the other have a last difference. -/
theorem exists_last_difference {xs ys : List β} (hxs : ¬ xs <:+ ys) (hys : ¬ ys <:+ xs) :
    ∃ front x front' y later, xs = front ++ x :: later ∧ ys = front' ++ y :: later ∧ x ≠ y := by
  induction xs using List.reverseRecOn generalizing ys with
  | nil => exact absurd List.nil_suffix hxs
  | append_singleton xs x ih =>
    rcases List.eq_nil_or_concat ys with rfl | ⟨ys, y, rfl⟩
    · exact absurd List.nil_suffix hys
    rw [List.concat_eq_append] at hxs hys ⊢
    by_cases hxy : x = y
    · subst hxy
      rw [List.suffix_append_self_iff] at hxs hys
      obtain ⟨front, x', front', y', later, rfl, rfl, hne⟩ := ih hxs hys
      exact ⟨front, x', front', y', later ++ [x], by simp, by simp, hne⟩
    · exact ⟨xs, x, ys, y, [], rfl, rfl, hxy⟩

end

theorem Precedes.asymm {script other : List (Edit α)} (h : Precedes script other) :
    ¬ Precedes other script := by
  obtain ⟨front, edit, front', edit', later, hscript, hother, hlt⟩ := h
  rintro ⟨last', old', last, old, rest, hother', hscript', hlt'⟩
  have hedit : edit :: later <:+ script := ⟨front, hscript.symm⟩
  have hedit' : edit' :: later <:+ other := ⟨front', hother.symm⟩
  have hold : old :: rest <:+ script := ⟨last, hscript'.symm⟩
  have hold' : old' :: rest <:+ other := ⟨last', hother'.symm⟩
  -- Whichever common end is the shorter one, both scripts go on from it with the same edit.
  rcases Nat.lt_trichotomy later.length rest.length with hshort | hsame | hshort
  · have hrest : edit :: later <:+ rest := List.suffix_of_suffix_length_le hedit
      ((List.suffix_cons old rest).trans hold) hshort
    have hrest' : edit' :: later <:+ rest := List.suffix_of_suffix_length_le hedit'
      ((List.suffix_cons old' rest).trans hold') hshort
    rw [eq_of_cons_suffix hrest hrest'] at hlt
    exact Nat.lt_irrefl _ hlt
  · have hlater : later <:+ rest := List.suffix_of_suffix_length_le
      ((List.suffix_cons edit later).trans hedit) ((List.suffix_cons old rest).trans hold)
      (Nat.le_of_eq hsame)
    obtain rfl := hlater.eq_of_length hsame
    rw [eq_of_cons_suffix hedit hold, eq_of_cons_suffix hedit' hold'] at hlt
    exact Nat.lt_asymm hlt hlt'
  · have hlater : old :: rest <:+ later := List.suffix_of_suffix_length_le hold
      ((List.suffix_cons edit later).trans hedit) hshort
    have hlater' : old' :: rest <:+ later := List.suffix_of_suffix_length_le hold'
      ((List.suffix_cons edit' later).trans hedit') hshort
    rw [eq_of_cons_suffix hlater hlater'] at hlt'
    exact Nat.lt_irrefl _ hlt'

/-- A script that precedes another one ends in all the appends that the other one ends in. -/
theorem Precedes.appends_suffix {script other : List (Edit α)} (h : Precedes script other)
    {items : List α} (hitems : items.map .append <:+ other) : items.map .append <:+ script := by
  obtain ⟨front, edit, front', edit', later, rfl, rfl, hlt⟩ := h
  rcases Nat.lt_or_ge later.length (items.map Edit.append).length with hlong | hshort
  · -- The edit where the two part would be an append, and nothing comes before an append.
    have hedit : edit' :: later <:+ items.map .append :=
      List.suffix_of_suffix_length_le (List.suffix_append front' _) hitems hlong
    obtain ⟨y, -, rfl⟩ := List.mem_map.1 (hedit.subset List.mem_cons_self)
    exact absurd hlt (Nat.not_lt.2 (edit.priority_le_append y))
  · have hlater : items.map .append <:+ later := List.suffix_of_suffix_length_le hitems
      ((List.suffix_cons edit' later).trans (List.suffix_append front' _)) hshort
    exact hlater.trans ((List.suffix_cons edit later).trans (List.suffix_append front _))

/-! ## The edits of a cheapest script -/

section

variable {verdict : Nat → Nat → Verdict} {before after : List α}

/-- One edit of a valid script, with the positions behind and before it. -/
inductive Advances (verdict : Nat → Nat → Verdict) (before after : List α) :
    Nat → Nat → Edit α → Nat → Nat → Prop
  | pair {i j : Nat} (hi : i < before.length) (hj : j < after.length) :
      Advances verdict before after (i + 1) (j + 1) (.pair (verdict i j) before[i] after[j]) i j
  | delete {i j : Nat} (hi : i < before.length) :
      Advances verdict before after (i + 1) j (.delete before[i]) i j
  | insert {i j : Nat} (hi : i < before.length) (hj : j < after.length) :
      Advances verdict before after i (j + 1) (.insert after[j]) i j
  | append {j : Nat} (hj : j < after.length) :
      Advances verdict before after before.length (j + 1) (.append after[j]) before.length j

theorem Replays.exists_advances {i j : Nat} {edit : Edit α} {later : List (Edit α)}
    (h : Replays verdict before after i j (edit :: later)) :
    ∃ k l, Advances verdict before after k l edit i j ∧ Replays verdict before after k l later := by
  cases h with
  | pair hi hj hlater => exact ⟨_, _, .pair hi hj, hlater⟩
  | delete hi hlater => exact ⟨_, _, .delete hi, hlater⟩
  | insert hi hj hlater => exact ⟨_, _, .insert hi hj, hlater⟩
  | append hj hlater => exact ⟨_, _, .append hj, hlater⟩

theorem Advances.leastCost_le {i j k l : Nat} {edit : Edit α}
    (h : Advances verdict before after k l edit i j) :
    leastCost verdict k l ≤ leastCost verdict i j + edit.cost := by
  cases h with
  | pair =>
    rw [Edit.cost_pair]
    exact leastCost_pair_le verdict i j
  | delete => exact leastCost_delete_le verdict i j
  | insert => exact leastCost_insert_le verdict i j
  | append => exact leastCost_insert_le verdict before.length j

/-- What a valid script does first costs at least the least cost of the items it consumes. -/
theorem Replays.exists_leastCost_le {i j : Nat} {front later : List (Edit α)}
    (h : Replays verdict before after i j (front ++ later)) :
    ∃ k l, Replays verdict before after k l later ∧
      leastCost verdict k l ≤ leastCost verdict i j + scriptCost front := by
  induction front generalizing i j with
  | nil => exact ⟨i, j, h, Nat.le_refl _⟩
  | cons edit front ih =>
    obtain ⟨i', j', hadvances, hlater⟩ := h.exists_advances
    obtain ⟨k, l, hreplays, hle⟩ := ih hlater
    have hedit := hadvances.leastCost_le
    refine ⟨k, l, hreplays, ?_⟩
    rw [scriptCost_cons]
    omega

/-- Every edit of a cheapest script accounts for the least cost of the items up to it. -/
theorem Replays.exists_leastCost_eq {front later : List (Edit α)} {edit : Edit α}
    (h : Replays verdict before after 0 0 (front ++ edit :: later))
    (hcost : scriptCost (front ++ edit :: later) ≤ leastCost verdict before.length after.length) :
    ∃ i j k l, Advances verdict before after k l edit i j ∧
      leastCost verdict k l = leastCost verdict i j + edit.cost ∧
      Replays verdict before after k l later := by
  obtain ⟨i, j, hreplays, hfront⟩ := h.exists_leastCost_le
  obtain ⟨k, l, hadvances, hlater⟩ := hreplays.exists_advances
  have hedit := hadvances.leastCost_le
  have hrest := hlater.leastCost_le
  rw [leastCost_zero_zero, Nat.zero_add] at hfront
  rw [scriptCost_append, scriptCost_cons] at hcost
  exact ⟨i, j, k, l, hadvances, by omega, hlater⟩

/-- Of all edits that could stand last, the one that does has the highest priority. -/
theorem LastEdit.eq_or_priority_lt {i j k l i' j' k' l' : Nat} {edit other : Edit α}
    (h : LastEdit verdict before after k l edit i j)
    (hother : Advances verdict before after k' l' other i' j') (hk : k' = k) (hl : l' = l)
    (hcost : leastCost verdict k' l' = leastCost verdict i' j' + other.cost) :
    other = edit ∨ other.priority < edit.priority := by
  cases h with
  | append =>
    cases hother with
    | pair => exact .inr (by rw [Edit.priority_pair]; exact Nat.lt_succ_self 2)
    | delete | insert => exact .inr (by simp [Edit.priority])
    | append =>
      cases hl
      exact .inl rfl
  | pair _ _ _ hlater =>
    cases hother with
    | delete | insert => exact .inr (by rw [Edit.priority_pair]; simp [Edit.priority])
    | pair =>
      cases hk
      cases hl
      exact .inl rfl
    | append =>
      cases hl
      rw [hk] at hcost
      exact absurd hcost (hlater hk.symm)
  | insert hi _ _ hpair =>
    cases hother with
    | delete => exact .inr (by simp [Edit.priority])
    | insert =>
      cases hl
      exact .inl rfl
    | pair =>
      cases hl
      rw [Edit.cost_pair] at hcost
      exact absurd hcost (hpair _ hk.symm)
    | append => exact absurd hk (Nat.ne_of_gt hi)
  | delete _ _ _ hpair hinsert =>
    cases hother with
    | delete =>
      cases hk
      exact .inl rfl
    | pair =>
      cases hk
      rw [Edit.cost_pair] at hcost
      exact absurd hcost (hpair _ hl.symm)
    | insert | append =>
      rw [hk] at hcost
      exact absurd hcost (hinsert _ hl.symm)

/-- Every edit consumes something. -/
theorem Edit.takesBefore_or_takesAfter (edit : Edit α) :
    edit.takesBefore = true ∨ edit.takesAfter = true := by
  cases edit <;> simp [takesBefore, takesAfter]

/-- A valid script is not the end of another one. -/
theorem Replays.eq_of_suffix {i j : Nat} {script other : List (Edit α)}
    (h : Replays verdict before after i j script) (hother : Replays verdict before after i j other)
    (hsuffix : script <:+ other) : script = other := by
  obtain ⟨front, rfl⟩ := hsuffix
  have htakes := h.countP_takes
  have htakes' := hother.countP_takes
  simp only [List.countP_append] at htakes'
  cases front with
  | nil => rfl
  | cons edit front =>
    exfalso
    rw [List.countP_cons, List.countP_cons] at htakes'
    rcases edit.takesBefore_or_takesAfter with hedit | hedit <;>
    · simp only [hedit, if_true] at htakes'
      omega

end

/-! ## The chosen script -/

section

variable (classify : α → α → StateM σ Verdict) (before after : List α) (s : σ)

/-- The chosen script precedes every other script of least cost. -/
theorem precedes_align {other : List (Edit α)}
    (hother : Cheapest (given classify before after s) before after other)
    (hne : other ≠ (align classify before after s).1) :
    Precedes (align classify before after s).1 other := by
  have hreplays := replays_align classify before after s
  have hleast := hother.least _ hreplays
  rw [scriptCost_align] at hleast
  obtain ⟨front, edit, front', edit', later, hscript, rfl, hedit⟩ := exists_last_difference
    (fun hsuffix => hne (hreplays.eq_of_suffix hother.replays hsuffix).symm)
    (fun hsuffix => hne (hother.replays.eq_of_suffix hreplays hsuffix))
  have hwalks := walks_align classify before after s
  rw [hscript] at hwalks
  obtain ⟨k, l, i, j, hlast, hlater⟩ := hwalks.exists_lastEdit
  obtain ⟨i', j', k', l', hadvances, hcost, hlater'⟩ := hother.replays.exists_leastCost_eq hleast
  -- The common end of the two scripts says where both of them are.
  have hplace := hlater.replays.countP_takes
  have hplace' := hlater'.countP_takes
  rcases hlast.eq_or_priority_lt hadvances (by omega) (by omega) hcost with heq | hlt
  · exact absurd heq.symm hedit
  · exact ⟨front, edit, front', edit', later, hscript, rfl, hlt⟩

/-- The chosen script ends in all the appends that some script of least cost ends in. -/
theorem appends_suffix_align {other : List (Edit α)}
    (hother : Cheapest (given classify before after s) before after other) {items : List α}
    (hitems : items.map .append <:+ other) :
    items.map .append <:+ (align classify before after s).1 := by
  by_cases heq : other = (align classify before after s).1
  · rwa [← heq]
  · exact (precedes_align classify before after s hother heq).appends_suffix hitems

end

/-- The chosen script is a valid one of least cost. Read from the end, every other such script parts
from it by an edit of lower priority. No other script has that place among the cheapest ones, and
whatever appends a cheapest script ends in, the chosen one ends in them too. -/
theorem align?_precedes (classify : α → α → StateM σ Verdict) (before after : List α) (s : σ) :
    ∃ script, (align? classify before after s).1 = some script ∧
      Cheapest (given classify before after s) before after script ∧
      (∀ other, Cheapest (given classify before after s) before after other → other ≠ script →
        Precedes script other) ∧
      (∀ other, Cheapest (given classify before after s) before after other →
        (∀ third, Cheapest (given classify before after s) before after third → third ≠ other →
          Precedes other third) → other = script) ∧
      ∀ other, Cheapest (given classify before after s) before after other →
        ∀ items : List α, items.map .append <:+ other → items.map .append <:+ script := by
  have hcheapest := cheapest_align classify before after s
  have hprecedes : ∀ other, Cheapest (given classify before after s) before after other →
      other ≠ (align classify before after s).1 →
      Precedes (align classify before after s).1 other :=
    fun _ hother hne => precedes_align classify before after s hother hne
  refine ⟨_, congrArg Prod.fst (align?_eq classify before after s), hcheapest, hprecedes, ?_, ?_⟩
  · intro other hother hfirst
    by_contra hne
    exact (hprecedes other hother hne).asymm (hfirst _ hcheapest (Ne.symm hne))
  · exact fun other hother items hitems => appends_suffix_align classify before after s hother hitems

def twoItems : List (String × String) := [("a", "t"), ("b", "u")]

/-- The two items, the second one under another name, and one more. -/
def threeItems : List (String × String) := [("a", "t"), ("c", "u"), ("d", "u")]

/-- The renamed item is found in place, though an insertion in front of it would cost the same. -/
theorem align?_precedes_append :
    (align? compareNamed twoItems threeItems ()).1 =
      some [.equal, .rename ("b", "u") ("c", "u"), .append ("d", "u")] ∧
    Cheapest (given compareNamed twoItems threeItems ()) twoItems threeItems
      [.equal, .insert ("c", "u"), .rename ("b", "u") ("d", "u")] ∧
    Precedes [.equal, .rename ("b", "u") ("c", "u"), .append ("d", "u")]
      [.equal, .insert ("c", "u"), .rename ("b", "u") ("d", "u")] := by
  obtain ⟨script, hscript, hcheapest, hprecedes, -⟩ :=
    align?_precedes compareNamed twoItems threeItems ()
  have hchosen : (align? compareNamed twoItems threeItems ()).1 =
      some [.equal, .rename ("b", "u") ("c", "u"), .append ("d", "u")] := by
    decide +kernel
  rw [hchosen] at hscript
  cases hscript
  have hequal : given compareNamed twoItems threeItems () 0 0 = .equal := by decide +kernel
  have hrename : given compareNamed twoItems threeItems () 1 2 = .rename := by decide +kernel
  have hreplays : Replays (given compareNamed twoItems threeItems ()) twoItems threeItems 0 0 _ :=
    .pair (by decide) (by decide) (.insert (by decide) (by decide)
      (.pair (by decide) (by decide) .done))
  rw [hequal, hrename] at hreplays
  have hother : Cheapest (given compareNamed twoItems threeItems ()) twoItems threeItems
      [.equal, .insert ("c", "u"), .rename ("b", "u") ("d", "u")] :=
    ⟨hreplays, hcheapest.least⟩
  exact ⟨hchosen, hother, hprecedes _ hother (by decide)⟩

end StorageUpgrade.Alignment
