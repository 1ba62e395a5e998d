import StorageUpgrade.Outcome
import StorageUpgrade.Resolution.TypeNode

/-!
# Runs with a budget

Whether a procedure comes to an end, and how soon, is not seen in its result. A bounded run is the
same procedure with a budget, which has no outcome once the budget is used up, and with a state
that is still there after a failure. It may note in the state what it has done. If it follows the
procedure from every state that some invariant allows, then the budget was large enough.
-/

namespace StorageUpgrade

/-- Runs that may fail, and have no outcome when their budget does not suffice. -/
abbrev BoundedRun (ε σ α : Type) := ExceptT ε (StateT σ Option) α

variable {ε σ τ α β : Type}

namespace BoundedRun

/-- The end of the budget. -/
def exhausted : BoundedRun ε σ α := fun _ => none

variable {run : BoundedRun ε σ α} {next : α → BoundedRun ε σ β} {s s' : σ}

theorem bind_of_ok {a : α} (h : run s = some (.ok a, s')) : (run >>= next) s = next a s' := by
  change (run s >>= fun result => ExceptT.bindCont next result.1 result.2) = _
  rw [h]
  rfl

theorem bind_of_error {error : ε} (h : run s = some (.error error, s')) :
    (run >>= next) s = some (.error error, s') := by
  change (run s >>= fun result => ExceptT.bindCont next result.1 result.2) = _
  rw [h]
  rfl

end BoundedRun

/-- From every state with the invariant, a run has the outcome that a step has from what is seen of
the state. It leaves a state with the invariant, where the same is seen as after the step. -/
def Follows (inv : τ → Prop) (view : τ → σ) (run : BoundedRun ε τ α)
    (step : StateT σ (Except ε) α) : Prop :=
  ∀ t, inv t → ∃ t', inv t' ∧
    ((∃ a, step (view t) = .ok (a, view t') ∧ run t = some (.ok a, t')) ∨
      ∃ error, step (view t) = .error error ∧ run t = some (.error error, t'))

namespace Follows

variable {inv : τ → Prop} {view : τ → σ}

theorem pure (a : α) : Follows (ε := ε) inv view (Pure.pure a) (Pure.pure a) :=
  fun t h => ⟨t, h, .inl ⟨a, rfl, rfl⟩⟩

theorem throw (error : ε) :
    Follows (α := α) inv view (MonadExcept.throw error) fun _ => .error error :=
  fun t h => ⟨t, h, .inr ⟨error, rfl, rfl⟩⟩

theorem congr {run : BoundedRun ε τ α} {step step' : StateT σ (Except ε) α}
    (h : Follows inv view run step) (heq : ∀ s, step s = step' s) :
    Follows inv view run step' := by
  intro t ht
  rw [← heq]
  exact h t ht

theorem bind {run : BoundedRun ε τ α} {step : StateT σ (Except ε) α}
    {next : α → BoundedRun ε τ β} {next' : α → StateT σ (Except ε) β}
    (h : Follows inv view run step) (hnext : ∀ a, Follows inv view (next a) (next' a)) :
    Follows inv view (run >>= next) (step >>= next') := by
  intro t ht
  change ∃ t', inv t' ∧
    ((∃ a, (step (view t) >>= fun result => next' result.1 result.2) = .ok (a, view t') ∧ _) ∨
      ∃ error, (step (view t) >>= fun result => next' result.1 result.2) = .error error ∧ _)
  obtain ⟨t', ht', ⟨a, hstep, hrun⟩ | ⟨error, hstep, hrun⟩⟩ := h t ht
  · rw [hstep, BoundedRun.bind_of_ok hrun, ok_bind]
    exact hnext a t' ht'
  · rw [hstep, BoundedRun.bind_of_error hrun]
    exact ⟨t', ht', .inr ⟨error, rfl, rfl⟩⟩

/-- What is computed from no state is the same in both, and there is more to follow only if it does
not fail. -/
theorem lift_bind {outcome : Except ε α} {next : α → BoundedRun ε τ β}
    {next' : α → StateT σ (Except ε) β}
    (h : ∀ a, outcome = .ok a → Follows inv view (next a) (next' a)) :
    Follows inv view (liftM outcome >>= next) fun s => outcome >>= fun a => next' a s := by
  cases outcome with
  | error error =>
    intro t ht
    exact ⟨t, ht, .inr ⟨error, rfl, rfl⟩⟩
  | ok a => exact h a rfl

theorem mapM_list {f : α → BoundedRun ε τ β} {g : α → StateT σ (Except ε) β} {items : List α}
    (h : ∀ item ∈ items, Follows inv view (f item) (g item)) :
    Follows inv view (items.mapM f) (items.mapM g) := by
  induction items with
  | nil => exact .pure []
  | cons item items ih =>
    rw [List.forall_mem_cons] at h
    rw [List.mapM_cons, List.mapM_cons]
    exact h.1.bind fun b => (ih h.2).bind fun bs => .pure (b :: bs)

/-! ## Replacing the references of a type -/

variable {f : α → BoundedRun ε τ β} {g : α → StateT σ (Except ε) β}

theorem mapM_refs {refs? : Option (List α)}
    (h : ∀ r ∈ refs?.getD [], Follows inv view (f r) (g r)) :
    Follows inv view (refs?.mapM (List.mapM f)) (refs?.mapM (List.mapM g)) := by
  cases refs? with
  | none => exact .pure none
  | some refs =>
    rw [Option.mapM_some, Option.mapM_some, ← bind_pure_comp, ← bind_pure_comp]
    exact (mapM_list h).bind fun refs => .pure (some refs)

theorem mapM_members {members? : Option (Members α)}
    (h : ∀ r ∈ (members?.map Members.types).getD [], Follows inv view (f r) (g r)) :
    Follows inv view (members?.mapM (Members.mapM f)) (members?.mapM (Members.mapM g)) := by
  match members? with
  | none => exact .pure none
  | some (.enum names) => exact .pure (some (Members.enum names))
  | some (.struct fields) =>
    have hfields : Follows inv view (fields.mapM (Member.mapM f))
        (fields.mapM (Member.mapM g)) := by
      apply mapM_list
      intro field hfield
      exact (h field.type (List.mem_map_of_mem hfield)).bind fun _ => .pure _
    rw [Option.mapM_some, Option.mapM_some, ← bind_pure_comp, ← bind_pure_comp]
    refine Follows.bind ?_ fun members => .pure (some members)
    exact hfields.bind fun fields => .pure (Members.struct fields)

theorem mapM_node {node : TypeNode α}
    (h : ∀ r ∈ node.references, Follows inv view (f r) (g r)) :
    Follows inv view (node.mapM f) (node.mapM g) := by
  simp only [TypeNode.mem_references] at h
  have hargs := mapM_refs fun r hr => h r (.inl hr)
  have hrets := mapM_refs fun r hr => h r (.inr (.inl hr))
  have hmembers := mapM_members fun r hr => h r (.inr (.inr hr))
  exact hargs.bind fun args => hrets.bind fun rets => hmembers.bind fun members => .pure _

end Follows

end StorageUpgrade
