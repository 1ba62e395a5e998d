/-!
# What remains of a list

A search that takes an item out of a list before it goes on comes to an end, since the list gets
shorter every time.
-/

namespace StorageUpgrade

def without (item : String) (items : List String) : List String :=
  items.filter (· ≠ item)

@[simp]
theorem mem_without {item other : String} {items : List String} :
    other ∈ without item items ↔ other ∈ items ∧ other ≠ item := by
  simp [without]

theorem length_without_lt {item : String} {items : List String} (h : item ∈ items) :
    (without item items).length < items.length := by
  unfold without
  rw [List.length_filter_lt_length_iff_exists]
  exact ⟨item, h, by simp⟩

end StorageUpgrade
