import Mathlib

namespace FloorSums

variable {K : Type} [Field K] [LinearOrder K] [FloorSemiring K]

/-- The whole parts of a column add up to this. -/
def total (column : List K) : Nat := (column.map Nat.floor).sum

@[simp] theorem total_nil : total ([] : List K) = 0 := rfl

@[simp] theorem total_cons (x : K) (rest : List K) : total (x :: rest) = ⌊x⌋₊ + total rest := by
  simp only [total, List.map_cons, List.sum_cons]

variable [IsStrictOrderedRing K]

theorem total_le {column : List K} (nonneg : ∀ x ∈ column, 0 ≤ x) : (total column : K) ≤ column.sum := by
  induction column with
  | nil => simp
  | cons x rest ih =>
    have here := Nat.floor_le (nonneg x List.mem_cons_self)
    have later := ih fun y member => nonneg y (List.mem_cons_of_mem x member)
    rw [total_cons, List.sum_cons, Nat.cast_add]
    exact add_le_add here later

/-- Less than one unit is lost in each place. -/
theorem sum_lt_total_add_length {column : List K} (inhabited : column ≠ []) :
    column.sum < total column + column.length := by
  induction column with
  | nil => exact absurd rfl inhabited
  | cons x rest ih =>
    have here := Nat.lt_floor_add_one x
    rw [total_cons, List.sum_cons, List.length_cons]
    push_cast
    cases rest with
    | nil =>
      simp only [List.sum_nil, total_nil, List.length_nil]
      push_cast
      linarith
    | cons y later =>
      have tail := ih (List.cons_ne_nil y later)
      linarith

/-- Nothing is lost only where every number is whole. -/
theorem total_eq_iff {column : List K} (nonneg : ∀ x ∈ column, 0 ≤ x) :
    (total column : K) = column.sum ↔ ∀ x ∈ column, (⌊x⌋₊ : K) = x := by
  induction column with
  | nil => simp
  | cons x rest ih =>
    have here := Nat.floor_le (nonneg x List.mem_cons_self)
    have restNonneg : ∀ y ∈ rest, 0 ≤ y := fun y member => nonneg y (List.mem_cons_of_mem x member)
    have later := total_le restNonneg
    rw [total_cons, List.sum_cons, Nat.cast_add, List.forall_mem_cons, ← ih restNonneg]
    constructor
    · intro same
      constructor <;> linarith
    · rintro ⟨first, others⟩
      rw [first, others]

end FloorSums
