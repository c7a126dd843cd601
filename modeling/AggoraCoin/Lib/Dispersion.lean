import Mathlib

namespace Dispersion

section Weights

variable {R : Type*} [CommSemiring R]

/-- Each entry counted as often as its place, from one up. -/
def weighted (values : List R) : R := (values.mapIdx fun idx value => ((idx : R) + 1) * value).sum

theorem sum_mapIdx_add (weight : Nat → R → R) (extra : R → R) (values : List R) :
    (values.mapIdx fun idx value => weight idx value + extra value).sum =
      (values.mapIdx weight).sum + (values.map extra).sum := by
  induction values generalizing weight with
  | nil => simp
  | cons first rest ih =>
    have later := ih fun idx value => weight (idx + 1) value
    simp only [List.mapIdx_cons, List.sum_cons, List.map_cons, later]
    ring

/-- One more entry in front moves every other entry up by a place. -/
theorem weighted_cons (first : R) (rest : List R) :
    weighted (first :: rest) = first + rest.sum + weighted rest := by
  have moved : (rest.mapIdx fun idx value => (((idx + 1 : Nat) : R) + 1) * value) =
      rest.mapIdx fun idx value => ((idx : R) + 1) * value + id value := by
    congr 1
    funext idx value
    rw [Nat.cast_succ, add_mul _ 1, one_mul, id_eq]
  have split := sum_mapIdx_add (fun idx value => ((idx : R) + 1) * value) id rest
  rw [List.map_id] at split
  rw [weighted, List.mapIdx_cons, List.sum_cons, moved, split, weighted, Nat.cast_zero]
  ring

theorem weighted_map {S : Type*} [CommSemiring S] (f : R →+* S) (values : List R) :
    weighted (values.map f) = f (weighted values) := by
  induction values with
  | nil => simp [weighted]
  | cons first rest ih => simp only [List.map_cons, weighted_cons, ih, map_add, map_list_sum]

end Weights

/-- The places are bounded by the length. -/
theorem weighted_le (values : List Nat) : weighted values ≤ values.length * values.sum := by
  induction values with
  | nil => simp [weighted]
  | cons first rest ih =>
    rw [weighted_cons, List.length_cons, List.sum_cons]
    nlinarith [Nat.zero_le (rest.length * first)]

section Spread

variable {R : Type*} [CommRing R] [LinearOrder R] [IsStrictOrderedRing R]

/-- How far the others are from one value. -/
def distances (value : R) (others : List R) : R := (others.map fun other => |value - other|).sum

/-- The differences of all ordered pairs. -/
def spread (values : List R) : R := (values.map fun value => distances value values).sum

variable {values others : List R}

theorem distances_nonneg (value : R) (others : List R) : 0 ≤ distances value others := by
  refine List.sum_nonneg fun distance member => ?_
  obtain ⟨other, _, rfl⟩ := List.mem_map.mp member
  exact abs_nonneg _

theorem spread_nonneg (values : List R) : 0 ≤ spread values := by
  refine List.sum_nonneg fun row member => ?_
  obtain ⟨value, _, rfl⟩ := List.mem_map.mp member
  exact distances_nonneg value values

omit [IsStrictOrderedRing R] in
theorem spread_perm (perm : values.Perm others) : spread values = spread others := by
  have rows : ∀ value, distances value values = distances value others := fun value => (perm.map _).sum_eq
  simp only [spread, rows]
  exact (perm.map _).sum_eq

/-- One more value meets every other value twice. -/
theorem spread_cons (first : R) (rest : List R) :
    spread (first :: rest) = 2 * distances first rest + spread rest := by
  have rows : ∀ value, distances value (first :: rest) = |first - value| + distances value rest := by
    intro value
    rw [distances, List.map_cons, List.sum_cons, abs_sub_comm, distances]
  have split : (rest.map fun value => |first - value| + distances value rest).sum =
      distances first rest + spread rest := List.sum_map_add
  have own : distances first (first :: rest) = distances first rest := by rw [rows, sub_self, abs_zero, zero_add]
  have row : (rest.map fun value => distances value (first :: rest)).sum = distances first rest + spread rest := by
    simp only [rows, split]
  rw [spread, List.map_cons, List.sum_cons, own, row]
  ring

theorem distances_of_le {value : R} (below : ∀ other ∈ others, value ≤ other) :
    distances value others + others.length * value = others.sum := by
  induction others with
  | nil => simp [distances]
  | cons other rest ih =>
    have later := ih fun next member => below next (List.mem_cons_of_mem other member)
    have here : |value - other| = other - value := by
      rw [abs_sub_comm, abs_of_nonneg (sub_nonneg.mpr (below other List.mem_cons_self))]
    simp only [distances, List.map_cons, List.sum_cons, List.length_cons, here, Nat.cast_succ] at later ⊢
    linarith

/-- On a sorted list the pairwise differences follow from the weights alone. -/
theorem spread_of_sorted (sorted : values.Pairwise (· ≤ ·)) :
    spread values + 2 * (values.length + 1) * values.sum = 4 * weighted values := by
  induction values with
  | nil => simp [spread, weighted]
  | cons first rest ih =>
    obtain ⟨below, later⟩ := List.pairwise_cons.mp sorted
    have row := distances_of_le below
    have tail := ih later
    rw [spread_cons, weighted_cons, List.sum_cons, List.length_cons, Nat.cast_succ]
    linarith

theorem distances_le {value : R} (nonneg : 0 ≤ value) (others_nonneg : ∀ other ∈ others, 0 ≤ other) :
    distances value others ≤ others.length * value + others.sum := by
  induction others with
  | nil => simp [distances]
  | cons other rest ih =>
    have later := ih fun next member => others_nonneg next (List.mem_cons_of_mem other member)
    have above := others_nonneg other List.mem_cons_self
    have here : |value - other| ≤ value + other := abs_le.mpr ⟨by linarith, by linarith⟩
    simp only [distances, List.map_cons, List.sum_cons, List.length_cons, Nat.cast_succ] at later ⊢
    linarith

/-- Two non-negative values are at most their sum apart, and each value has one partner less than
there are values. -/
theorem spread_le (nonneg : ∀ value ∈ values, 0 ≤ value) :
    spread values + 2 * values.sum ≤ 2 * (values.length * values.sum) := by
  induction values with
  | nil => simp [spread]
  | cons first rest ih =>
    have restNonneg : ∀ value ∈ rest, 0 ≤ value := fun value member => nonneg value (List.mem_cons_of_mem first member)
    have row := distances_le (nonneg first List.mem_cons_self) restNonneg
    have tail := ih restNonneg
    rw [spread_cons, List.sum_cons, List.length_cons, Nat.cast_succ]
    linarith

theorem distances_eq_zero_iff {value : R} : distances value others = 0 ↔ ∀ other ∈ others, other = value := by
  induction others with
  | nil => simp [distances]
  | cons other rest ih =>
    have later := distances_nonneg value rest
    have here := abs_nonneg (value - other)
    have row : distances value (other :: rest) = |value - other| + distances value rest := rfl
    rw [row, List.forall_mem_cons, ← ih, add_eq_zero_iff_of_nonneg here later, abs_eq_zero, sub_eq_zero, eq_comm]

/-- No two values lie apart exactly when all are one. -/
theorem spread_eq_zero_iff : spread values = 0 ↔ ∀ value ∈ values, ∀ other ∈ values, other = value := by
  have rows : ∀ row ∈ values.map (fun value => distances value values), 0 ≤ row := by
    intro row member
    obtain ⟨value, _, rfl⟩ := List.mem_map.mp member
    exact distances_nonneg value values
  constructor
  · intro none value member
    have row : distances value values ≤ spread values := List.single_le_sum rows _ (List.mem_map_of_mem member)
    exact distances_eq_zero_iff.mp (le_antisymm (row.trans_eq none) (distances_nonneg value values))
  · intro same
    refine List.sum_eq_zero fun row member => ?_
    obtain ⟨value, inside, rfl⟩ := List.mem_map.mp member
    exact distances_eq_zero_iff.mpr (same value inside)

end Spread

section Index

variable {K : Type*} [Field K] [LinearOrder K] [IsStrictOrderedRing K]

/-- The Gini coefficient: half the mean difference of two values, relative to the mean value. -/
def gini (values : List K) : K := spread values / (2 * values.length * values.sum)

variable {values others : List K}

omit [IsStrictOrderedRing K] in
theorem gini_perm (perm : values.Perm others) : gini values = gini others := by
  rw [gini, gini, spread_perm perm, perm.length_eq, perm.sum_eq]

theorem length_pos_of_sum_pos (positive : 0 < values.sum) : (0 : K) < values.length := by
  rw [Nat.cast_pos, List.length_pos_iff]
  rintro rfl
  exact lt_irrefl _ positive

/-- The formula over ranks. -/
theorem gini_of_sorted (sorted : values.Pairwise (· ≤ ·)) (positive : 0 < values.sum) :
    gini values = 2 * weighted values / (values.length * values.sum) - (values.length + 1) / values.length := by
  have inhabited := length_pos_of_sum_pos positive
  have ranks := spread_of_sorted sorted
  have difference : spread values = 4 * weighted values - 2 * (values.length + 1) * values.sum := by linarith
  rw [gini, difference]
  field_simp
  ring

theorem gini_nonneg (positive : 0 < values.sum) : 0 ≤ gini values := by
  have inhabited := length_pos_of_sum_pos positive
  exact div_nonneg (spread_nonneg values) (by positivity)

theorem gini_le (nonneg : ∀ value ∈ values, 0 ≤ value) (positive : 0 < values.sum) :
    gini values ≤ (values.length - 1) / values.length := by
  have inhabited := length_pos_of_sum_pos positive
  have bound := spread_le nonneg
  rw [gini, div_le_div_iff₀ (by positivity) inhabited]
  nlinarith

theorem gini_eq_zero_iff (positive : 0 < values.sum) :
    gini values = 0 ↔ ∀ value ∈ values, ∀ other ∈ values, other = value := by
  have inhabited := length_pos_of_sum_pos positive
  have scale : 2 * (values.length : K) * values.sum ≠ 0 := by positivity
  rw [gini, div_eq_zero_iff, or_iff_left scale, spread_eq_zero_iff]

end Index

end Dispersion
