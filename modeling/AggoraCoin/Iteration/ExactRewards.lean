import AggoraCoin.ExactReal
import AggoraCoin.Lib.FloorSums
import AggoraCoin.Iteration.Pointwise

namespace AggoraCoin

open F64 Unsigned

section Weights

variable [RealOps] (economy : EconomyParameters ℝ)

/-- The part of a weight that the activity decides. -/
noncomputable def activityFactor (score : ℝ) : ℝ :=
  Max.max (economy.redistributionActiveMin +
    (economy.redistributionActiveMax - economy.redistributionActiveMin) * clampUnit score) 0

/-- The part of a weight that the balance decides. -/
noncomputable def balanceFactor (balance : MicroAgc) : ℝ :=
  if 0 < economy.inverseBalanceWeight then (1 + (balance : ℝ)) ^ (-economy.inverseBalanceWeight) else 1

theorem redistributionWeight_real (wallet : Wallet ℝ) :
    redistributionWeight economy wallet =
      activityFactor economy wallet.activityScore * balanceFactor economy wallet.balance := by
  simp only [redistributionWeight, lt_real, lit_real, Rat.cast_zero, Rat.cast_one]
  rfl

theorem activityFactor_nonneg (score : ℝ) : 0 ≤ activityFactor economy score := le_max_right _ _

omit [RealOps] in
theorem balanceFactor_nonneg (balance : MicroAgc) : 0 ≤ balanceFactor economy balance := by
  unfold balanceFactor
  split
  · exact Real.rpow_nonneg (by positivity) _
  · exact zero_le_one

theorem redistributionWeight_nonneg (wallet : Wallet ℝ) : 0 ≤ redistributionWeight economy wallet := by
  rw [redistributionWeight_real]
  exact mul_nonneg (activityFactor_nonneg _ _) (balanceFactor_nonneg _ _)

theorem activityFactor_mono (range : economy.redistributionActiveMin ≤ economy.redistributionActiveMax) {low high : ℝ}
    (below : low ≤ high) : activityFactor economy low ≤ activityFactor economy high := by
  have clamped := clampUnit_mono below
  have spread : 0 ≤ economy.redistributionActiveMax - economy.redistributionActiveMin := sub_nonneg.mpr range
  unfold activityFactor
  gcongr

omit [RealOps] in
theorem balanceFactor_anti {smaller larger : MicroAgc} (below : smaller ≤ larger) :
    balanceFactor economy larger ≤ balanceFactor economy smaller := by
  unfold balanceFactor
  split
  · rename_i positive
    have cast : (smaller : ℝ) ≤ larger := Nat.cast_le.mpr below
    have base : (0 : ℝ) < 1 + smaller := by positivity
    exact Real.rpow_le_rpow_of_nonpos base (by gcongr) (neg_nonpos.mpr positive.le)
  · exact le_rfl

/-- A larger weight never gets a smaller share. -/
theorem flooredReward_mono (pool : MicroAgc) (total : ℝ) {lighter heavier : ℝ} (below : lighter ≤ heavier) :
    flooredReward pool total lighter ≤ flooredReward pool total heavier := by
  unfold flooredReward
  split
  · rename_i shared
    have positive : 0 < total := by simpa using shared.2
    apply floorU64_mono
    simp only [div_real, mul_real, ofNat_real]
    gcongr
  · exact le_rfl

/-- The exact shares of a pool. -/
noncomputable def exactShares (pool : MicroAgc) (weights : List ℝ) : List ℝ :=
  weights.map fun weight => pool * weight / weights.sum

/-- The weights divide the pool without a remainder. -/
def WholeShares (pool : MicroAgc) (weights : List ℝ) : Prop :=
  pool = 0 ∨ 0 < weights.sum ∧ ∀ weight ∈ weights, ∃ whole : Nat, (pool : ℝ) * weight = whole * weights.sum

end Weights

section Shares

variable {weights : List ℝ}

theorem exactShares_nonneg (pool : MicroAgc) (nonneg : ∀ weight ∈ weights, 0 ≤ weight) :
    ∀ share ∈ exactShares pool weights, 0 ≤ share := by
  intro share member
  obtain ⟨weight, inside, rfl⟩ := List.mem_map.mp member
  exact div_nonneg (mul_nonneg (Nat.cast_nonneg _) (nonneg weight inside)) (List.sum_nonneg nonneg)

theorem exactShares_sum (pool : MicroAgc) (positive : 0 < weights.sum) : (exactShares pool weights).sum = pool := by
  have factor : exactShares pool weights = weights.map fun weight => pool / weights.sum * weight :=
    List.map_congr_left fun weight _ => mul_div_right_comm _ _ _
  rw [factor, List.sum_map_mul_left, List.map_id', div_mul_cancel₀ _ positive.ne']

variable [RealOps]

/-- A pool that is a word is shared by whole parts; a share never reaches the saturation of the cast. -/
theorem flooredRewards_real {pool : MicroAgc} (bound : pool ≤ maxValue 64) (some : 0 < pool)
    (nonneg : ∀ weight ∈ weights, 0 ≤ weight) (positive : 0 < weights.sum) :
    (flooredRewards pool weights).sum = FloorSums.total (exactShares pool weights) := by
  rw [flooredRewards_eq_map, FloorSums.total, exactShares, List.map_map]
  congr 1
  refine List.map_congr_left fun weight member => ?_
  have shared : pool > 0 ∧ lt (lit 0) (F64.sum weights) = true := ⟨some, by simpa [sum_real] using positive⟩
  have part : weight ≤ weights.sum := List.single_le_sum nonneg weight member
  have below : (pool : ℝ) * weight / weights.sum ≤ (pool : Nat) := by
    rw [div_le_iff₀ positive]
    exact mul_le_mul_of_nonneg_left part (Nat.cast_nonneg _)
  rw [flooredReward, if_pos shared, sum_real]
  exact floorU64_of_le below bound

theorem flooredRewards_none {pool : MicroAgc} (none : ¬ (0 < pool ∧ 0 < weights.sum)) :
    (flooredRewards pool weights).sum = 0 := by
  have unshared : ¬ (pool > 0 ∧ lt (lit 0) (F64.sum weights) = true) := by simpa [sum_real] using none
  rw [flooredRewards_eq_map, List.sum_eq_zero]
  intro reward member
  obtain ⟨weight, -, rfl⟩ := List.mem_map.mp member
  exact if_neg unshared

/-- In exact arithmetic the floored rewards never overspend the pool. -/
theorem flooredRewards_sum_le {pool : MicroAgc} (bound : pool ≤ maxValue 64)
    (nonneg : ∀ weight ∈ weights, 0 ≤ weight) : (flooredRewards pool weights).sum ≤ pool := by
  by_cases both : 0 < pool ∧ 0 < weights.sum
  · have floored := FloorSums.total_le (exactShares_nonneg pool nonneg)
    rw [exactShares_sum pool both.2] at floored
    rw [flooredRewards_real bound both.1 nonneg both.2]
    exact_mod_cast floored
  · rw [flooredRewards_none both]
    exact Nat.zero_le _

/-- They use it up only where every exact share is whole. -/
theorem flooredRewards_sum_eq_iff {pool : MicroAgc} (bound : pool ≤ maxValue 64)
    (nonneg : ∀ weight ∈ weights, 0 ≤ weight) :
    (flooredRewards pool weights).sum = pool ↔ WholeShares pool weights := by
  by_cases both : 0 < pool ∧ 0 < weights.sum
  · have exact_iff := FloorSums.total_eq_iff (exactShares_nonneg pool nonneg)
    rw [exactShares_sum pool both.2, Nat.cast_inj] at exact_iff
    rw [flooredRewards_real bound both.1 nonneg both.2, exact_iff]
    constructor
    · intro whole
      refine Or.inr ⟨both.2, fun weight member => ⟨⌊(pool : ℝ) * weight / weights.sum⌋₊, ?_⟩⟩
      rw [whole _ (List.mem_map_of_mem member), div_mul_cancel₀ _ both.2.ne']
    · rintro (empty | ⟨-, whole⟩) share member
      · exact absurd both.1 (by rw [empty]; exact lt_irrefl 0)
      · obtain ⟨weight, inside, rfl⟩ := List.mem_map.mp member
        obtain ⟨parts, equal⟩ := whole weight inside
        rw [equal, mul_div_cancel_right₀ _ both.2.ne', Nat.floor_natCast]
  · rw [flooredRewards_none both]
    constructor
    · exact fun empty => Or.inl empty.symm
    · rintro (empty | ⟨positive, -⟩)
      · exact empty.symm
      · exact (Nat.eq_zero_of_not_pos fun some => both ⟨some, positive⟩).symm

end Shares

end AggoraCoin
