import AggoraCoin.Concrete
import AggoraCoin.Lib.Dispersion

namespace AggoraCoin

open F64 Unsigned

section Formula

variable {F : Type} [F64 F] {balances others : List MicroAgc}

def sortedBalances (balances : List MicroAgc) : List MicroAgc := balances.insertionSort (· ≤ ·)

def weightedSum (balances : List MicroAgc) : Nat :=
  ((sortedBalances balances).mapIdx fun idx balance => (idx + 1) * balance).sum

/-- The formula before the clamp. -/
def rankedGini (balances : List MicroAgc) : F :=
  let n : F := ofNat (sortedBalances balances).length
  let total : F := ofNat (wrappingSum 128 (sortedBalances balances))
  sub (div (mul (lit 2) (ofNat (weightedSum balances % 2 ^ 128))) (mul n total)) (div (add n (lit 1)) n)

theorem sortedBalances_perm (balances : List MicroAgc) : (sortedBalances balances).Perm balances :=
  List.perm_insertionSort _ balances

theorem sortedBalances_sorted (balances : List MicroAgc) : (sortedBalances balances).Pairwise (· ≤ ·) :=
  List.pairwise_insertionSort _ balances

theorem sortedBalances_congr (perm : balances.Perm others) : sortedBalances balances = sortedBalances others := by
  have mixed : (sortedBalances balances).Perm (sortedBalances others) :=
    (sortedBalances_perm balances).trans (perm.trans (sortedBalances_perm others).symm)
  exact mixed.eq_of_pairwise (fun _ _ _ _ up down => le_antisymm up down) (sortedBalances_sorted balances)
    (sortedBalances_sorted others)

theorem computeGiniFromBalances_eq (nonzero : wrappingSum 128 (sortedBalances balances) ≠ 0) :
    (computeGiniFromBalances balances : F) = clampUnit (rankedGini balances) := by
  have inhabited : balances.isEmpty = false := by
    rw [List.isEmpty_eq_false_iff]
    rintro rfl
    exact nonzero rfl
  have positive : wrappingSum 128 (balances.insertionSort (· ≤ ·)) ≠ 0 := nonzero
  simp only [computeGiniFromBalances, inhabited, Bool.false_eq_true, if_false, positive]
  rfl

/-- The balances are sorted first, so their order does not matter. -/
theorem computeGiniFromBalances_perm (perm : balances.Perm others) :
    (computeGiniFromBalances balances : F) = computeGiniFromBalances others := by
  have sorted : balances.insertionSort (· ≤ ·) = others.insertionSort (· ≤ ·) := sortedBalances_congr perm
  rw [computeGiniFromBalances, computeGiniFromBalances, perm.isEmpty_eq, sorted]

end Formula

section Bounds

variable {balances : List MicroAgc}

theorem weightedSum_eq (balances : List MicroAgc) : weightedSum balances = Dispersion.weighted (sortedBalances balances) := by
  simp only [weightedSum, Dispersion.weighted, Nat.cast_id]

/-- Below 2^32 words, neither the total nor the weighted sum leaves 128 bits. -/
theorem sums_le (few : balances.length < 2 ^ 32) (words : ∀ balance ∈ balances, balance ≤ u64Max) :
    (sortedBalances balances).sum ≤ maxValue 128 ∧ weightedSum balances ≤ maxValue 128 := by
  have perm := sortedBalances_perm balances
  have length : (sortedBalances balances).length ≤ 2 ^ 32 - 1 := by
    rw [perm.length_eq]
    omega
  have sum : (sortedBalances balances).sum ≤ (2 ^ 32 - 1) * u64Max := by
    have each := List.sum_le_card_nsmul (sortedBalances balances) u64Max fun balance member =>
      words balance (perm.mem_iff.mp member)
    rw [smul_eq_mul] at each
    exact each.trans (Nat.mul_le_mul_right _ length)
  have weighted : weightedSum balances ≤ (2 ^ 32 - 1) * ((2 ^ 32 - 1) * u64Max) := by
    rw [weightedSum_eq]
    exact (Dispersion.weighted_le _).trans (Nat.mul_le_mul length sum)
  have small : (2 ^ 32 - 1) * u64Max ≤ maxValue 128 := by norm_num [u64Max, maxValue]
  have smallToo : (2 ^ 32 - 1) * ((2 ^ 32 - 1) * u64Max) ≤ maxValue 128 := by norm_num [u64Max, maxValue]
  exact ⟨sum.trans small, weighted.trans smallToo⟩

end Bounds

section Exact

variable {balances : List MicroAgc}

/-- The balances as exact numbers. -/
def exactBalances (balances : List MicroAgc) : List ℚ := balances.map (Nat.castRingHom ℚ)

theorem exactBalances_sum (balances : List MicroAgc) : (exactBalances balances).sum = (balances.sum : ℚ) :=
  (map_list_sum (Nat.castRingHom ℚ) balances).symm

theorem exactBalances_nonneg (balances : List MicroAgc) : ∀ balance ∈ exactBalances balances, 0 ≤ balance := by
  intro balance member
  obtain ⟨units, _, rfl⟩ := List.mem_map.mp member
  exact Nat.cast_nonneg units

theorem exactBalances_sorted (balances : List MicroAgc) :
    (exactBalances (sortedBalances balances)).Pairwise (· ≤ ·) := by
  refine (sortedBalances_sorted balances).map _ fun a b below => ?_
  exact Nat.cast_le.mpr below

/-- Without rounding and without overflow the ranked formula is the Gini coefficient. -/
theorem rankedGini_eq (positive : 0 < balances.sum) (total : (sortedBalances balances).sum ≤ maxValue 128)
    (weighted : weightedSum balances ≤ maxValue 128) :
    (rankedGini balances : ℚ) = Dispersion.gini (exactBalances balances) := by
  have perm := sortedBalances_perm balances
  have exactPerm : (exactBalances (sortedBalances balances)).Perm (exactBalances balances) := perm.map _
  have sorted : 0 < (exactBalances (sortedBalances balances)).sum := by
    rw [exactBalances_sum, perm.sum_eq]
    exact_mod_cast positive
  have weights : Dispersion.weighted (exactBalances (sortedBalances balances)) = (weightedSum balances : ℚ) := by
    rw [exactBalances, Dispersion.weighted_map, weightedSum_eq]
    rfl
  have length : (exactBalances (sortedBalances balances)).length = (sortedBalances balances).length :=
    List.length_map _
  rw [← Dispersion.gini_perm exactPerm, Dispersion.gini_of_sorted (exactBalances_sorted balances) sorted, weights,
    exactBalances_sum, length, rankedGini, wrappingSum_of_le total,
    Nat.mod_eq_of_lt (lt_pow_iff_le_maxValue.mpr weighted)]
  rfl

theorem clampUnit_of_unit {q : ℚ} (lower : 0 ≤ q) (upper : q ≤ 1) : clampUnit q = q := by
  have above : lt q (lit 0) = false := decide_eq_false (not_lt.mpr lower)
  have below : lt (lit 1) q = false := decide_eq_false (not_lt.mpr upper)
  simp only [clampUnit, above, Bool.false_eq_true, if_false, below]

end Exact

/-- In exact arithmetic the sorted formula is the mean difference of two balances over twice the
mean balance. It lies in `[0, (N - 1) / N]`, so the clamp changes nothing; it is zero only where all
balances are one; and its order does not matter. The two sums stay within 128 bits. -/
theorem gini_is_mean_difference {balances : List MicroAgc} (few : balances.length < 2 ^ 32)
    (words : ∀ balance ∈ balances, balance ≤ u64Max) (positive : 0 < balances.sum) :
    (computeGiniFromBalances balances : ℚ) = Dispersion.gini (exactBalances balances) ∧
    (0 : ℚ) ≤ computeGiniFromBalances balances ∧
    (computeGiniFromBalances balances : ℚ) ≤ (balances.length - 1) / balances.length ∧
    (clampUnit (rankedGini balances) : ℚ) = rankedGini balances ∧
    ((computeGiniFromBalances balances : ℚ) = 0 ↔ ∀ balance ∈ balances, ∀ other ∈ balances, other = balance) ∧
    (∀ others : List MicroAgc, balances.Perm others →
      (computeGiniFromBalances others : ℚ) = computeGiniFromBalances balances) ∧
    (sortedBalances balances).sum ≤ maxValue 128 ∧ weightedSum balances ≤ maxValue 128 := by
  obtain ⟨total, weighted⟩ := sums_le few words
  have ranked := rankedGini_eq positive total weighted
  have exact_positive : 0 < (exactBalances balances).sum := by
    rw [exactBalances_sum]
    exact_mod_cast positive
  have lower := Dispersion.gini_nonneg exact_positive
  have upper := Dispersion.gini_le (exactBalances_nonneg balances) exact_positive
  have zero := Dispersion.gini_eq_zero_iff exact_positive
  have length : (exactBalances balances).length = balances.length := List.length_map _
  rw [length] at upper
  have below_one : ((balances.length : ℚ) - 1) / balances.length ≤ 1 :=
    div_le_one_of_le₀ (by linarith) (Nat.cast_nonneg _)
  have clamped : (clampUnit (rankedGini balances) : ℚ) = rankedGini balances := by
    rw [ranked]
    exact clampUnit_of_unit lower (upper.trans below_one)
  have nonzero : wrappingSum 128 (sortedBalances balances) ≠ 0 := by
    rw [wrappingSum_of_le total, (sortedBalances_perm balances).sum_eq]
    exact positive.ne'
  have computed : (computeGiniFromBalances balances : ℚ) = Dispersion.gini (exactBalances balances) := by
    rw [computeGiniFromBalances_eq nonzero, clamped, ranked]
  rw [computed]
  refine ⟨rfl, lower, upper, clamped, zero.trans ?_, ?_, total, weighted⟩
  · simp only [exactBalances, List.forall_mem_map, Nat.coe_castRingHom, Nat.cast_inj]
  · intro others perm
    rw [← computeGiniFromBalances_perm perm, computed]

/-- Of two balances one of which is nothing, the mean difference is half of the other. -/
theorem gini_is_mean_difference_pair :
    (computeGiniFromBalances [4, 0] : ℚ) = 1 / 2 ∧
    ((computeGiniFromBalances [4, 0] : ℚ) = 0 ↔ ∀ balance ∈ [4, 0], ∀ other ∈ [4, 0], other = balance) := by
  have few : [4, 0].length < 2 ^ 32 := by decide
  have mean := gini_is_mean_difference few (by decide) (by decide)
  refine ⟨mean.1.trans ?_, mean.2.2.2.2.1⟩
  norm_num [Dispersion.gini, Dispersion.spread, Dispersion.distances, exactBalances]

end AggoraCoin
