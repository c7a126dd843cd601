import AggoraCoin.ExactReal
import AggoraCoin.Iteration.Pointwise

namespace AggoraCoin

open F64 Unsigned

/-- All that the penalty curve asks of the logarithm. -/
structure LogLike [RealOps] : Prop where
  monotone : MonotoneOn RealOps.ln (Set.Ici 1)
  one : RealOps.ln 1 = 0

theorem one_le_ratio (seed : MicroAgc) (balance : Nat) : (1 : ℝ) ≤ 1 + (balance : ℝ) / (Nat.max seed 1 : Nat) :=
  le_add_of_nonneg_right (div_nonneg (Nat.cast_nonneg _) (Nat.cast_nonneg _))

theorem le_foldl_max (balances : List MicroAgc) (start : MicroAgc) :
    start ≤ balances.foldl Nat.max start ∧ ∀ balance ∈ balances, balance ≤ balances.foldl Nat.max start := by
  induction balances generalizing start with
  | nil => exact ⟨le_rfl, fun _ none => by cases none⟩
  | cons first rest ih =>
    obtain ⟨above, others⟩ := ih (Nat.max start first)
    rw [List.foldl_cons]
    refine ⟨(Nat.le_max_left _ _).trans above, fun balance inside => ?_⟩
    rcases List.mem_cons.mp inside with rfl | later
    · exact (Nat.le_max_right _ _).trans above
    · exact others balance later

theorem le_largestBalance {balances : List MicroAgc} {balance : MicroAgc} (member : balance ∈ balances) :
    balance ≤ largestBalance balances :=
  (le_foldl_max balances 0).2 balance member

section Curve

variable [RealOps]

variable (economy : EconomyParameters ℝ) (seed : MicroAgc) (balances : List MicroAgc)

/-- The logarithm a balance is measured by. -/
noncomputable def logarithm (balance : MicroAgc) : ℝ := RealOps.ln (1 + (balance : ℝ) / (Nat.max seed 1 : Nat))

theorem LogLike.logarithm_mono (log : LogLike) {poorer richer : Nat} (below : poorer ≤ richer) :
    logarithm seed poorer ≤ logarithm seed richer := by
  refine log.monotone (one_le_ratio seed poorer) (one_le_ratio seed richer) ?_
  have cast : (poorer : ℝ) ≤ richer := Nat.cast_le.mpr below
  gcongr

theorem LogLike.logarithm_nonneg (log : LogLike) (balance : Nat) : 0 ≤ logarithm seed balance := by
  have above := log.monotone (Set.self_mem_Ici) (one_le_ratio seed balance) (one_le_ratio seed balance)
  rwa [log.one] at above

/-- The denominator is the logarithm of the largest balance. -/
theorem penaltyDenominator_real {bMax : MicroAgc} (seeded : 0 < seed) (inhabited : 0 < bMax) :
    penaltyDenominator seed bMax = logarithm seed bMax := by
  have divisor : Nat.max seed 1 = seed := Nat.max_eq_left seeded
  rw [penaltyDenominator, if_pos ⟨inhabited, seeded⟩]
  simp only [logarithm, divisor, ln_real, add_real, lit_real, Rat.cast_one, div_real, ofNat_real]

/-- The curve of a population: nothing below the smallest denominator, else the log formula. -/
theorem basePenalty_real {denominator : ℝ} (large : epsilon < denominator) (balance : MicroAgc) :
    basePenalty economy seed denominator balance =
      if balance = 0 then 0
      else floorU64 (economy.penaltyRate * balance * logarithm seed balance / denominator) := by
  have notSmall : ¬ le denominator (epsilon : ℝ) = true := by rwa [le_real, not_le]
  unfold basePenalty
  by_cases empty : balance = 0
  · rw [if_pos (Or.inl empty), if_pos empty]
  · rw [if_neg (not_or.mpr ⟨empty, notSmall⟩), if_neg empty]
    simp only [logarithm, mul_real, div_real, ln_real, add_real, lit_real, Rat.cast_one, ofNat_real]

theorem basePenalty_small {denominator : ℝ} (small : denominator ≤ epsilon) (balance : MicroAgc) :
    basePenalty economy seed denominator balance = 0 := if_pos (Or.inr ((le_real _ _).mpr small))

theorem LogLike.basePenalty_mono (log : LogLike) (rate : 0 ≤ economy.penaltyRate) (denominator : ℝ)
    {poorer richer : Nat} (below : poorer ≤ richer) :
    basePenalty economy seed denominator poorer ≤ basePenalty economy seed denominator richer := by
  rcases le_or_gt denominator epsilon with small | large
  · rw [basePenalty_small _ _ small, basePenalty_small _ _ small]
  · rw [basePenalty_real _ _ large, basePenalty_real _ _ large]
    by_cases empty : poorer = 0
    · rw [if_pos empty]
      exact Nat.zero_le _
    · have full : richer ≠ 0 := by omega
      rw [if_neg empty, if_neg full]
      have positive : 0 < denominator := lt_trans (by norm_num [epsilon]) large
      have smaller := log.logarithm_nonneg seed poorer
      have ordered := log.logarithm_mono seed below
      apply floorU64_mono
      gcongr

theorem LogLike.rawPenalty_mono (log : LogLike) (rate : 0 ≤ economy.penaltyRate) {poorer richer : Nat}
    (below : poorer ≤ richer) : rawPenalty economy seed balances poorer ≤ rawPenalty economy seed balances richer :=
  min_le_min (log.basePenalty_mono economy seed rate _ below) below

theorem penaltyScale_real :
    penaltyScale economy seed balances = (targetPenalty economy balances : ℝ) / rawTotal economy seed balances := rfl

theorem penaltyScale_nonneg : (0 : ℝ) ≤ penaltyScale economy seed balances :=
  div_nonneg (Nat.cast_nonneg _) (Nat.cast_nonneg _)

theorem LogLike.finalPenalty_mono (log : LogLike) (rate : 0 ≤ economy.penaltyRate) {poorer richer : Nat}
    (below : poorer ≤ richer) :
    finalPenalty economy seed balances poorer ≤ finalPenalty economy seed balances richer := by
  have raw := log.rawPenalty_mono economy seed balances rate below
  unfold finalPenalty
  split
  · have scale := penaltyScale_nonneg economy seed balances
    have cast : (rawPenalty economy seed balances poorer : ℝ) ≤ rawPenalty economy seed balances richer :=
      Nat.cast_le.mpr raw
    exact min_le_min (floorU64_mono (mul_le_mul_of_nonneg_right cast scale)) below
  · exact raw

variable {economy seed balances}

/-- A wallet as rich as the richest pays the plain rate. -/
theorem rawPenalty_largest (seeded : 0 < seed) (inhabited : 0 < largestBalance balances)
    (large : epsilon < logarithm seed (largestBalance balances)) :
    rawPenalty economy seed balances (largestBalance balances) =
      Nat.min (floorU64 (economy.penaltyRate * largestBalance balances)) (largestBalance balances) := by
  have positive : (0 : ℝ) < logarithm seed (largestBalance balances) := lt_trans (by norm_num [epsilon]) large
  rw [rawPenalty, penaltyDenominator_real _ seeded inhabited, basePenalty_real _ _ large, if_neg inhabited.ne',
    mul_div_cancel_right₀ _ positive.ne']

/-- Nobody is charged the part of a unit. -/
theorem LogLike.rawPenalty_petty (log : LogLike) {balance : MicroAgc} (member : balance ∈ balances)
    (small : economy.penaltyRate * balance < 1) : rawPenalty economy seed balances balance = 0 := by
  refine Nat.le_zero.mp ((Nat.min_le_left _ _).trans ?_)
  rcases le_or_gt (penaltyDenominator seed (largestBalance balances)) (epsilon : ℝ) with low | large
  · rw [basePenalty_small _ _ low]
  · have positive : (0 : ℝ) < penaltyDenominator seed (largestBalance balances) :=
      lt_trans (by norm_num [epsilon]) large
    have charged : 0 < largestBalance balances ∧ 0 < seed := by
      by_contra uncharged
      rw [penaltyDenominator, if_neg uncharged, lit_real, Rat.cast_zero] at positive
      exact lt_irrefl _ positive
    rw [basePenalty_real _ _ large]
    split
    · exact le_rfl
    · rw [penaltyDenominator_real _ charged.2 charged.1] at positive ⊢
      have ratio : logarithm seed balance / logarithm seed (largestBalance balances) ≤ 1 :=
        div_le_one_of_le₀ (log.logarithm_mono seed (le_largestBalance member)) positive.le
      have nonneg : 0 ≤ logarithm seed balance / logarithm seed (largestBalance balances) :=
        div_nonneg (log.logarithm_nonneg seed balance) positive.le
      have below : economy.penaltyRate * balance * logarithm seed balance /
          logarithm seed (largestBalance balances) < 1 := by
        rw [mul_div_assoc]
        rcases le_or_gt (economy.penaltyRate * balance) 0 with free | rated
        · exact (mul_nonpos_of_nonpos_of_nonneg free nonneg).trans_lt one_pos
        · exact (mul_le_of_le_one_right rated.le ratio).trans_lt small
      exact (floorU64_le_floor _).trans (Nat.floor_eq_zero.mpr below).le

end Curve

section Runs

variable [RealOps]

/-- With its bounds in order an iteration returns. -/
theorem executeIteration_returns (C : Crypto) (parameters : SystemParameters ℝ) (state : SystemState ℝ)
    (operatorId : OperatorId) (wallets : List (Wallet ℝ))
    (bounds : parameters.economy.burnMin ≤ parameters.economy.burnMax) :
    ∃ beta result, executeIteration C wallets parameters state operatorId = .ok result ∧
      result.Valid C parameters state operatorId wallets beta := by
  obtain ⟨none, -⟩ | ran := executeIteration_cases C parameters state operatorId wallets
  · have some := (isSome_burnRate_iff parameters.economy (measuredInflation state)).mpr ((le_real _ _).mpr bounds)
    rw [none] at some
    cases some
  · exact ran

theorem default_bounds :
    (EconomyParameters.default : EconomyParameters ℝ).burnMin ≤ (EconomyParameters.default : EconomyParameters ℝ).burnMax := by
  norm_num [EconomyParameters.default]

end Runs

section Natural

open NaturalLog

theorem natural_logLike : LogLike where
  monotone _ x_ge _ _ below := Real.log_le_log (zero_lt_one.trans_le x_ge) below
  one := Real.log_one

/-- A seed of ten coins keeps the denominator of every population above the smallest one. -/
theorem natural_large {balance : Nat} (inhabited : 0 < balance) :
    (epsilon : ℝ) < logarithm 10000000 balance := by
  have cast : (1 : ℝ) ≤ balance := Nat.one_le_cast.mpr inhabited
  have divisor : Nat.max 10000000 1 = 10000000 := rfl
  have ratio : (0 : ℝ) < 1 + (balance : ℝ) / 10000000 := by positivity
  have below := Real.one_sub_inv_le_log_of_pos ratio
  have part : (1 / 10000001 : ℝ) ≤ 1 - (1 + (balance : ℝ) / 10000000)⁻¹ := by
    have inverse : (1 + (balance : ℝ) / 10000000)⁻¹ ≤ (10000001 / 10000000)⁻¹ := by
      gcongr
      linarith
    norm_num at inverse ⊢
    linarith
  calc (epsilon : ℝ) < 1 / 10000001 := by norm_num [epsilon]
    _ ≤ 1 - (1 + (balance : ℝ) / 10000000)⁻¹ := part
    _ ≤ Real.log (1 + (balance : ℝ) / 10000000) := below
    _ = logarithm 10000000 balance := by
      rw [logarithm, divisor]
      norm_num [RealOps.ln]

end Natural

end AggoraCoin
