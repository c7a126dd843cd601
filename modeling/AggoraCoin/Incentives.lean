import AggoraCoin.Concrete
import AggoraCoin.Iteration.ExactPenalties
import AggoraCoin.Iteration.ExactRewards

namespace AggoraCoin

open F64 Unsigned

section Incentives

variable [RealOps] {C : Crypto} {parameters : SystemParameters ℝ} {state : SystemState ℝ} {operatorId : OperatorId}
  {wallets : List (Wallet ℝ)} {beta : ℝ} {result : IterationResult ℝ}

/-- The activity score and the post-penalty balance that a row's weight is taken at. -/
theorem IterationResult.Row.weight {i : Nat} {wallet settled : Wallet ℝ} {penalty reward : MicroAgc}
    (row : result.Row i wallet penalty reward settled) (valid : result.Valid C parameters state operatorId wallets beta)
    (found : wallets[i]? = some wallet) :
    chargedWeight parameters wallets wallet =
      activityFactor parameters.economy settled.activityScore *
        balanceFactor parameters.economy (wallet.balance - penalty) := by
  obtain ⟨charged, -, left⟩ := row.eq valid found
  rw [left, charged, chargedWeight, redistributionWeight_real]
  rfl

/-- Progressive penalties, and rewards that follow activity and, against it, the balance. -/
theorem executeIteration_incentives (C : Crypto) (parameters : SystemParameters ℝ) (state : SystemState ℝ)
    (operatorId : OperatorId) (wallets : List (Wallet ℝ)) {result : IterationResult ℝ}
    (ran : executeIteration C wallets parameters state operatorId = .ok result)
    (monotone : MonotoneOn RealOps.ln (Set.Ici 1)) (one : RealOps.ln 1 = 0)
    (rate : 0 ≤ parameters.economy.penaltyRate)
    (range : parameters.economy.redistributionActiveMin ≤ parameters.economy.redistributionActiveMax)
    {i j : Nat} {wallet other settled settledOther : Wallet ℝ} {penalty reward penaltyOther rewardOther : MicroAgc}
    (at_i : wallets[i]? = some wallet) (at_j : wallets[j]? = some other)
    (row : result.Row i wallet penalty reward settled)
    (rowOther : result.Row j other penaltyOther rewardOther settledOther) :
    (wallet.balance ≤ other.balance → penalty ≤ penaltyOther) ∧
      (wallet.balance = 0 → penalty = 0) ∧
      penalty ≤ wallet.balance ∧
      (parameters.economy.residualPolicy = .burn →
        (wallet.balance - penalty = other.balance - penaltyOther →
          settled.activityScore ≤ settledOther.activityScore → reward ≤ rewardOther) ∧
        (settled.activityScore = settledOther.activityScore →
          other.balance - penaltyOther ≤ wallet.balance - penalty → reward ≤ rewardOther)) := by
  obtain ⟨beta, valid⟩ := IterationResult.valid_of_ran ran
  obtain ⟨charged, -, -⟩ := row.eq valid at_i
  obtain ⟨chargedOther, -, -⟩ := rowOther.eq valid at_j
  have log : LogLike := ⟨monotone, one⟩
  refine ⟨fun below => ?_, fun empty => ?_, ?_, fun policy => ?_⟩
  · rw [charged, chargedOther]
    exact log.finalPenalty_mono _ _ _ rate below
  · rw [charged, empty, finalPenalty_zero]
  · rw [charged]
    exact finalPenalty_le _ _ _ _
  · have heavier : chargedWeight parameters wallets wallet ≤ chargedWeight parameters wallets other →
        reward ≤ rewardOther := by
      intro below
      rw [row.reward_burn valid at_i policy, rowOther.reward_burn valid at_j policy]
      exact flooredReward_mono _ _ below
    rw [row.weight valid at_i, rowOther.weight valid at_j] at heavier
    constructor
    · intro equal busier
      refine heavier ?_
      rw [equal]
      exact mul_le_mul_of_nonneg_right (activityFactor_mono _ range busier) (balanceFactor_nonneg _ _)
    · intro equal smaller
      refine heavier ?_
      rw [equal]
      exact mul_le_mul_of_nonneg_left (balanceFactor_anti _ smaller) (activityFactor_nonneg _ _)

end Incentives

section Natural

open NaturalLog

/-- With the natural logarithm and the default parameters: the rich pay no less than the poor, and of two equally
rich wallets the active one is rewarded no less. -/
theorem executeIteration_incentives_three :
    ∃ (poor busy idle : Wallet ℝ) (result : IterationResult ℝ)
      (penalty reward penaltyBusy rewardBusy penaltyIdle rewardIdle : MicroAgc)
      (settled settledBusy settledIdle : Wallet ℝ),
      executeIteration Concrete.crypto [poor, busy, idle] .default .default "op" = .ok result ∧
        result.Row 0 poor penalty reward settled ∧ result.Row 1 busy penaltyBusy rewardBusy settledBusy ∧
        result.Row 2 idle penaltyIdle rewardIdle settledIdle ∧
        poor.balance < busy.balance ∧ penalty ≤ penaltyBusy ∧ penaltyBusy ≤ busy.balance ∧
        busy.balance = idle.balance ∧ idle.activityScore < busy.activityScore ∧ rewardIdle ≤ rewardBusy := by
  let poor : Wallet ℝ := .fresh "a" "ka" 1 1 0 "op"
  let busy : Wallet ℝ := .fresh "b" "kb" 10000000 1 0 "op"
  let idle : Wallet ℝ := { (.fresh "c" "kc" 10000000 1 0 "op" : Wallet ℝ) with activityScore := 0 }
  obtain ⟨beta, result, ran, valid⟩ :=
    executeIteration_returns Concrete.crypto .default .default "op" [poor, busy, idle] default_bounds
  obtain ⟨penalty, reward, settled, row⟩ := valid.exists_row (i := 0) rfl
  obtain ⟨penaltyBusy, rewardBusy, settledBusy, rowBusy⟩ := valid.exists_row (i := 1) rfl
  obtain ⟨penaltyIdle, rewardIdle, settledIdle, rowIdle⟩ := valid.exists_row (i := 2) rfl
  have rate : 0 ≤ (SystemParameters.default : SystemParameters ℝ).economy.penaltyRate := by
    norm_num [SystemParameters.default, EconomyParameters.default]
  have range : (SystemParameters.default : SystemParameters ℝ).economy.redistributionActiveMin ≤
      (SystemParameters.default : SystemParameters ℝ).economy.redistributionActiveMax := by
    norm_num [SystemParameters.default, EconomyParameters.default]
  obtain ⟨progressive, -⟩ := executeIteration_incentives _ _ _ _ _ ran natural_logLike.monotone natural_logLike.one
    rate range (i := 0) (j := 1) rfl rfl row rowBusy
  obtain ⟨-, -, covered, -⟩ := executeIteration_incentives _ _ _ _ _ ran natural_logLike.monotone natural_logLike.one
    rate range (i := 1) (j := 2) rfl rfl rowBusy rowIdle
  obtain ⟨-, -, -, rewarded⟩ := executeIteration_incentives _ _ _ _ _ ran natural_logLike.monotone natural_logLike.one
    rate range (i := 2) (j := 1) rfl rfl rowIdle rowBusy
  obtain ⟨chargedBusy, -, leftBusy⟩ := rowBusy.eq valid rfl
  obtain ⟨chargedIdle, -, leftIdle⟩ := rowIdle.eq valid rfl
  have equal : idle.balance - penaltyIdle = busy.balance - penaltyBusy := by
    rw [chargedBusy, chargedIdle]
    rfl
  have busier : settledIdle.activityScore ≤ settledBusy.activityScore := by
    rw [leftBusy, leftIdle]
    have lambda : clampUnit (SystemParameters.default : SystemParameters ℝ).economy.activityEmaLambda ≤ 1 := by
      rw [clampUnit_real]
      exact min_le_right _ _
    refine add_le_add le_rfl (mul_le_mul_of_nonneg_left (show (0 : ℝ) ≤ lit 1 by norm_num) ?_)
    rw [sub_real, lit_real, Rat.cast_one]
    exact sub_nonneg.mpr lambda
  refine ⟨poor, busy, idle, result, penalty, reward, penaltyBusy, rewardBusy, penaltyIdle, rewardIdle, settled,
    settledBusy, settledIdle, ran, row, rowBusy, rowIdle, ?_, progressive ?_, covered, rfl, ?_, (rewarded rfl).1 equal busier⟩
  · exact (by decide : 1 < 10000000)
  · exact (by decide : 1 ≤ 10000000)
  · exact (show (0 : ℝ) < lit 1 by norm_num)

end Natural

end AggoraCoin
