import AggoraCoin.Concrete
import AggoraCoin.Lib.FloorSums
import AggoraCoin.Iteration.ExactPenalties

namespace AggoraCoin

open F64 Unsigned

section Band

variable [RealOps] (economy : EconomyParameters ℝ) (seed : MicroAgc) (balances : List MicroAgc)

theorem rawPenalty_le (balance : MicroAgc) : rawPenalty economy seed balances balance ≤ balance := Nat.min_le_right _ _

omit [RealOps] in
theorem absDiff_cast (a b : Nat) : (absDiff a b : ℝ) = |(a : ℝ) - b| := by
  unfold absDiff
  split
  · rename_i below
    have cast : (a : ℝ) < b := Nat.cast_lt.mpr below
    rw [Nat.cast_sub below.le, abs_of_neg (by linarith), neg_sub]
  · rename_i above
    have cast : (b : ℝ) ≤ a := Nat.cast_le.mpr (not_lt.mp above)
    rw [Nat.cast_sub (not_lt.mp above), abs_of_nonneg (by linarith)]

/-- The second pass runs where the raw total is positive and more than a fifth off a positive target. -/
theorem rescales_iff :
    Rescales economy seed balances ↔ 0 < rawTotal economy seed balances ∧ 0 < targetPenalty economy balances ∧
      0.2 * (targetPenalty economy balances : ℝ) <
        |(rawTotal economy seed balances : ℝ) - targetPenalty economy balances| := by
  unfold Rescales
  simp only [lt_real, lit_real, div_real, ofNat_real, absDiff_cast, gt_iff_lt]
  refine and_congr_right fun _ => and_congr_right fun positive => ?_
  have cast : (0 : ℝ) < targetPenalty economy balances := Nat.cast_pos.mpr positive
  rw [lt_div_iff₀ cast]
  norm_num

/-- The penalties of the second pass before they are capped. -/
noncomputable def scaledPenalties : List ℝ :=
  balances.map fun balance => rawPenalty economy seed balances balance * penaltyScale economy seed balances

theorem scaledPenalties_nonneg : ∀ scaled ∈ scaledPenalties economy seed balances, 0 ≤ scaled := by
  intro scaled member
  obtain ⟨balance, -, rfl⟩ := List.mem_map.mp member
  exact mul_nonneg (Nat.cast_nonneg _) (penaltyScale_nonneg _ _ _)

variable {economy seed balances}

theorem rawTotal_eq_sum (fits : balances.sum ≤ maxValue 64) :
    rawTotal economy seed balances = (balances.map (rawPenalty economy seed balances)).sum := by
  refine wrappingSum_of_le (le_trans ?_ fits)
  simpa using List.sum_le_sum fun balance (_ : balance ∈ balances) => rawPenalty_le economy seed balances balance

/-- The scaled penalties add up to the target. -/
theorem scaledPenalties_sum (fits : balances.sum ≤ maxValue 64) (something : 0 < rawTotal economy seed balances) :
    (scaledPenalties economy seed balances).sum = targetPenalty economy balances := by
  have cast : (rawTotal economy seed balances : ℝ) ≠ 0 := Nat.cast_ne_zero.mpr something.ne'
  have raw : (balances.map fun balance => (rawPenalty economy seed balances balance : ℝ)).sum =
      rawTotal economy seed balances := by
    rw [rawTotal_eq_sum fits, Nat.cast_list_sum, List.map_map]
    rfl
  rw [scaledPenalties, List.sum_map_mul_right, raw, penaltyScale_real, mul_div_cancel₀ _ cast]

theorem finalPenalty_rescaled (rescales : Rescales economy seed balances) (balance : MicroAgc) :
    finalPenalty economy seed balances balance =
      Nat.min (floorU64 ((rawPenalty economy seed balances balance : ℝ) * penaltyScale economy seed balances))
        balance := if_pos rescales

theorem finalPenalty_kept (kept : ¬ Rescales economy seed balances) (balance : MicroAgc) :
    finalPenalty economy seed balances balance = rawPenalty economy seed balances balance := if_neg kept

/-- Rescaled penalties never exceed the target. -/
theorem finalPenalties_le_target (fits : balances.sum ≤ maxValue 64) (rescales : Rescales economy seed balances) :
    (balances.map (finalPenalty economy seed balances)).sum ≤ targetPenalty economy balances := by
  have floored := FloorSums.total_le (scaledPenalties_nonneg economy seed balances)
  rw [scaledPenalties_sum fits rescales.1, Nat.cast_le] at floored
  refine le_trans ?_ floored
  rw [FloorSums.total, scaledPenalties, List.map_map]
  refine List.sum_le_sum fun balance _ => ?_
  rw [finalPenalty_rescaled rescales]
  exact (Nat.min_le_left _ _).trans (floorU64_le_floor _)

/-- Where no wallet is charged wholly, less than one unit a wallet is missing. -/
theorem target_lt_finalPenalties (fits : balances.sum ≤ maxValue 64) (rescales : Rescales economy seed balances)
    (spared : ∀ balance ∈ balances, 0 < balance → finalPenalty economy seed balances balance < balance) :
    (targetPenalty economy balances : ℝ) - balances.length <
      (balances.map (finalPenalty economy seed balances)).sum := by
  have inhabited : scaledPenalties economy seed balances ≠ [] := by
    intro empty
    have sum := scaledPenalties_sum fits rescales.1
    rw [empty, List.sum_nil] at sum
    exact rescales.2.1.ne (by exact_mod_cast sum)
  have floored : (balances.map (finalPenalty economy seed balances)).sum =
      FloorSums.total (scaledPenalties economy seed balances) := by
    rw [FloorSums.total, scaledPenalties, List.map_map]
    congr 1
    refine List.map_congr_left fun balance member => ?_
    have part : (rawPenalty economy seed balances balance : ℝ) * penaltyScale economy seed balances ≤
        (targetPenalty economy balances : Nat) := by
      rw [← scaledPenalties_sum fits rescales.1]
      exact List.single_le_sum (scaledPenalties_nonneg economy seed balances) _ (List.mem_map_of_mem member)
    have whole := floorU64_of_le part (floorU64_le _)
    rcases Nat.eq_zero_or_pos balance with rfl | positive
    · simp
    · have below := spared balance member positive
      rw [finalPenalty_rescaled rescales] at below ⊢
      rw [Function.comp_apply, ← whole]
      exact min_eq_left (le_of_lt ((min_lt_iff.mp below).resolve_right (lt_irrefl _)))
  have lost := FloorSums.sum_lt_total_add_length inhabited
  rw [scaledPenalties_sum fits rescales.1, ← floored, scaledPenalties, List.length_map] at lost
  linarith

/-- Scaling down never brings a penalty up to its balance. -/
theorem rawTotal_lt_target {balance : MicroAgc} (spared : rawPenalty economy seed balances balance < balance)
    (charged : finalPenalty economy seed balances balance = balance) :
    rawTotal economy seed balances < targetPenalty economy balances := by
  by_cases rescales : Rescales economy seed balances
  · by_contra above
    have cast : (targetPenalty economy balances : ℝ) ≤ rawTotal economy seed balances :=
      Nat.cast_le.mpr (not_lt.mp above)
    have scale : penaltyScale economy seed balances ≤ 1 := div_le_one_of_le₀ cast (Nat.cast_nonneg _)
    have scaled : floorU64 ((rawPenalty economy seed balances balance : ℝ) * penaltyScale economy seed balances) ≤
        rawPenalty economy seed balances balance := by
      refine (floorU64_le_floor _).trans (Nat.floor_le_of_le ?_)
      exact mul_le_of_le_one_right (Nat.cast_nonneg _) scale
    rw [finalPenalty_rescaled rescales] at charged
    exact absurd spared (not_lt.mpr ((min_eq_right_iff.mp charged).trans scaled))
  · rw [finalPenalty_kept rescales] at charged
    exact absurd charged spared.ne

/-- The calibrated total is never more than a fifth above its target. -/
theorem finalPenalties_le_band (fits : balances.sum ≤ maxValue 64) (positive : 0 < targetPenalty economy balances) :
    ((balances.map (finalPenalty economy seed balances)).sum : ℝ) ≤ 1.2 * targetPenalty economy balances := by
  have cast : (0 : ℝ) < targetPenalty economy balances := Nat.cast_pos.mpr positive
  by_cases rescales : Rescales economy seed balances
  · have below : ((balances.map (finalPenalty economy seed balances)).sum : ℝ) ≤ targetPenalty economy balances := by
      exact_mod_cast finalPenalties_le_target fits rescales
    linarith
  · have raw : balances.map (finalPenalty economy seed balances) = balances.map (rawPenalty economy seed balances) :=
      List.map_congr_left fun balance _ => finalPenalty_kept rescales balance
    rw [raw, ← rawTotal_eq_sum fits]
    rcases Nat.eq_zero_or_pos (rawTotal economy seed balances) with nothing | something
    · rw [nothing, Nat.cast_zero]
      positivity
    · rw [rescales_iff] at rescales
      have near := not_lt.mp fun far => rescales ⟨something, positive, far⟩
      have above := le_abs_self ((rawTotal economy seed balances : ℝ) - targetPenalty economy balances)
      linarith

end Band

/-- What calibration makes of the raw penalties of `balances`, given their total and the target. -/
structure Calibrated (target raw : MicroAgc) (balances rawPenalties penalties : List MicroAgc) : Prop where
  band : (penalties.sum : ℝ) ≤ 1.2 * target
  /-- A raw total that is off is brought to the target, up to a unit a wallet or a wallet charged wholly. -/
  rescaled : 0 < raw → 0.2 * (target : ℝ) < |(raw : ℝ) - target| → penalties.sum ≤ target ∧
    ((target : ℝ) - balances.length < penalties.sum ∨
      ∃ (i : Nat) (balance : MicroAgc), balances[i]? = some balance ∧ 0 < balance ∧ penalties[i]? = some balance)
  /-- The rescaling charges a wallet wholly only when the raw total was below the target. -/
  capped : ∀ (i : Nat) (balance penalty : MicroAgc), balances[i]? = some balance → rawPenalties[i]? = some penalty →
    penalty < balance → penalties[i]? = some balance → raw < target

section Commit

variable [RealOps]

theorem finalPenalties_calibrated {economy : EconomyParameters ℝ} {seed : MicroAgc} {balances : List MicroAgc}
    (fits : balances.sum ≤ maxValue 64) (positive : 0 < targetPenalty economy balances) :
    Calibrated (targetPenalty economy balances) (rawTotal economy seed balances) balances
      (balances.map (rawPenalty economy seed balances)) (balances.map (finalPenalty economy seed balances)) := by
  refine ⟨finalPenalties_le_band fits positive, fun something far => ?_, ?_⟩
  · have rescales : Rescales economy seed balances := (rescales_iff ..).mpr ⟨something, positive, far⟩
    refine ⟨finalPenalties_le_target fits rescales, or_iff_not_imp_right.mpr fun spared => ?_⟩
    refine target_lt_finalPenalties fits rescales fun balance member full => ?_
    obtain ⟨i, inside, here⟩ := List.mem_iff_getElem.mp member
    have found : balances[i]? = some balance := by rw [List.getElem?_eq_getElem inside, here]
    refine lt_of_le_of_ne (finalPenalty_le _ _ _ _) fun wholly => spared ⟨i, balance, found, full, ?_⟩
    rw [List.getElem?_map, found, Option.map_some, wholly]
  · intro i balance penalty found raw spared charged
    rw [List.getElem?_map, found] at raw charged
    rw [← Option.some.inj raw] at spared
    exact rawTotal_lt_target spared (Option.some.inj charged)

theorem IterationResult.Valid.penalties_map {C : Crypto} {parameters : SystemParameters ℝ} {state : SystemState ℝ}
    {operatorId : OperatorId} {wallets : List (Wallet ℝ)} {beta : ℝ} {result : IterationResult ℝ}
    (valid : result.Valid C parameters state operatorId wallets beta) :
    result.commit.penalties.map Prod.snd = (wallets.map Wallet.balance).map
      (finalPenalty parameters.economy (microSeed parameters) (wallets.map Wallet.balance)) := by
  rw [valid.penalties_eq, settleIteration_penalties_eq_map, List.zip_map', List.map_map, List.map_map]
  rfl

/-- When the supply is a word, the penalties of a commit are calibrated. -/
theorem executeIteration_calibrated (C : Crypto) (parameters : SystemParameters ℝ) (state : SystemState ℝ)
    (operatorId : OperatorId) (wallets : List (Wallet ℝ)) {result : IterationResult ℝ}
    (ran : executeIteration C wallets parameters state operatorId = .ok result)
    (fits : (wallets.map Wallet.balance).sum ≤ u64Max)
    (positive : 0 < targetPenalty parameters.economy (wallets.map Wallet.balance)) :
    Calibrated (targetPenalty parameters.economy (wallets.map Wallet.balance))
      (rawTotal parameters.economy (microSeed parameters) (wallets.map Wallet.balance)) (wallets.map Wallet.balance)
      ((wallets.map Wallet.balance).map
        (rawPenalty parameters.economy (microSeed parameters) (wallets.map Wallet.balance)))
      (result.commit.penalties.map Prod.snd) := by
  obtain ⟨beta, valid⟩ := IterationResult.valid_of_ran ran
  rw [valid.penalties_map]
  exact finalPenalties_calibrated fits positive

end Commit

namespace Wrapped

open NaturalLog

/-- Everything is charged, and the target is half the supply. -/
noncomputable def parameters : SystemParameters ℝ :=
  { (SystemParameters.default : SystemParameters ℝ) with
    economy := { (EconomyParameters.default : EconomyParameters ℝ) with
      penaltyRate := 1
      targetPenaltyShareOfSupply := 0.5 } }

/-- Two of these hold two units more than a word. -/
noncomputable def wallet (id : WalletId) : Wallet ℝ := .fresh id id 9223372036854775809 1 0 "op"

theorem microSeed_eq : microSeed parameters = 10000000 := by
  have fits : 10 * microAgcPerAgc ≤ maxValue 64 := by norm_num [microAgcPerAgc, maxValue]
  exact saturatingMul_of_le fits

theorem targetPenalty_eq : targetPenalty parameters.economy [9223372036854775809, 9223372036854775809] = 1 := by
  have supply : wrappingSum 64 [9223372036854775809, 9223372036854775809] = 2 := rfl
  rw [targetPenalty, supply]
  refine floorU64_eq ?_ ?_ (by norm_num [maxValue]) <;> norm_num [parameters]

theorem rawPenalty_eq : rawPenalty parameters.economy 10000000 [9223372036854775809, 9223372036854775809]
    9223372036854775809 = 9223372036854775809 := by
  have largest : largestBalance [9223372036854775809, 9223372036854775809] = 9223372036854775809 := rfl
  have large : (epsilon : ℝ) < logarithm 10000000 (largestBalance [9223372036854775809, 9223372036854775809]) :=
    natural_large (by norm_num [largest])
  have raw : rawPenalty parameters.economy 10000000 [9223372036854775809, 9223372036854775809]
      (largestBalance [9223372036854775809, 9223372036854775809]) = _ :=
    rawPenalty_largest (by norm_num) (by norm_num [largest]) large
  have rate : parameters.economy.penaltyRate = 1 := rfl
  rw [largest, rate, floorU64_eq (n := 9223372036854775809) (by norm_num) (by norm_num) (by norm_num [maxValue])] at raw
  exact raw

theorem rawTotal_eq : rawTotal parameters.economy 10000000 [9223372036854775809, 9223372036854775809] = 2 := by
  rw [rawTotal, List.map_cons, List.map_cons, List.map_nil, rawPenalty_eq]
  rfl

theorem finalPenalty_eq : finalPenalty parameters.economy 10000000 [9223372036854775809, 9223372036854775809]
    9223372036854775809 = 4611686018427387904 := by
  have rescales : Rescales parameters.economy 10000000 [9223372036854775809, 9223372036854775809] := by
    rw [rescales_iff, rawTotal_eq, targetPenalty_eq]
    norm_num
  rw [finalPenalty_rescaled rescales, rawPenalty_eq, penaltyScale_real, rawTotal_eq, targetPenalty_eq,
    floorU64_eq (n := 4611686018427387904) (by norm_num) (by norm_num) (by norm_num [maxValue])]
  rfl

/-- The raw total wraps to 2, and the wallets are charged `2 ^ 63` on a target of 1. -/
theorem executeIteration_overcharges :
    ∃ result, executeIteration Concrete.crypto [wallet "a", wallet "b"] parameters .default "op" = .ok result ∧
      0 < targetPenalty parameters.economy ([wallet "a", wallet "b"].map Wallet.balance) ∧
      1.2 * (targetPenalty parameters.economy ([wallet "a", wallet "b"].map Wallet.balance) : ℝ) <
        (result.commit.penalties.map Prod.snd).sum := by
  obtain ⟨beta, result, ran, valid⟩ :=
    executeIteration_returns Concrete.crypto parameters .default "op" [wallet "a", wallet "b"] default_bounds
  have balances : [wallet "a", wallet "b"].map Wallet.balance = [9223372036854775809, 9223372036854775809] := rfl
  have charged : (result.commit.penalties.map Prod.snd).sum = 9223372036854775808 := by
    rw [valid.penalties_map, balances, microSeed_eq]
    simp only [List.map_cons, List.map_nil, finalPenalty_eq]
    rfl
  refine ⟨result, ran, ?_, ?_⟩
  · rw [balances, targetPenalty_eq]
    exact zero_lt_one
  · rw [balances, targetPenalty_eq, charged]
    norm_num

noncomputable def coin (id : WalletId) : Wallet ℝ := .fresh id id 1000 1 0 "op"

/-- Of two small wallets everything would be charged; calibration brings it to half the supply. -/
theorem executeIteration_calibrated_half :
    ∃ result, executeIteration Concrete.crypto [coin "a", coin "b"] parameters .default "op" = .ok result ∧
      ((result.commit.penalties.map Prod.snd).sum : ℝ) ≤ 1.2 * 1000 ∧
      (result.commit.penalties.map Prod.snd).sum ≤ 1000 ∧
      ((1000 : ℝ) - 2 < (result.commit.penalties.map Prod.snd).sum ∨
        ∃ (i : Nat) (balance : MicroAgc), [1000, 1000][i]? = some balance ∧ 0 < balance ∧
          (result.commit.penalties.map Prod.snd)[i]? = some balance) := by
  obtain ⟨beta, result, ran, -⟩ :=
    executeIteration_returns Concrete.crypto parameters .default "op" [coin "a", coin "b"] default_bounds
  have balances : [coin "a", coin "b"].map Wallet.balance = [1000, 1000] := rfl
  have target : targetPenalty parameters.economy [1000, 1000] = 1000 := by
    have supply : wrappingSum 64 [1000, 1000] = 2000 := rfl
    rw [targetPenalty, supply]
    refine floorU64_eq ?_ ?_ (by norm_num [maxValue]) <;> norm_num [parameters]
  have raw : rawPenalty parameters.economy 10000000 [1000, 1000] 1000 = 1000 := by
    have largest : largestBalance [1000, 1000] = 1000 := rfl
    have large : (epsilon : ℝ) < logarithm 10000000 (largestBalance [1000, 1000]) :=
      natural_large (by norm_num [largest])
    have plain : rawPenalty parameters.economy 10000000 [1000, 1000] (largestBalance [1000, 1000]) = _ :=
      rawPenalty_largest (by norm_num) (by norm_num [largest]) large
    have rate : parameters.economy.penaltyRate = 1 := rfl
    rw [largest, rate, floorU64_eq (n := 1000) (by norm_num) (by norm_num) (by norm_num [maxValue])] at plain
    exact plain
  have total : rawTotal parameters.economy (microSeed parameters) [1000, 1000] = 2000 := by
    rw [microSeed_eq, rawTotal, List.map_cons, List.map_cons, List.map_nil, raw]
    rfl
  have fits : [1000, 1000].sum ≤ u64Max := by norm_num [maxValue]
  have calibrated := executeIteration_calibrated _ _ _ _ _ ran fits (by rw [balances, target]; norm_num)
  rw [balances, target, total] at calibrated
  have rescaled := calibrated.rescaled (by norm_num) (by norm_num)
  exact ⟨result, ran, by exact_mod_cast calibrated.band, rescaled.1, by exact_mod_cast rescaled.2⟩

end Wrapped

end AggoraCoin
