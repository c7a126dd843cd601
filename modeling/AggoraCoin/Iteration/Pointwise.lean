import AggoraCoin.Iteration.Result

namespace AggoraCoin

open F64 Unsigned

variable {F : Type} [F64 F]

section Penalty

variable (economy : EconomyParameters F) (seed : MicroAgc) (balances : List MicroAgc)

/-- The capped penalty of one balance before calibration. -/
def rawPenalty (balance : MicroAgc) : MicroAgc :=
  Nat.min (basePenalty economy seed (penaltyDenominator seed (largestBalance balances)) balance) balance

def rawTotal : MicroAgc := wrappingSum 64 (balances.map (rawPenalty economy seed balances))

def targetPenalty : MicroAgc :=
  floorU64 (mul economy.targetPenaltyShareOfSupply (ofNat (wrappingSum 64 balances)))

/-- The second pass runs: there is something to rescale, and it misses the target by more than
20 percent. -/
def Rescales : Prop :=
  rawTotal economy seed balances > 0 ∧ targetPenalty economy balances > 0 ∧
    lt (lit (20 / 100) : F) (div (ofNat (absDiff (rawTotal economy seed balances) (targetPenalty economy balances)))
      (ofNat (targetPenalty economy balances))) = true

instance : Decidable (Rescales economy seed balances) := inferInstanceAs (Decidable (_ ∧ _))

def penaltyScale : F :=
  div (ofNat (targetPenalty economy balances)) (ofNat (rawTotal economy seed balances))

/-- What a wallet of this balance is charged. -/
def finalPenalty (balance : MicroAgc) : MicroAgc :=
  if Rescales economy seed balances then
    Nat.min (floorU64 (mul (ofNat (rawPenalty economy seed balances balance)) (penaltyScale economy seed balances)))
      balance
  else rawPenalty economy seed balances balance

theorem iterationPenalties_eq_map :
    iterationPenalties economy seed balances = balances.map (finalPenalty economy seed balances) := by
  change calibratedPenalties (F := F) (targetPenalty economy balances) balances
    (balances.map (rawPenalty economy seed balances)) = _
  unfold calibratedPenalties
  by_cases rescales : Rescales economy seed balances
  · have charged : finalPenalty economy seed balances = fun balance =>
        Nat.min (floorU64 (mul (ofNat (rawPenalty economy seed balances balance))
          (penaltyScale economy seed balances))) balance :=
      funext fun balance => if_pos rescales
    rw [if_pos ⟨rescales.1, rescales.2.1⟩, charged, List.zipWith_map_left, List.zipWith_self]
    exact if_pos rescales.2.2
  · have charged : finalPenalty economy seed balances = rawPenalty economy seed balances :=
      funext fun balance => if_neg rescales
    rw [charged]
    by_cases something : rawTotal economy seed balances > 0 ∧ targetPenalty economy balances > 0
    · exact (if_pos something).trans (if_neg fun misses => rescales ⟨something.1, something.2, misses⟩)
    · exact if_neg something

theorem finalPenalty_le (balance : MicroAgc) : finalPenalty economy seed balances balance ≤ balance := by
  unfold finalPenalty
  split
  · exact Nat.min_le_right _ _
  · exact Nat.min_le_right _ _

@[simp] theorem rawPenalty_zero : rawPenalty economy seed balances 0 = 0 := Nat.le_zero.mp (Nat.min_le_right _ _)

@[simp] theorem finalPenalty_zero : finalPenalty economy seed balances 0 = 0 :=
  Nat.le_zero.mp (finalPenalty_le economy seed balances 0)

end Penalty

section Reward

/-- The floored share of one weight. -/
def flooredReward (pool : MicroAgc) (totalWeight weight : F) : MicroAgc :=
  if pool > 0 ∧ lt (lit 0) totalWeight then floorU64 (div (mul (ofNat pool) weight) totalWeight) else 0

theorem flooredRewards_eq_map (pool : MicroAgc) (weights : List F) :
    flooredRewards pool weights = weights.map (flooredReward pool (F64.sum weights)) := rfl

end Reward

section Settlement

variable (parameters : SystemParameters F) (beta : F) (wallets : List (Wallet F))

/-- A wallet after its penalty. -/
def chargedWallet (wallet : Wallet F) : Wallet F :=
  chargeWallet parameters.economy wallet
    (finalPenalty parameters.economy (microSeed parameters) (wallets.map Wallet.balance) wallet.balance)

/-- The weight a wallet is rewarded by. -/
def chargedWeight (wallet : Wallet F) : F :=
  redistributionWeight parameters.economy (chargedWallet parameters wallets wallet)

def totalWeight : F := F64.sum (wallets.map (chargedWeight parameters wallets))

/-- The part of the pool that the weights share. -/
def sharedPool : MicroAgc := (settleIteration parameters beta wallets).allocation.redistributionPool

/-- The reward of a wallet before the residual is settled. -/
def share (wallet : Wallet F) : MicroAgc :=
  flooredReward (sharedPool parameters beta wallets) (totalWeight parameters wallets)
    (chargedWeight parameters wallets wallet)

theorem settleIteration_penalties_eq_map :
    (settleIteration parameters beta wallets).penalties = wallets.map fun wallet =>
      finalPenalty parameters.economy (microSeed parameters) (wallets.map Wallet.balance) wallet.balance := by
  change iterationPenalties _ _ _ = _
  rw [iterationPenalties_eq_map, List.map_map]
  rfl

theorem charged_eq_map :
    wallets.zipWith (chargeWallet parameters.economy) (settleIteration parameters beta wallets).penalties =
      wallets.map (chargedWallet parameters wallets) := by
  rw [settleIteration_penalties_eq_map, List.zipWith_map_right, List.zipWith_self]
  rfl

theorem settleIteration_shares_eq_map :
    (settleIteration parameters beta wallets).shares = wallets.map (share parameters beta wallets) := by
  change flooredRewards (sharedPool parameters beta wallets) ((wallets.zipWith (chargeWallet parameters.economy)
    (settleIteration parameters beta wallets).penalties).map (redistributionWeight parameters.economy)) = _
  rw [charged_eq_map, List.map_map, flooredRewards_eq_map, List.map_map]
  rfl

theorem settleIteration_wallets_eq_map :
    (settleIteration parameters beta wallets).wallets =
      (wallets.map (chargedWallet parameters wallets)).zipWith rewardWallet
        (settleIteration parameters beta wallets).rewards := by
  rw [settleIteration_wallets, charged_eq_map]

theorem settleIteration_rewards_burn (policy : parameters.economy.residualPolicy = .burn) :
    (settleIteration parameters beta wallets).rewards = wallets.map (share parameters beta wallets) := by
  rw [← settleIteration_shares_eq_map]
  simp only [settleIteration, policy, settleResidual]

end Settlement

section Rows

/-- Row `i` of an iteration: the penalty and the reward its commit lists for the wallet, and the
wallet it leaves there. -/
structure IterationResult.Row (result : IterationResult F) (i : Nat) (wallet : Wallet F) (penalty reward : MicroAgc)
    (settled : Wallet F) : Prop where
  penalty_eq : result.commit.penalties[i]? = some (wallet.id, penalty)
  reward_eq : result.commit.rewards[i]? = some (wallet.id, reward)
  wallet_eq : result.wallets[i]? = some settled

variable {C : Crypto} {parameters : SystemParameters F} {state : SystemState F} {operatorId : OperatorId}
  {wallets : List (Wallet F)} {beta : F} {result : IterationResult F}

/-- Whatever an iteration returns is valid. -/
theorem IterationResult.valid_of_ran (ran : executeIteration C wallets parameters state operatorId = .ok result) :
    ∃ beta, result.Valid C parameters state operatorId wallets beta := by
  obtain ⟨-, panics⟩ | ⟨beta, found, returned, valid⟩ := executeIteration_cases C parameters state operatorId wallets
  · rw [ran] at panics
    cases panics
  · rw [ran] at returned
    cases returned
    exact ⟨beta, valid⟩

theorem IterationResult.Valid.settled_getElem (valid : result.Valid C parameters state operatorId wallets beta)
    {i : Nat} {wallet : Wallet F} (found : wallets[i]? = some wallet) :
    result.wallets[i]? = (settleIteration parameters beta wallets).wallets[i]? := by
  have inside := (List.getElem?_eq_some_iff.mp found).1
  rw [valid.wallets_eq, List.getElem?_append_left]
  rwa [settleIteration_wallets_length]

/-- Every wallet has its row. -/
theorem IterationResult.Valid.exists_row (valid : result.Valid C parameters state operatorId wallets beta)
    {i : Nat} {wallet : Wallet F} (found : wallets[i]? = some wallet) :
    ∃ penalty reward settled, result.Row i wallet penalty reward settled := by
  obtain ⟨penalty, reward, settled⟩ := settledAt parameters beta wallets found
  refine ⟨penalty, reward, _, ?_, ?_, (valid.settled_getElem found).trans settled.wallet_eq⟩
  · rw [valid.penalties_eq, List.getElem?_zip_eq_some, List.getElem?_map, found]
    exact ⟨rfl, settled.penalty_eq⟩
  · rw [valid.rewards_eq, List.getElem?_zip_eq_some, List.getElem?_map, found]
    exact ⟨rfl, settled.reward_eq⟩

/-- What the row of a wallet says. -/
theorem IterationResult.Row.eq {i : Nat} {wallet settled : Wallet F} {penalty reward : MicroAgc}
    (row : result.Row i wallet penalty reward settled) (valid : result.Valid C parameters state operatorId wallets beta)
    (found : wallets[i]? = some wallet) :
    penalty = finalPenalty parameters.economy (microSeed parameters) (wallets.map Wallet.balance) wallet.balance ∧
      (settleIteration parameters beta wallets).rewards[i]? = some reward ∧
      settled = rewardWallet (chargedWallet parameters wallets wallet) reward := by
  have penaltyPair := row.penalty_eq
  have rewardPair := row.reward_eq
  rw [valid.penalties_eq, List.getElem?_zip_eq_some] at penaltyPair
  rw [valid.rewards_eq, List.getElem?_zip_eq_some] at rewardPair
  have listedPenalty := penaltyPair.2
  rw [settleIteration_penalties_eq_map, List.getElem?_map, found] at listedPenalty
  refine ⟨(Option.some.inj listedPenalty).symm, rewardPair.2, ?_⟩
  have left := row.wallet_eq
  rw [valid.settled_getElem found, settleIteration_wallets_eq_map, List.getElem?_zipWith, List.getElem?_map, found,
    rewardPair.2] at left
  exact (Option.some.inj left).symm

theorem IterationResult.Row.reward_burn {i : Nat} {wallet settled : Wallet F} {penalty reward : MicroAgc}
    (row : result.Row i wallet penalty reward settled) (valid : result.Valid C parameters state operatorId wallets beta)
    (found : wallets[i]? = some wallet) (policy : parameters.economy.residualPolicy = .burn) :
    reward = share parameters beta wallets wallet := by
  have listed := (row.eq valid found).2.1
  rw [settleIteration_rewards_burn _ _ _ policy, List.getElem?_map, found] at listed
  exact (Option.some.inj listed).symm

end Rows

end AggoraCoin
