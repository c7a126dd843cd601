import AggoraCoin.Concrete
import AggoraCoin.Iteration.Result

namespace AggoraCoin

open F64 Unsigned

variable {F : Type} [F64 F]

variable (parameters : SystemParameters F) (beta : F) (wallets : List (Wallet F))

/-- The exact amounts of an iteration are `u64` values and the floored rewards keep to their pool. -/
structure IterationFits : Prop where
  preSupply : (wallets.map Wallet.balance).sum ≤ u64Max
  faucet : plannedNewWallets parameters.growth wallets.length * microSeed parameters ≤ u64Max
  shares : (settleIteration parameters beta wallets).shares.sum ≤
    (settleIteration parameters beta wallets).allocation.redistributionPool
  postSupply : (wallets.map Wallet.balance).sum - (settleIteration parameters beta wallets).burned +
    (settleIteration parameters beta wallets).allocation.faucetFromMint ≤ u64Max

variable {parameters beta wallets}

theorem IterationFits.cuts (fits : IterationFits parameters beta wallets) :
    (settleIteration parameters beta wallets).allocation.Cuts
      (plannedNewWallets parameters.growth wallets.length * microSeed parameters)
      (settleIteration parameters beta wallets).penalties.sum := by
  have cuts := settleIteration_cuts parameters beta wallets
  have bound := (settleIteration_penalties_sum_le parameters beta wallets).trans fits.preSupply
  rwa [saturatingMul_of_le fits.faucet, wrappingSum_of_le bound] at cuts

/-- The whole pool is handed out: to the faucet, to the burn and to the listed rewards. -/
theorem IterationFits.pool (fits : IterationFits parameters beta wallets) :
    (settleIteration parameters beta wallets).allocation.faucetFromPenalty +
      (settleIteration parameters beta wallets).burned + (settleIteration parameters beta wallets).rewards.sum =
        (settleIteration parameters beta wallets).penalties.sum := by
  have total := fits.cuts.total
  have bound := (settleIteration_penalties_sum_le parameters beta wallets).trans fits.preSupply
  have within := fits.shares
  have settled := settleIteration_residual parameters beta wallets
  have aligned := settleIteration_charged_length parameters beta wallets
  generalize settleIteration parameters beta wallets = s at *
  have distributed : s.shares.foldl (saturatingAdd 64) 0 = s.shares.sum := by
    rw [foldl_saturatingAdd _ (Nat.zero_le _), Nat.zero_add]
    exact min_eq_left (by lia)
  rw [distributed] at settled
  have handed := settleResidual_total parameters.economy.residualPolicy
    (saturatingSub s.allocation.redistributionPool s.shares.sum) s.allocation.burnedBase aligned
    (by unfold saturatingSub; lia) (by unfold saturatingSub; lia)
  rw [settled] at handed
  simp only [saturatingSub] at handed
  lia

theorem IterationFits.settlement (fits : IterationFits parameters beta wallets) :
    SettlementFits parameters beta wallets := by
  have pool := fits.pool
  have pre := fits.preSupply
  unfold SettlementFits
  lia

/-- The supply a result holds, faucet wallets included. -/
theorem IterationResult.Valid.supply {C : Crypto} {state : SystemState F} {operatorId : OperatorId}
    {result : IterationResult F} (valid : result.Valid C parameters state operatorId wallets beta)
    (fits : SettlementFits parameters beta wallets) :
    (result.wallets.map Wallet.balance).sum + (settleIteration parameters beta wallets).penalties.sum =
      (wallets.map Wallet.balance).sum + (settleIteration parameters beta wallets).rewards.sum +
        plannedNewWallets parameters.growth wallets.length * microSeed parameters := by
  have settled := settleIteration_supply parameters beta wallets fits
  have planned := plannedWallets_supply C parameters state operatorId wallets.length
  rw [valid.wallets_eq, List.map_append, List.sum_append, planned]
  lia

variable (parameters wallets)

/-- The pool accounting of an iteration, to the last unit. -/
structure IterationAccounts (beta : F) (result : IterationResult F) : Prop where
  /-- Neither of the two plain subtractions underflows. -/
  faucet_le : (settleIteration parameters beta wallets).allocation.faucetFromPenalty ≤
    (settleIteration parameters beta wallets).penalties.sum
  burned_le : (settleIteration parameters beta wallets).allocation.burnedBase ≤
    (settleIteration parameters beta wallets).penalties.sum -
      (settleIteration parameters beta wallets).allocation.faucetFromPenalty
  each : ∀ (i : Nat) (wallet : Wallet F), wallets[i]? = some wallet →
    ∃ (penalty reward : MicroAgc) (settled : Wallet F),
    result.commit.penalties[i]? = some (wallet.id, penalty) ∧
    result.commit.rewards[i]? = some (wallet.id, reward) ∧
    result.wallets[i]? = some settled ∧ settled.id = wallet.id ∧
    penalty ≤ wallet.balance ∧ settled.balance = wallet.balance - penalty + reward
  pool : result.commit.faucetFromPenalty + result.commit.burned + (result.commit.rewards.map Prod.snd).sum =
    (result.commit.penalties.map Prod.snd).sum
  faucet : result.commit.faucetFromPenalty + result.commit.faucetFromMint =
    plannedNewWallets parameters.growth wallets.length * microSeed parameters
  snapshot : result.commit.snapshotSupply = (wallets.map Wallet.balance).sum
  burned_le_snapshot : result.commit.burned ≤ result.commit.snapshotSupply
  post : result.commit.postSupply =
    result.commit.snapshotSupply - result.commit.burned + result.commit.faucetFromMint
  post_exact : result.commit.postSupply = (result.wallets.map Wallet.balance).sum

variable {parameters wallets}

theorem IterationResult.Valid.accounts {C : Crypto} {state : SystemState F} {operatorId : OperatorId}
    {result : IterationResult F} (valid : result.Valid C parameters state operatorId wallets beta)
    (fits : IterationFits parameters beta wallets) : IterationAccounts parameters wallets beta result := by
  have cuts := fits.cuts
  have pool := fits.pool
  have charged := settleIteration_penalties_sum_le parameters beta wallets
  have supply := valid.supply fits.settlement
  have faucet := cuts.faucet_eq
  have burned : (settleIteration parameters beta wallets).burned ≤ (wallets.map Wallet.balance).sum := by
    lia
  have exact_post : (result.wallets.map Wallet.balance).sum = (wallets.map Wallet.balance).sum -
      (settleIteration parameters beta wallets).burned +
      (settleIteration parameters beta wallets).allocation.faucetFromMint := by
    rw [← faucet] at supply
    clear faucet cuts
    lia
  have snapshot : result.commit.snapshotSupply = (wallets.map Wallet.balance).sum :=
    valid.snapshotSupply_eq.trans (wrappingSum_of_le fits.preSupply)
  have postSupply : result.commit.postSupply = (result.wallets.map Wallet.balance).sum :=
    valid.postSupply_eq.trans (wrappingSum_of_le (exact_post.trans_le fits.postSupply))
  constructor
  case faucet_le => exact cuts.faucet_le
  case burned_le => exact cuts.poolAfterFaucet_eq ▸ cuts.burned_le
  case each =>
    intro i wallet found
    obtain ⟨penalty, reward, settled⟩ := settledAt parameters beta wallets found
    have named : (wallets.map Wallet.id)[i]? = some wallet.id := by rw [List.getElem?_map, found]; rfl
    refine ⟨penalty, reward, rewardWallet (chargeWallet parameters.economy wallet penalty) reward, ?_, ?_, ?_, rfl,
      settled.penalty_le, settled.balance found fits.settlement⟩
    · rw [valid.penalties_eq, List.getElem?_zip_eq_some]
      exact ⟨named, settled.penalty_eq⟩
    · rw [valid.rewards_eq, List.getElem?_zip_eq_some]
      exact ⟨named, settled.reward_eq⟩
    · rw [valid.wallets_eq]
      obtain ⟨inside, _⟩ := List.getElem?_eq_some_iff.mp settled.wallet_eq
      rw [List.getElem?_append_left inside, settled.wallet_eq]
  case pool =>
    rw [valid.faucetFromPenalty_eq, valid.burned_eq, valid.rewards_eq, valid.penalties_eq,
      List.map_snd_zip, List.map_snd_zip]
    · exact pool
    · simp [settleIteration_penalties_length]
    · simp [settleIteration_rewards_length]
  case faucet => rw [valid.faucetFromPenalty_eq, valid.faucetFromMint_eq, faucet]
  case snapshot => exact snapshot
  case burned_le_snapshot =>
    rw [snapshot, valid.burned_eq]
    exact burned
  case post => rw [postSupply, snapshot, valid.burned_eq, valid.faucetFromMint_eq, exact_post]
  case post_exact => exact postSupply

/-- With `burn_min <= burn_max` an iteration always returns, and whatever the floating-point
expressions evaluate to, its pool balances as long as the exact amounts fit. -/
theorem executeIteration_accounts (C : Crypto) (parameters : SystemParameters F) (state : SystemState F)
    (operatorId : OperatorId) (wallets : List (Wallet F))
    (ordered : le parameters.economy.burnMin parameters.economy.burnMax = true) :
    ∃ beta result, burnRate parameters.economy (measuredInflation state) = some beta ∧
      executeIteration C wallets parameters state operatorId = .ok result ∧
      (IterationFits parameters beta wallets → IterationAccounts parameters wallets beta result) := by
  rcases executeIteration_cases C parameters state operatorId wallets with ⟨panics, _⟩ | ⟨beta, result, returned, valid⟩
  · have clamped := (isSome_burnRate_iff _ (measuredInflation state)).mpr ordered
    rw [panics] at clamped
    cases clamped
  · exact ⟨beta, result, valid.rate, returned, valid.accounts⟩

/-- Two wallets, and two more from the faucet. -/
theorem executeIteration_accounts_pair :
    let wallets : List (Wallet ℚ) :=
      [.fresh "a" "ka" 10000000 1 0 "op", .fresh "b" "kb" 30000000 2 0 "op"]
    ∃ result, executeIteration Concrete.crypto wallets Concrete.parameters .default "op" = .ok result ∧
      IterationAccounts Concrete.parameters wallets (9 / 100) result := by
  intro wallets
  obtain ⟨beta, result, rate, returned, accounts⟩ := executeIteration_accounts Concrete.crypto Concrete.parameters
    .default "op" wallets (by decide +kernel)
  have nine : burnRate Concrete.parameters.economy (measuredInflation .default) = some (9 / 100) := by
    decide +kernel
  cases Option.some.inj (rate.symm.trans nine)
  exact ⟨result, returned, accounts ⟨by decide +kernel, by decide +kernel, by decide +kernel, by decide +kernel⟩⟩

end AggoraCoin
