import AggoraCoin.Economy

namespace AggoraCoin

open F64 Unsigned

variable {F : Type} [F64 F]

theorem rawPenalties_le (economy : EconomyParameters F) (seed : MicroAgc) (balances : List MicroAgc) :
    List.Forall₂ (· ≤ ·) (rawPenalties economy seed balances) balances := by
  unfold rawPenalties
  simp only [List.forall₂_map_left_iff, List.forall₂_same]
  exact fun balance _ => Nat.min_le_right _ balance

theorem rescaledPenalties_le (scale : MicroAgc → MicroAgc) {penalties balances : List MicroAgc}
    (aligned : penalties.length = balances.length) :
    List.Forall₂ (· ≤ ·)
      (penalties.zipWith (fun penalty balance => Nat.min (scale penalty) balance) balances) balances := by
  induction penalties generalizing balances with
  | nil =>
    rw [List.eq_nil_of_length_eq_zero aligned.symm]
    exact .nil
  | cons penalty rest ih =>
    cases balances with
    | nil => simp at aligned
    | cons balance later => exact .cons (Nat.min_le_right _ _) (ih (Nat.succ.inj aligned))

/-- Whether or not the second pass rescales them, no penalty exceeds its balance. -/
theorem iterationPenalties_le (economy : EconomyParameters F) (seed : MicroAgc) (balances : List MicroAgc) :
    List.Forall₂ (· ≤ ·) (iterationPenalties economy seed balances) balances := by
  have raw := rawPenalties_le economy seed balances
  simp only [iterationPenalties, calibratedPenalties]
  split
  · split
    · exact rescaledPenalties_le _ raw.length_eq
    · exact raw
  · exact raw

/-- The three cuts of the pool nest, so neither plain subtraction underflows. -/
structure PoolAllocation.Cuts (allocation : PoolAllocation) (faucetNeeded penaltyTotal : MicroAgc) : Prop where
  faucet_le : allocation.faucetFromPenalty ≤ penaltyTotal
  poolAfterFaucet_eq : allocation.poolAfterFaucet = penaltyTotal - allocation.faucetFromPenalty
  burned_le : allocation.burnedBase ≤ allocation.poolAfterFaucet
  redistribution_eq : allocation.redistributionPool = allocation.poolAfterFaucet - allocation.burnedBase
  faucet_eq : allocation.faucetFromPenalty + allocation.faucetFromMint = faucetNeeded

theorem allocatePool_cuts (economy : EconomyParameters F) (beta : F) (faucetNeeded : MicroAgc)
    {penaltyTotal : MicroAgc} (bound : penaltyTotal ≤ u64Max) :
    (allocatePool economy beta faucetNeeded penaltyTotal).Cuts faucetNeeded penaltyTotal := by
  have capped (cap : Nat) : Nat.min (Nat.min faucetNeeded cap) penaltyTotal ≤ penaltyTotal := Nat.min_le_right _ _
  have demanded (cap : Nat) : Nat.min (Nat.min faucetNeeded cap) penaltyTotal ≤ faucetNeeded :=
    (Nat.min_le_left _ _).trans (Nat.min_le_left _ _)
  constructor
  · exact capped _
  · exact wrappingSub_of_le bound (capped _)
  · exact Nat.min_le_right _ _
  · refine wrappingSub_of_le ?_ (Nat.min_le_right _ _)
    exact wrappingSub_of_le bound (capped _) ▸ (Nat.sub_le _ _).trans bound
  · exact Nat.add_sub_cancel' (demanded _)

theorem PoolAllocation.Cuts.total {allocation : PoolAllocation} {faucetNeeded penaltyTotal : MicroAgc}
    (cuts : allocation.Cuts faucetNeeded penaltyTotal) :
    allocation.faucetFromPenalty + allocation.burnedBase + allocation.redistributionPool = penaltyTotal := by
  have faucet := cuts.faucet_le
  have after := cuts.poolAfterFaucet_eq
  have burned := cuts.burned_le
  have rest := cuts.redistribution_eq
  lia

theorem balances_charged (economy : EconomyParameters F) (wallets : List (Wallet F)) (penalties : List MicroAgc) :
    (wallets.zipWith (chargeWallet economy) penalties).map Wallet.balance =
      (wallets.map Wallet.balance).zipWith saturatingSub penalties := by
  rw [List.map_zipWith, List.zipWith_map_left]
  rfl

section Rewards

omit [F64 F]

theorem balances_rewarded (wallets : List (Wallet F)) (rewards : List MicroAgc) :
    (wallets.zipWith rewardWallet rewards).map Wallet.balance =
      (wallets.map Wallet.balance).zipWith (saturatingAdd 64) rewards := by
  rw [List.map_zipWith, List.zipWith_map_left]
  rfl

theorem rewardWallet_add (wallet : Wallet F) (share residual : MicroAgc) :
    { rewardWallet wallet share with
      balance := saturatingAdd 64 (rewardWallet wallet share).balance residual } =
      rewardWallet wallet (saturatingAdd 64 share residual) := by
  simp only [rewardWallet, saturatingAdd_assoc]

/-- Under either policy the settled wallets are the charged ones, each with its listed reward. -/
theorem settleResidual_wallets (policy : ResidualPolicy) (residual burnedBase : MicroAgc)
    (charged : List (Wallet F)) (shares : List MicroAgc) :
    (settleResidual policy residual burnedBase (charged.zipWith rewardWallet shares) shares).1 =
      charged.zipWith rewardWallet
        (settleResidual policy residual burnedBase (charged.zipWith rewardWallet shares) shares).2.1 := by
  cases policy with
  | burn => rfl
  | genesisWallet =>
    cases charged with
    | nil => rfl
    | cons wallet rest =>
      cases shares with
      | nil => rfl
      | cons share later =>
        simp only [settleResidual, List.zipWith_cons_cons, List.modifyHead_cons, rewardWallet_add]

/-- The residual is burned or added to the first reward, never both and never neither. -/
theorem settleResidual_total (policy : ResidualPolicy) (residual burnedBase : MicroAgc)
    {charged : List (Wallet F)} {shares : List MicroAgc} (aligned : charged.length = shares.length)
    (burnFits : burnedBase + residual ≤ u64Max) (rewardFits : shares.sum + residual ≤ u64Max) :
    let settled := settleResidual policy residual burnedBase (charged.zipWith rewardWallet shares) shares
    settled.2.2 + settled.2.1.sum = burnedBase + residual + shares.sum := by
  cases policy with
  | burn => simp only [settleResidual, saturatingAdd_of_le burnFits]
  | genesisWallet =>
    cases charged with
    | nil => simp only [settleResidual, List.zipWith_nil_left, saturatingAdd_of_le burnFits]
    | cons wallet rest =>
      cases shares with
      | nil => simp at aligned
      | cons share later =>
        simp only [List.sum_cons] at rewardFits
        simp only [settleResidual, List.zipWith_cons_cons, List.modifyHead_cons, List.sum_cons,
          saturatingAdd_of_le (show share + residual ≤ u64Max by lia)]
        lia

@[simp] theorem settleResidual_rewards_length (policy : ResidualPolicy) (residual burnedBase : MicroAgc)
    (wallets : List (Wallet F)) (shares : List MicroAgc) :
    (settleResidual policy residual burnedBase wallets shares).2.1.length = shares.length := by
  cases policy with
  | burn => rfl
  | genesisWallet => cases wallets <;> simp [settleResidual]

end Rewards

section Settlement

variable (parameters : SystemParameters F) (beta : F) (wallets : List (Wallet F))

theorem settleIteration_penalties_le :
    List.Forall₂ (· ≤ ·) (settleIteration parameters beta wallets).penalties (wallets.map Wallet.balance) :=
  iterationPenalties_le _ _ _

theorem settleIteration_penalties_length :
    (settleIteration parameters beta wallets).penalties.length = wallets.length := by
  simpa using (settleIteration_penalties_le parameters beta wallets).length_eq

theorem settleIteration_shares_length :
    (settleIteration parameters beta wallets).shares.length = wallets.length := by
  have aligned := settleIteration_penalties_length parameters beta wallets
  simp only [settleIteration] at aligned ⊢
  simp [flooredRewards, aligned]

theorem settleIteration_rewards_length :
    (settleIteration parameters beta wallets).rewards.length = wallets.length :=
  (settleResidual_rewards_length ..).trans (settleIteration_shares_length parameters beta wallets)

/-- Index by index, a settled wallet is the wallet charged its listed penalty and paid its
listed reward. -/
theorem settleIteration_wallets :
    (settleIteration parameters beta wallets).wallets =
      (wallets.zipWith (chargeWallet parameters.economy) (settleIteration parameters beta wallets).penalties).zipWith
        rewardWallet (settleIteration parameters beta wallets).rewards :=
  settleResidual_wallets ..

theorem settleIteration_wallets_length :
    (settleIteration parameters beta wallets).wallets.length = wallets.length := by
  simp [settleIteration_wallets, settleIteration_penalties_length, settleIteration_rewards_length]

/-- A column that only depends on the left operand of a `zipWith`. -/
theorem map_zipWith_left {α β γ δ : Type} (f : α → β → γ) (g : γ → δ) (h : α → δ) (kept : ∀ a b, g (f a b) = h a)
    {as : List α} {bs : List β} (aligned : as.length = bs.length) : (as.zipWith f bs).map g = as.map h := by
  induction as generalizing bs with
  | nil => rfl
  | cons a rest ih =>
    cases bs with
    | nil => simp at aligned
    | cons b later =>
      simp only [List.zipWith_cons_cons, List.map_cons, kept, ih (Nat.succ.inj aligned)]

theorem settleIteration_ids :
    (settleIteration parameters beta wallets).wallets.map Wallet.id = wallets.map Wallet.id := by
  have penalties := settleIteration_penalties_length parameters beta wallets
  have rewards := settleIteration_rewards_length parameters beta wallets
  rw [settleIteration_wallets, map_zipWith_left rewardWallet Wallet.id Wallet.id fun _ _ => rfl,
    map_zipWith_left (chargeWallet parameters.economy) Wallet.id Wallet.id fun _ _ => rfl]
  · exact penalties.symm
  · simp [penalties, rewards]

theorem settleIteration_cuts :
    (settleIteration parameters beta wallets).allocation.Cuts
      (saturatingMul 64 (plannedNewWallets parameters.growth wallets.length) (microSeed parameters))
      (wrappingSum 64 (settleIteration parameters beta wallets).penalties) :=
  allocatePool_cuts _ _ _ (wrappingSum_le _)

theorem settleIteration_charged_length :
    (wallets.zipWith (chargeWallet parameters.economy) (settleIteration parameters beta wallets).penalties).length =
      (settleIteration parameters beta wallets).shares.length := by
  simp [settleIteration_penalties_length, settleIteration_shares_length]

theorem settleIteration_residual :
    settleResidual parameters.economy.residualPolicy
      (saturatingSub (settleIteration parameters beta wallets).allocation.redistributionPool
        ((settleIteration parameters beta wallets).shares.foldl (saturatingAdd 64) 0))
      (settleIteration parameters beta wallets).allocation.burnedBase
      ((wallets.zipWith (chargeWallet parameters.economy) (settleIteration parameters beta wallets).penalties).zipWith
        rewardWallet (settleIteration parameters beta wallets).shares)
      (settleIteration parameters beta wallets).shares =
    ((settleIteration parameters beta wallets).wallets, (settleIteration parameters beta wallets).rewards,
      (settleIteration parameters beta wallets).burned) := rfl

/-- The charged balances, before any reward. -/
theorem settleIteration_charged :
    ((wallets.map Wallet.balance).zipWith saturatingSub (settleIteration parameters beta wallets).penalties).sum +
      (settleIteration parameters beta wallets).penalties.sum = (wallets.map Wallet.balance).sum :=
  sum_zipWith_sub (settleIteration_penalties_le parameters beta wallets)

theorem settleIteration_penalties_sum_le :
    (settleIteration parameters beta wallets).penalties.sum ≤ (wallets.map Wallet.balance).sum :=
  (settleIteration_penalties_le parameters beta wallets).sum_le_sum

/-- The exact supply after the rewards is a `u64`. Floored rewards may round above the pool, so
this is asked of what they are, not of what they should be. -/
def SettlementFits : Prop :=
  (wallets.map Wallet.balance).sum + (settleIteration parameters beta wallets).rewards.sum ≤
    u64Max + (settleIteration parameters beta wallets).penalties.sum

/-- The settled balances add up to the charged ones and the rewards, when that fits. -/
theorem settleIteration_supply (fits : SettlementFits parameters beta wallets) :
    ((settleIteration parameters beta wallets).wallets.map Wallet.balance).sum +
      (settleIteration parameters beta wallets).penalties.sum =
        (wallets.map Wallet.balance).sum + (settleIteration parameters beta wallets).rewards.sum := by
  unfold SettlementFits at fits
  have charged := settleIteration_charged parameters beta wallets
  have balances : (settleIteration parameters beta wallets).wallets.map Wallet.balance =
      ((wallets.map Wallet.balance).zipWith saturatingSub
        (settleIteration parameters beta wallets).penalties).zipWith (saturatingAdd 64)
        (settleIteration parameters beta wallets).rewards := by
    rw [settleIteration_wallets, balances_rewarded, balances_charged]
  rw [balances, sum_zipWith_saturatingAdd]
  · lia
  · simp [settleIteration_penalties_length, settleIteration_rewards_length]
  · change _ ≤ u64Max
    lia

end Settlement

section Index

variable (parameters : SystemParameters F) (beta : F) (wallets : List (Wallet F))

/-- The wallet at index `i`, its listed penalty and reward, and what becomes of it. -/
structure SettledAt (i : Nat) (wallet : Wallet F) (penalty reward : MicroAgc) (settled : Wallet F) : Prop where
  penalty_eq : (settleIteration parameters beta wallets).penalties[i]? = some penalty
  reward_eq : (settleIteration parameters beta wallets).rewards[i]? = some reward
  wallet_eq : (settleIteration parameters beta wallets).wallets[i]? = some settled
  penalty_le : penalty ≤ wallet.balance
  settled_eq : settled = rewardWallet (chargeWallet parameters.economy wallet penalty) reward

theorem settledAt {i : Nat} {wallet : Wallet F} (found : wallets[i]? = some wallet) :
    ∃ penalty reward, SettledAt parameters beta wallets i wallet penalty reward
      (rewardWallet (chargeWallet parameters.economy wallet penalty) reward) := by
  obtain ⟨inside, here⟩ := List.getElem?_eq_some_iff.mp found
  have below := settleIteration_penalties_le parameters beta wallets
  obtain ⟨penalty, atPenalty⟩ : ∃ penalty, (settleIteration parameters beta wallets).penalties[i]? = some penalty :=
    ⟨_, List.getElem?_eq_getElem (by rwa [settleIteration_penalties_length])⟩
  obtain ⟨reward, atReward⟩ : ∃ reward, (settleIteration parameters beta wallets).rewards[i]? = some reward :=
    ⟨_, List.getElem?_eq_getElem (by rwa [settleIteration_rewards_length])⟩
  refine ⟨penalty, reward, atPenalty, atReward, ?_, ?_, rfl⟩
  · rw [settleIteration_wallets, List.getElem?_zipWith, List.getElem?_zipWith, found, atPenalty, atReward]
  · obtain ⟨within, same⟩ := List.getElem?_eq_some_iff.mp atPenalty
    have le := below.get within (by simpa using inside)
    simpa [same, here] using le

variable {parameters beta wallets}

/-- When the supply fits, the settled balance is exactly what the commit lists. -/
theorem SettledAt.balance {i : Nat} {wallet settled : Wallet F} {penalty reward : MicroAgc}
    (at_i : SettledAt parameters beta wallets i wallet penalty reward settled)
    (found : wallets[i]? = some wallet) (fits : SettlementFits parameters beta wallets) :
    settled.balance = wallet.balance - penalty + reward := by
  have charged := settleIteration_charged parameters beta wallets
  have left : wallet.balance - penalty ≤ ((wallets.map Wallet.balance).zipWith saturatingSub
      (settleIteration parameters beta wallets).penalties).sum := by
    refine List.le_sum_of_mem (List.mem_of_getElem? (i := i) ?_)
    rw [List.getElem?_zipWith, List.getElem?_map, found, at_i.penalty_eq]
    rfl
  have right := List.le_sum_of_mem (List.mem_of_getElem? at_i.reward_eq)
  have small : wallet.balance - penalty + reward ≤ u64Max := by
    unfold SettlementFits at fits
    lia
  rw [at_i.settled_eq]
  exact saturatingAdd_of_le small

end Index

end AggoraCoin
