import AggoraCoin.Concrete
import AggoraCoin.Iteration.ExactPenalties
import AggoraCoin.Iteration.ExactRewards

namespace AggoraCoin

open F64 Unsigned

section Totals

variable {F : Type} [F64 F]

theorem wrappingSum_perm {values permuted : List Nat} (perm : values.Perm permuted) :
    wrappingSum 64 values = wrappingSum 64 permuted := by
  unfold wrappingSum
  rw [perm.sum_eq]

theorem largestBalance_perm {balances permuted : List MicroAgc} (perm : balances.Perm permuted) :
    largestBalance balances = largestBalance permuted := by
  have commutes : RightCommutative Nat.max := ⟨fun a b c => by simp only [Nat.max_right_comm]⟩
  exact perm.foldl_eq 0

variable (economy : EconomyParameters F) (seed : MicroAgc) {balances permuted : List MicroAgc}

theorem rawPenalty_perm (perm : balances.Perm permuted) :
    rawPenalty economy seed balances = rawPenalty economy seed permuted := by
  unfold rawPenalty
  rw [largestBalance_perm perm]

theorem rawTotal_perm (perm : balances.Perm permuted) :
    rawTotal economy seed balances = rawTotal economy seed permuted := by
  unfold rawTotal
  rw [rawPenalty_perm economy seed perm]
  exact wrappingSum_perm (perm.map _)

/-- The penalty of a balance depends on the other balances, not on their order. -/
theorem finalPenalty_perm (perm : balances.Perm permuted) :
    finalPenalty economy seed balances = finalPenalty economy seed permuted := by
  have target : targetPenalty economy balances = targetPenalty economy permuted := by
    unfold targetPenalty
    rw [wrappingSum_perm perm]
  have raw := rawPenalty_perm economy seed perm
  have total := rawTotal_perm economy seed perm
  have rescales : Rescales economy seed balances ↔ Rescales economy seed permuted := by
    unfold Rescales
    rw [total, target]
  funext balance
  simp only [finalPenalty, rescales, penaltyScale, raw, total, target]

end Totals

section Settlement

variable {F : Type} [F64 F] (parameters : SystemParameters F) (beta : F) {wallets permuted : List (Wallet F)}

theorem chargedWallet_perm (perm : wallets.Perm permuted) :
    chargedWallet parameters wallets = chargedWallet parameters permuted := by
  unfold chargedWallet
  rw [finalPenalty_perm _ _ (perm.map Wallet.balance)]

theorem chargedWeight_perm (perm : wallets.Perm permuted) :
    chargedWeight parameters wallets = chargedWeight parameters permuted := by
  unfold chargedWeight
  rw [chargedWallet_perm parameters perm]

theorem settleIteration_penalties_perm (perm : wallets.Perm permuted) :
    (settleIteration parameters beta wallets).penalties.Perm (settleIteration parameters beta permuted).penalties := by
  rw [settleIteration_penalties_eq_map, settleIteration_penalties_eq_map,
    finalPenalty_perm _ _ (perm.map Wallet.balance)]
  exact perm.map _

/-- The pool is cut the same way. -/
theorem settleIteration_allocation_perm (perm : wallets.Perm permuted) :
    (settleIteration parameters beta wallets).allocation = (settleIteration parameters beta permuted).allocation := by
  have total := wrappingSum_perm (settleIteration_penalties_perm parameters beta perm)
  change allocatePool _ _ (saturatingMul 64 (plannedNewWallets _ wallets.length) _)
      (wrappingSum 64 (settleIteration parameters beta wallets).penalties) =
    allocatePool _ _ (saturatingMul 64 (plannedNewWallets _ permuted.length) _)
      (wrappingSum 64 (settleIteration parameters beta permuted).penalties)
  rw [total, perm.length_eq]

end Settlement

section Rewards

variable [RealOps] (parameters : SystemParameters ℝ) (beta : ℝ)

/-- What the floored shares leave of the pool. -/
noncomputable def residual (wallets : List (Wallet ℝ)) : MicroAgc :=
  saturatingSub (sharedPool parameters beta wallets)
    ((settleIteration parameters beta wallets).shares.foldl (saturatingAdd 64) 0)

/-- The listed reward of a wallet: its share, and the residual on top where the policy gives it to
the wallet that is scanned first. -/
noncomputable def finalReward (wallets : List (Wallet ℝ)) (wallet : Wallet ℝ) : MicroAgc :=
  if parameters.economy.residualPolicy = .genesisWallet ∧ wallets.head?.map Wallet.id = some wallet.id then
    saturatingAdd 64 (share parameters beta wallets wallet) (residual parameters beta wallets)
  else share parameters beta wallets wallet

theorem settleIteration_rewards_eq_map {wallets : List (Wallet ℝ)} (distinct : (wallets.map Wallet.id).Nodup) :
    (settleIteration parameters beta wallets).rewards = wallets.map (finalReward parameters beta wallets) := by
  cases policy : parameters.economy.residualPolicy with
  | burn =>
    rw [settleIteration_rewards_burn _ _ _ policy]
    refine List.map_congr_left fun wallet _ => (if_neg ?_).symm
    rw [policy]
    exact fun both => by cases both.1
  | genesisWallet =>
    cases wallets with
    | nil => exact List.eq_nil_of_length_eq_zero (settleIteration_rewards_length parameters beta [])
    | cons first rest =>
      have rewards := congrArg (fun settled => settled.2.1)
        (settleIteration_residual parameters beta (first :: rest))
      have others : rest.map (finalReward parameters beta (first :: rest)) =
          rest.map (share parameters beta (first :: rest)) := by
        refine List.map_congr_left fun wallet member => if_neg ?_
        rintro ⟨-, same⟩
        refine (List.nodup_cons.mp distinct).1 ?_
        rw [show first.id = wallet.id from Option.some.inj same]
        exact List.mem_map_of_mem member
      have here : finalReward parameters beta (first :: rest) first =
          saturatingAdd 64 (share parameters beta (first :: rest) first) (residual parameters beta (first :: rest)) :=
        if_pos ⟨policy, rfl⟩
      rw [List.map_cons, others, here]
      simp only [policy, charged_eq_map, settleIteration_shares_eq_map, List.map_cons, List.zipWith_cons_cons,
        settleResidual, List.modifyHead_cons] at rewards
      simp only [residual, settleIteration_shares_eq_map, List.map_cons]
      exact rewards.symm

theorem sharedPool_le (wallets : List (Wallet ℝ)) : sharedPool parameters beta wallets ≤ maxValue 64 := by
  have cuts := (settleIteration_cuts parameters beta wallets).total
  have bound := wrappingSum_le (w := 64) (settleIteration parameters beta wallets).penalties
  exact (Nat.le_add_left _ _).trans (cuts.le.trans bound)

theorem chargedWeights_nonneg (wallets : List (Wallet ℝ)) :
    ∀ weight ∈ wallets.map (chargedWeight parameters wallets), 0 ≤ weight := by
  intro weight member
  obtain ⟨wallet, -, rfl⟩ := List.mem_map.mp member
  exact redistributionWeight_nonneg _ _

theorem settleIteration_shares_real (wallets : List (Wallet ℝ)) :
    (settleIteration parameters beta wallets).shares =
      flooredRewards (sharedPool parameters beta wallets) (wallets.map (chargedWeight parameters wallets)) := by
  rw [settleIteration_shares_eq_map, flooredRewards_eq_map, List.map_map]
  rfl

theorem settleIteration_shares_sum_le (wallets : List (Wallet ℝ)) :
    (settleIteration parameters beta wallets).shares.sum ≤ sharedPool parameters beta wallets := by
  rw [settleIteration_shares_real]
  exact flooredRewards_sum_le (sharedPool_le _ _ _) (chargedWeights_nonneg _ _)

theorem share_add_residual_le {wallets : List (Wallet ℝ)} {wallet : Wallet ℝ} (member : wallet ∈ wallets) :
    share parameters beta wallets wallet + residual parameters beta wallets ≤ maxValue 64 := by
  have pool := sharedPool_le parameters beta wallets
  have shares := settleIteration_shares_sum_le parameters beta wallets
  have one : share parameters beta wallets wallet ≤ (settleIteration parameters beta wallets).shares.sum := by
    rw [settleIteration_shares_eq_map]
    exact List.single_le_sum (fun _ _ => Nat.zero_le _) _ (List.mem_map_of_mem member)
  have kept : residual parameters beta wallets =
      sharedPool parameters beta wallets - (settleIteration parameters beta wallets).shares.sum := by
    rw [residual, foldl_saturatingAdd _ (Nat.zero_le _), zero_add, min_eq_left (shares.trans pool)]
    rfl
  rw [kept]
  calc share parameters beta wallets wallet +
        (sharedPool parameters beta wallets - (settleIteration parameters beta wallets).shares.sum)
      ≤ (settleIteration parameters beta wallets).shares.sum +
        (sharedPool parameters beta wallets - (settleIteration parameters beta wallets).shares.sum) :=
        Nat.add_le_add_right one _
    _ = sharedPool parameters beta wallets := Nat.add_sub_of_le shares
    _ ≤ maxValue 64 := pool

/-- The residual vanishes exactly where the weights divide the pool. -/
theorem residual_eq_zero_iff (wallets : List (Wallet ℝ)) :
    residual parameters beta wallets = 0 ↔
      WholeShares (sharedPool parameters beta wallets) (wallets.map (chargedWeight parameters wallets)) := by
  have pool := sharedPool_le parameters beta wallets
  have shares := settleIteration_shares_sum_le parameters beta wallets
  rw [← flooredRewards_sum_eq_iff pool (chargedWeights_nonneg parameters wallets), ← settleIteration_shares_real,
    residual, foldl_saturatingAdd _ (Nat.zero_le _), zero_add, min_eq_left (shares.trans pool), saturatingSub,
    Nat.sub_eq_zero_iff_le]
  exact ⟨fun above => Nat.le_antisymm shares above, fun same => same.ge⟩

/-- No wallet can be charged a whole unit, or what is charged goes to the faucet or is burned. -/
inductive SharesNothing (parameters : SystemParameters ℝ) (wallets : List (Wallet ℝ)) : Prop
  | broke (balances : ∀ wallet ∈ wallets, wallet.balance = 0)
  | seedless (seed : parameters.economy.initialSeedAgc = 0)
  | free (rate : parameters.economy.penaltyRate = 0)
  | petty (log : LogLike) (small : ∀ wallet ∈ wallets, parameters.economy.penaltyRate * wallet.balance < 1)
  | planted (share : 1 ≤ parameters.economy.faucetShareOfPenalty)
      (demand : (wallets.map Wallet.balance).sum ≤
        plannedNewWallets parameters.growth wallets.length * microSeed parameters)
  | burned (burnMin : 1 ≤ parameters.economy.burnMin)

theorem rawPenalty_eq_zero (balances : List MicroAgc) (balance : MicroAgc)
    (free : microSeed parameters = 0 ∨ parameters.economy.penaltyRate = 0) :
    rawPenalty parameters.economy (microSeed parameters) balances balance = 0 := by
  refine Nat.le_zero.mp ((Nat.min_le_left _ _).trans ?_)
  unfold basePenalty
  split
  · exact le_rfl
  rename_i charged
  rcases free with seedless | rate
  · refine absurd (Or.inr ?_) charged
    rw [seedless, penaltyDenominator, if_neg fun both => absurd both.2 (lt_irrefl 0), le_real]
    norm_num [epsilon]
  · rw [rate]
    exact (floorU64_eq (n := 0) (by simp) (by simp) (Nat.zero_le _)).le

omit [RealOps] in
theorem wrappingSum_eq_zero {values : List Nat} (zero : ∀ value ∈ values, value = 0) : wrappingSum 64 values = 0 := by
  rw [wrappingSum, List.sum_eq_zero zero, Nat.zero_mod]

/-- Where the curve charges nobody, calibration has nothing to scale. -/
theorem finalPenalty_eq_zero {wallets : List (Wallet ℝ)} {wallet : Wallet ℝ} (member : wallet ∈ wallets)
    (uncharged : ∀ wallet ∈ wallets,
      rawPenalty parameters.economy (microSeed parameters) (wallets.map Wallet.balance) wallet.balance = 0) :
    finalPenalty parameters.economy (microSeed parameters) (wallets.map Wallet.balance) wallet.balance = 0 := by
  have kept : ¬ Rescales parameters.economy (microSeed parameters) (wallets.map Wallet.balance) := by
    rintro ⟨something, -⟩
    refine something.ne' (wrappingSum_eq_zero fun penalty charged => ?_)
    obtain ⟨balance, listed, rfl⟩ := List.mem_map.mp charged
    obtain ⟨other, inside, rfl⟩ := List.mem_map.mp listed
    exact uncharged other inside
  rw [finalPenalty, if_neg kept, uncharged wallet member]

theorem burnMin_le_of_burnRate {economy : EconomyParameters ℝ} {inflation : ℝ}
    (rate : burnRate economy inflation = some beta) : economy.burnMin ≤ beta := by
  unfold burnRate clamp at rate
  split at rate
  · rename_i ordered
    rw [le_real] at ordered
    obtain rfl := Option.some.inj rate
    simp only [lt_real]
    split_ifs <;> linarith
  · cases rate

/-- A rate of one burns what the faucet leaves. -/
theorem allocatePool_all_burned {economy : EconomyParameters ℝ} {needed total : MicroAgc} (all : 1 ≤ beta)
    (bound : total ≤ maxValue 64) : (allocatePool economy beta needed total).redistributionPool = 0 := by
  have cuts := allocatePool_cuts economy beta needed bound
  have rated : total ≤ floorU64 (mul beta (ofNat total : ℝ)) := by
    refine le_min (Nat.le_floor ?_) bound
    exact le_mul_of_one_le_left (Nat.cast_nonneg _) all
  have burned : (allocatePool economy beta needed total).poolAfterFaucet ≤
      (allocatePool economy beta needed total).burnedBase := by
    refine le_min (le_trans ?_ rated) le_rfl
    rw [cuts.poolAfterFaucet_eq]
    exact Nat.sub_le _ _
  rw [cuts.redistribution_eq, Nat.sub_eq_zero_of_le burned]

/-- Where the demand covers the penalties, a share of one gives the faucet all of them. -/
theorem allocatePool_all_planted {economy : EconomyParameters ℝ} {needed total : MicroAgc}
    (share : 1 ≤ economy.faucetShareOfPenalty) (demand : total ≤ needed) (bound : total ≤ maxValue 64) :
    (allocatePool economy beta needed total).redistributionPool = 0 := by
  have cuts := allocatePool_cuts economy beta needed bound
  have capped : total ≤ floorU64 (mul economy.faucetShareOfPenalty (ofNat total : ℝ)) := by
    refine le_min (Nat.le_floor ?_) bound
    exact le_mul_of_one_le_left (Nat.cast_nonneg _) share
  have planted : total ≤ (allocatePool economy beta needed total).faucetFromPenalty :=
    le_min (le_min demand capped) le_rfl
  rw [cuts.redistribution_eq, cuts.poolAfterFaucet_eq, Nat.sub_eq_zero_of_le planted, Nat.zero_sub]

/-- Then the pool is empty. -/
theorem SharesNothing.sharedPool_eq {wallets : List (Wallet ℝ)} (nothing : SharesNothing parameters wallets)
    {inflation : ℝ} (rate : burnRate parameters.economy inflation = some beta) :
    sharedPool parameters beta wallets = 0 := by
  have idle (uncharged : ∀ wallet ∈ wallets,
      rawPenalty parameters.economy (microSeed parameters) (wallets.map Wallet.balance) wallet.balance = 0) :
      sharedPool parameters beta wallets = 0 := by
    have total := (settleIteration_cuts parameters beta wallets).total
    rw [settleIteration_penalties_eq_map, wrappingSum_eq_zero fun penalty charged => ?_] at total
    · exact (Nat.add_eq_zero_iff.mp total).2
    · obtain ⟨wallet, member, rfl⟩ := List.mem_map.mp charged
      exact finalPenalty_eq_zero parameters member uncharged
  cases nothing with
  | broke balances =>
    refine idle fun wallet member => ?_
    rw [balances wallet member, rawPenalty_zero]
  | seedless seed =>
    have unseeded : microSeed parameters = 0 := by
      rw [microSeed, seed]
      rfl
    exact idle fun _ _ => rawPenalty_eq_zero parameters _ _ (Or.inl unseeded)
  | free rate => exact idle fun _ _ => rawPenalty_eq_zero parameters _ _ (Or.inr rate)
  | petty log small =>
    exact idle fun wallet member => log.rawPenalty_petty (List.mem_map_of_mem member) (small wallet member)
  | planted share demand =>
    have charged := settleIteration_penalties_sum_le parameters beta wallets
    have total : wrappingSum 64 (settleIteration parameters beta wallets).penalties ≤
        saturatingMul 64 (plannedNewWallets parameters.growth wallets.length) (microSeed parameters) :=
      le_min ((Nat.mod_le _ _).trans (charged.trans demand)) (wrappingSum_le _)
    exact allocatePool_all_planted beta share total (wrappingSum_le _)
  | burned burnMin =>
    exact allocatePool_all_burned beta (burnMin.trans (burnMin_le_of_burnRate beta rate)) (wrappingSum_le _)

/-- Of an empty pool nothing is paid. -/
theorem finalReward_eq_zero {wallets : List (Wallet ℝ)} (empty : sharedPool parameters beta wallets = 0)
    (wallet : Wallet ℝ) : finalReward parameters beta wallets wallet = 0 := by
  have share : share parameters beta wallets wallet = 0 := by
    refine if_neg fun shares => ?_
    rw [empty] at shares
    exact lt_irrefl 0 shares.1
  have residual : residual parameters beta wallets = 0 := by
    rw [residual, empty]
    exact Nat.zero_sub _
  rw [finalReward, share, residual, saturatingAdd_of_le (Nat.zero_le _), ite_self]

section Perm

variable {wallets permuted : List (Wallet ℝ)}

theorem share_perm (perm : wallets.Perm permuted) :
    share parameters beta wallets = share parameters beta permuted := by
  have weights := perm.map (chargedWeight parameters wallets)
  have total : totalWeight parameters wallets = totalWeight parameters permuted := by
    rw [totalWeight, totalWeight, sum_real, sum_real, weights.sum_eq, chargedWeight_perm parameters perm]
  funext wallet
  rw [share, share, total, chargedWeight_perm parameters perm, sharedPool, sharedPool,
    settleIteration_allocation_perm parameters beta perm]

theorem residual_perm (perm : wallets.Perm permuted) :
    residual parameters beta wallets = residual parameters beta permuted := by
  have shares : (settleIteration parameters beta wallets).shares.Perm
      (settleIteration parameters beta permuted).shares := by
    rw [settleIteration_shares_eq_map, settleIteration_shares_eq_map, share_perm parameters beta perm]
    exact perm.map _
  rw [residual, residual, foldl_saturatingAdd _ (Nat.zero_le _), foldl_saturatingAdd _ (Nat.zero_le _), shares.sum_eq,
    sharedPool, sharedPool, settleIteration_allocation_perm parameters beta perm]

/-- Whether the residual changes hands when the wallets are scanned in another order. -/
theorem finalReward_perm_iff (perm : wallets.Perm permuted) :
    (∀ wallet ∈ wallets, finalReward parameters beta wallets wallet = finalReward parameters beta permuted wallet) ↔
      parameters.economy.residualPolicy = .burn ∨
        WholeShares (sharedPool parameters beta wallets) (wallets.map (chargedWeight parameters wallets)) ∨
        wallets.head?.map Wallet.id = permuted.head?.map Wallet.id := by
  rw [← residual_eq_zero_iff]
  have shares := share_perm parameters beta perm
  have left := residual_perm parameters beta perm
  constructor
  · intro same
    cases policy : parameters.economy.residualPolicy with
    | burn => exact Or.inl rfl
    | genesisWallet =>
      refine Or.inr (or_iff_not_imp_right.mpr fun moved => ?_)
      cases wallets with
      | nil => exact absurd (by rw [List.nil_perm.mp perm]) moved
      | cons first rest =>
        have fits := share_add_residual_le parameters beta (List.mem_cons_self (a := first) (l := rest))
        have unpaid : ¬ (permuted.head?.map Wallet.id = some first.id) := fun paid => moved paid.symm
        have here := same first List.mem_cons_self
        rw [finalReward, if_pos ⟨policy, rfl⟩, saturatingAdd_of_le fits, finalReward,
          if_neg fun both => unpaid both.2, ← shares] at here
        exact Nat.add_eq_left.mp here
  · intro kept wallet member
    unfold finalReward
    rcases kept with burns | whole | first
    · rw [burns, shares]
      simp only [reduceCtorEq, false_and, if_false]
    · have fits := share_add_residual_le parameters beta member
      rw [← left, ← shares, saturatingAdd_of_le fits, whole, Nat.add_zero, ite_self, ite_self]
    · rw [first, shares, left]

end Perm

end Rewards

section Runs

/-- Two iterations give every wallet id the same penalty and reward and leave the same wallets, and
their commits have the same totals. -/
structure IterationResult.SameByIdentity (one other : IterationResult ℝ) : Prop where
  penalties : one.commit.penalties.Perm other.commit.penalties
  rewards : one.commit.rewards.Perm other.commit.rewards
  wallets : one.wallets.Perm other.wallets
  burned : one.commit.burned = other.commit.burned
  faucetFromPenalty : one.commit.faucetFromPenalty = other.commit.faucetFromPenalty
  faucetFromMint : one.commit.faucetFromMint = other.commit.faucetFromMint
  newWallets : one.commit.newWallets = other.commit.newWallets
  snapshotSupply : one.commit.snapshotSupply = other.commit.snapshotSupply
  postSupply : one.commit.postSupply = other.commit.postSupply

variable [RealOps] {C : Crypto} {parameters : SystemParameters ℝ} {state : SystemState ℝ} {operatorId : OperatorId}
  {beta : ℝ} {wallets permuted : List (Wallet ℝ)} {result other : IterationResult ℝ}

/-- The wallet an iteration leaves in the place of one it was given. -/
noncomputable def finalWallet (parameters : SystemParameters ℝ) (beta : ℝ) (wallets : List (Wallet ℝ))
    (wallet : Wallet ℝ) : Wallet ℝ :=
  rewardWallet (chargedWallet parameters wallets wallet) (finalReward parameters beta wallets wallet)

theorem IterationResult.Valid.rewards_eq_map (valid : result.Valid C parameters state operatorId wallets beta)
    (distinct : (wallets.map Wallet.id).Nodup) :
    result.commit.rewards = wallets.map fun wallet => (wallet.id, finalReward parameters beta wallets wallet) := by
  rw [valid.rewards_eq, settleIteration_rewards_eq_map parameters beta distinct, List.zip_map']

theorem IterationResult.Valid.wallets_eq_map (valid : result.Valid C parameters state operatorId wallets beta)
    (distinct : (wallets.map Wallet.id).Nodup) :
    result.wallets = wallets.map (finalWallet parameters beta wallets) ++
      plannedWallets C parameters state operatorId wallets.length := by
  rw [valid.wallets_eq, settleIteration_wallets_eq_map, settleIteration_rewards_eq_map parameters beta distinct,
    List.zipWith_map, List.zipWith_self]
  rfl

/-- Only a list without a wallet has its residual burned under the other policy. -/
theorem settleIteration_burned :
    (settleIteration parameters beta wallets).burned =
      if parameters.economy.residualPolicy = .burn ∨ wallets = [] then
        saturatingAdd 64 (settleIteration parameters beta wallets).allocation.burnedBase
          (residual parameters beta wallets)
      else (settleIteration parameters beta wallets).allocation.burnedBase := by
  have burned := congrArg (fun settled => settled.2.2) (settleIteration_residual parameters beta wallets)
  cases policy : parameters.economy.residualPolicy with
  | burn =>
    simp only [policy, settleResidual] at burned
    rw [if_pos (Or.inl rfl), residual]
    exact burned.symm
  | genesisWallet =>
    cases wallets with
    | nil =>
      simp only [policy, settleResidual, List.zipWith_nil_left] at burned
      rw [if_pos (Or.inr rfl), residual]
      exact burned.symm
    | cons first rest =>
      simp only [policy, charged_eq_map, settleIteration_shares_eq_map, List.map_cons, List.zipWith_cons_cons,
        settleResidual] at burned
      have kept : ¬ (ResidualPolicy.genesisWallet = .burn ∨ first :: rest = []) := by
        rintro (different | empty)
        · cases different
        · cases empty
      rw [if_neg kept]
      exact burned.symm

theorem settleIteration_burned_perm (perm : wallets.Perm permuted) :
    (settleIteration parameters beta wallets).burned = (settleIteration parameters beta permuted).burned := by
  have emptied : wallets = [] ↔ permuted = [] := by
    constructor
    · rintro rfl
      exact List.nil_perm.mp perm
    · rintro rfl
      exact List.perm_nil.mp perm
  rw [settleIteration_burned, settleIteration_burned, residual_perm parameters beta perm,
    settleIteration_allocation_perm parameters beta perm]
  simp only [emptied]

/-- The runs agree exactly when every wallet has the reward it had. -/
theorem IterationResult.Valid.sameByIdentity_iff
    (valid : result.Valid C parameters state operatorId wallets beta)
    (validOther : other.Valid C parameters state operatorId permuted beta)
    (distinct : (wallets.map Wallet.id).Nodup) (perm : wallets.Perm permuted) :
    result.SameByIdentity other ↔ ∀ wallet ∈ wallets,
      finalReward parameters beta wallets wallet = finalReward parameters beta permuted wallet := by
  have distinctOther : (permuted.map Wallet.id).Nodup := (perm.map Wallet.id).nodup_iff.mp distinct
  constructor
  · intro same wallet member
    have listed : (wallet.id, finalReward parameters beta wallets wallet) ∈ result.commit.rewards := by
      rw [valid.rewards_eq_map distinct]
      exact List.mem_map_of_mem member
    have moved := same.rewards.mem_iff.mp listed
    rw [validOther.rewards_eq_map distinctOther] at moved
    obtain ⟨twin, inside, equal⟩ := List.mem_map.mp moved
    obtain ⟨id, reward⟩ := Prod.mk.inj equal
    have itself : twin = wallet := List.inj_on_of_nodup_map distinctOther inside (perm.mem_iff.mp member) id
    rw [← reward, itself]
  · intro same
    have faucet : plannedWallets C parameters state operatorId wallets.length =
        plannedWallets C parameters state operatorId permuted.length := by rw [perm.length_eq]
    have settled : wallets.map (finalWallet parameters beta wallets) =
        wallets.map (finalWallet parameters beta permuted) := by
      refine List.map_congr_left fun wallet member => ?_
      rw [finalWallet, finalWallet, same wallet member, chargedWallet_perm parameters perm]
    have left : result.wallets.Perm other.wallets := by
      rw [valid.wallets_eq_map distinct, validOther.wallets_eq_map distinctOther, faucet, settled]
      exact (perm.map _).append_right _
    constructor
    · rw [valid.penalties_eq, validOther.penalties_eq, settleIteration_penalties_eq_map,
        settleIteration_penalties_eq_map, List.zip_map', List.zip_map',
        finalPenalty_perm _ _ (perm.map Wallet.balance)]
      exact perm.map _
    · rw [valid.rewards_eq_map distinct, validOther.rewards_eq_map distinctOther,
        List.map_congr_left fun wallet member => by rw [same wallet member]]
      exact perm.map _
    · exact left
    · rw [valid.burned_eq, validOther.burned_eq, settleIteration_burned_perm perm]
    · rw [valid.faucetFromPenalty_eq, validOther.faucetFromPenalty_eq, settleIteration_allocation_perm _ _ perm]
    · rw [valid.faucetFromMint_eq, validOther.faucetFromMint_eq, settleIteration_allocation_perm _ _ perm]
    · rw [valid.newWallets_eq, validOther.newWallets_eq, faucet]
    · rw [valid.snapshotSupply_eq, validOther.snapshotSupply_eq, wrappingSum_perm (perm.map Wallet.balance)]
    · rw [valid.postSupply_eq, validOther.postSupply_eq, wrappingSum_perm (left.map Wallet.balance)]

/-- An iteration over the same wallets in another order comes out the same unless a residual is
left, goes to a wallet, and another wallet is scanned first. -/
theorem executeIteration_permuted_iff (C : Crypto) (parameters : SystemParameters ℝ) (state : SystemState ℝ)
    (operatorId : OperatorId) (bounds : parameters.economy.burnMin ≤ parameters.economy.burnMax)
    {wallets permuted : List (Wallet ℝ)} (distinct : (wallets.map Wallet.id).Nodup) (perm : wallets.Perm permuted) :
    ∃ beta result other, burnRate parameters.economy (measuredInflation state) = some beta ∧
      executeIteration C wallets parameters state operatorId = .ok result ∧
      executeIteration C permuted parameters state operatorId = .ok other ∧
      (result.SameByIdentity other ↔
        parameters.economy.residualPolicy = .burn ∨
          WholeShares (sharedPool parameters beta wallets) (wallets.map (chargedWeight parameters wallets)) ∨
          wallets.head?.map Wallet.id = permuted.head?.map Wallet.id) := by
  obtain ⟨beta, result, ran, valid⟩ := executeIteration_returns C parameters state operatorId wallets bounds
  obtain ⟨again, other, ranOther, validOther⟩ := executeIteration_returns C parameters state operatorId permuted bounds
  obtain rfl : beta = again := Option.some.inj (valid.rate.symm.trans validOther.rate)
  refine ⟨beta, result, other, valid.rate, ran, ranOther, ?_⟩
  rw [valid.sameByIdentity_iff validOther distinct perm]
  exact finalReward_perm_iff parameters beta perm

/-- Where the residual is burned, or nothing is shared that could leave one, the order of the wallets changes
nothing; and no wallet is paid for standing first. -/
theorem executeIteration_permuted (C : Crypto) (parameters : SystemParameters ℝ) (state : SystemState ℝ)
    (operatorId : OperatorId) (bounds : parameters.economy.burnMin ≤ parameters.economy.burnMax)
    {wallets permuted : List (Wallet ℝ)} (distinct : (wallets.map Wallet.id).Nodup) (perm : wallets.Perm permuted)
    (settled : parameters.economy.residualPolicy = .burn ∨ SharesNothing parameters wallets) :
    ∃ result other, executeIteration C wallets parameters state operatorId = .ok result ∧
      executeIteration C permuted parameters state operatorId = .ok other ∧ result.SameByIdentity other ∧
      (parameters.economy.residualPolicy = .genesisWallet → ∀ reward ∈ result.commit.rewards, reward.2 = 0) := by
  obtain ⟨beta, result, ran, valid⟩ := executeIteration_returns C parameters state operatorId wallets bounds
  obtain ⟨again, other, ranOther, validOther⟩ := executeIteration_returns C parameters state operatorId permuted bounds
  obtain rfl : beta = again := Option.some.inj (valid.rate.symm.trans validOther.rate)
  have empty (nothing : SharesNothing parameters wallets) : sharedPool parameters beta wallets = 0 :=
    nothing.sharedPool_eq parameters beta valid.rate
  refine ⟨result, other, ran, ranOther, ?_, fun genesis reward paid => ?_⟩
  · rw [valid.sameByIdentity_iff validOther distinct perm, finalReward_perm_iff parameters beta perm]
    exact settled.imp_right fun nothing => Or.inl (Or.inl (empty nothing))
  · have nothing : SharesNothing parameters wallets := settled.resolve_left (by rw [genesis]; exact nofun)
    rw [valid.rewards_eq_map distinct] at paid
    obtain ⟨wallet, member, rfl⟩ := List.mem_map.mp paid
    exact finalReward_eq_zero parameters beta (empty nothing) wallet

end Runs

namespace Twins

open NaturalLog

/-- The default parameters with the residual given to a wallet. -/
noncomputable def parameters : SystemParameters ℝ :=
  { (SystemParameters.default : SystemParameters ℝ) with
    economy := { (EconomyParameters.default : EconomyParameters ℝ) with residualPolicy := .genesisWallet } }

/-- A wallet of ten coins and some. -/
noncomputable def wallet (id : WalletId) : Wallet ℝ := .fresh id id 10000150 1 0 "op"

theorem rate_eq : parameters.economy.penaltyRate = 1 / 20 := by
  norm_num [parameters, EconomyParameters.default]

theorem share_eq : parameters.economy.targetPenaltyShareOfSupply = 1 / 20 := by
  norm_num [parameters, EconomyParameters.default]

theorem rawPenalty_eq : rawPenalty parameters.economy 10000000 [10000150, 10000150] 10000150 = 500007 := by
  have largest : largestBalance [10000150, 10000150] = 10000150 := rfl
  have large : (epsilon : ℝ) < logarithm 10000000 (largestBalance [10000150, 10000150]) :=
    natural_large (by norm_num [largest])
  have raw : rawPenalty parameters.economy 10000000 [10000150, 10000150] (largestBalance [10000150, 10000150]) = _ :=
    rawPenalty_largest (by norm_num) (by norm_num [largest]) large
  rw [largest, rate_eq, floorU64_eq (n := 500007) (by norm_num) (by norm_num) (by norm_num [maxValue])] at raw
  exact raw

theorem rawTotal_eq : rawTotal parameters.economy 10000000 [10000150, 10000150] = 1000014 := by
  rw [rawTotal, List.map_cons, List.map_cons, List.map_nil, rawPenalty_eq]
  rfl

theorem targetPenalty_eq : targetPenalty parameters.economy [10000150, 10000150] = 1000015 := by
  have supply : wrappingSum 64 [10000150, 10000150] = 20000300 := rfl
  rw [targetPenalty, supply, share_eq]
  exact floorU64_eq (by norm_num) (by norm_num) (by norm_num [maxValue])

theorem finalPenalty_eq : finalPenalty parameters.economy 10000000 [10000150, 10000150] 10000150 = 500007 := by
  have kept : ¬ Rescales parameters.economy 10000000 [10000150, 10000150] := by
    rintro ⟨-, -, misses⟩
    rw [rawTotal_eq, targetPenalty_eq] at misses
    norm_num [absDiff] at misses
  rw [finalPenalty, if_neg kept, rawPenalty_eq]

theorem microSeed_eq : microSeed parameters = 10000000 := by
  have fits : 10 * microAgcPerAgc ≤ maxValue 64 := by norm_num [microAgcPerAgc, maxValue]
  exact saturatingMul_of_le fits

theorem burnRate_eq : burnRate parameters.economy (measuredInflation .default) = some (9 / 100) := by
  norm_num [burnRate, measuredInflation, clamp, parameters, EconomyParameters.default, SystemState.default]

theorem settleIteration_penalties (first second : WalletId) :
    (settleIteration parameters (9 / 100) [wallet first, wallet second]).penalties = [500007, 500007] := by
  have balances : [wallet first, wallet second].map Wallet.balance = [10000150, 10000150] := rfl
  have each (id : WalletId) : (wallet id).balance = 10000150 := rfl
  rw [settleIteration_penalties_eq_map, balances, microSeed_eq]
  simp only [List.map_cons, List.map_nil, each, finalPenalty_eq]

theorem sharedPool_eq (first second : WalletId) :
    sharedPool parameters (9 / 100) [wallet first, wallet second] = 910013 := by
  have total : wrappingSum 64 [500007, 500007] = 1000014 := rfl
  have planned : plannedNewWallets parameters.growth 2 = 0 := by
    have none : floorU64 (mul parameters.growth.growthFactorPerIteration (ofNat 2)) = 0 := by
      refine floorU64_eq ?_ ?_ (by norm_num [maxValue]) <;>
        norm_num [parameters, SystemParameters.default, GrowthParameters.default]
    rw [plannedNewWallets, none]
    rfl
  have burned : floorU64 (mul (9 / 100 : ℝ) (ofNat 1000014)) = 90001 :=
    floorU64_eq (by norm_num) (by norm_num) (by norm_num [maxValue])
  have needed : saturatingMul 64 0 (microSeed parameters) = 0 := by rw [saturatingMul, Nat.zero_mul, Nat.zero_min]
  change (allocatePool parameters.economy (9 / 100)
    (saturatingMul 64 (plannedNewWallets parameters.growth 2) (microSeed parameters))
    (wrappingSum 64 (settleIteration parameters (9 / 100) [wallet first, wallet second]).penalties)).redistributionPool = _
  rw [settleIteration_penalties, total, planned, needed]
  simp only [allocatePool, burned]
  have faucet (cap : Nat) : Nat.min (Nat.min 0 cap) 1000014 = 0 := by simp
  rw [faucet]
  rfl

/-- The residual of two wallets alike follows the one that is scanned first. -/
theorem executeIteration_residual_moves :
    ∃ result other,
      executeIteration Concrete.crypto [wallet "a", wallet "b"] parameters .default "op" = .ok result ∧
        executeIteration Concrete.crypto [wallet "b", wallet "a"] parameters .default "op" = .ok other ∧
        ¬ result.SameByIdentity other := by
  have perm : [wallet "a", wallet "b"].Perm [wallet "b", wallet "a"] := List.Perm.swap _ _ _
  have distinct : ([wallet "a", wallet "b"].map Wallet.id).Nodup := by decide
  obtain ⟨beta, result, ran, valid⟩ :=
    executeIteration_returns Concrete.crypto parameters .default "op" [wallet "a", wallet "b"] default_bounds
  obtain ⟨again, other, ranOther, validOther⟩ :=
    executeIteration_returns Concrete.crypto parameters .default "op" [wallet "b", wallet "a"] default_bounds
  obtain rfl : 9 / 100 = beta := Option.some.inj (burnRate_eq.symm.trans valid.rate)
  obtain rfl : 9 / 100 = again := Option.some.inj (burnRate_eq.symm.trans validOther.rate)
  refine ⟨result, other, ran, ranOther, ?_⟩
  rw [valid.sameByIdentity_iff validOther distinct perm, finalReward_perm_iff _ _ perm, sharedPool_eq]
  rintro (burns | whole | first)
  · cases burns
  · rcases whole with empty | ⟨positive, whole⟩
    · cases empty
    · have alike : chargedWeight parameters [wallet "a", wallet "b"] (wallet "b") =
          chargedWeight parameters [wallet "a", wallet "b"] (wallet "a") := rfl
      obtain ⟨parts, equal⟩ := whole _ List.mem_cons_self
      simp only [List.map_cons, List.map_nil, List.sum_cons, List.sum_nil, alike, add_zero] at positive equal
      have half : (910013 : ℝ) = (2 * parts : Nat) := by
        push_cast
        refine mul_right_cancel₀ (show chargedWeight parameters [wallet "a", wallet "b"] (wallet "a") ≠ 0 by linarith) ?_
        rw [show (910013 : ℝ) = (910013 : Nat) by norm_num, equal]
        ring
      have whole : 910013 = 2 * parts := by exact_mod_cast half
      omega
  · exact absurd (Option.some.inj first) (by decide)

/-- Under the default policy the two runs agree. -/
theorem executeIteration_permuted_default :
    ∃ result other,
      executeIteration Concrete.crypto [wallet "a", wallet "b"] .default .default "op" = .ok result ∧
        executeIteration Concrete.crypto [wallet "b", wallet "a"] .default .default "op" = .ok other ∧
        result.SameByIdentity other := by
  have perm : [wallet "a", wallet "b"].Perm [wallet "b", wallet "a"] := List.Perm.swap _ _ _
  have distinct : ([wallet "a", wallet "b"].map Wallet.id).Nodup := by decide
  obtain ⟨result, other, ran, ranOther, same, -⟩ :=
    executeIteration_permuted Concrete.crypto .default .default "op" default_bounds distinct perm (Or.inl rfl)
  exact ⟨result, other, ran, ranOther, same⟩

end Twins

end AggoraCoin
