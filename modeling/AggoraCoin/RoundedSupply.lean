import AggoraCoin.RoundedRewards
import AggoraCoin.SeedReplay
import AggoraCoin.SupplyRoom

namespace AggoraCoin

open F64 Unsigned Rounding Binary64

section Rewards

variable {F : Type} [F64 F]

omit [F64 F] in
theorem settleResidual_rewards_sum_le (policy : ResidualPolicy) (residual burnedBase : MicroAgc)
    (wallets : List (Wallet F)) (shares : List MicroAgc) :
    (settleResidual policy residual burnedBase wallets shares).2.1.sum ≤ shares.sum + residual := by
  cases policy with
  | burn => exact Nat.le_add_right _ _
  | genesisWallet =>
    cases wallets with
    | nil => exact Nat.le_add_right _ _
    | cons wallet rest =>
      cases shares with
      | nil => exact Nat.zero_le _
      | cons share later =>
        have credited : saturatingAdd 64 share residual ≤ share + residual := min_le_left _ _
        simp only [settleResidual, List.modifyHead_cons, List.sum_cons]
        lia

/-- With the residual the rewards come to the pool, or to the shares where these exceed it. -/
theorem settleIteration_rewards_sum_le (parameters : SystemParameters F) (beta : F) (wallets : List (Wallet F)) :
    (settleIteration parameters beta wallets).rewards.sum ≤
      max (sharedPool parameters beta wallets) (settleIteration parameters beta wallets).shares.sum := by
  have cuts := settleIteration_cuts parameters beta wallets
  have bounded : sharedPool parameters beta wallets ≤ u64Max := by
    have total := cuts.total
    have penalties := wrappingSum_le (w := 64) (settleIteration parameters beta wallets).penalties
    unfold sharedPool
    lia
  have settled : (settleIteration parameters beta wallets).rewards.sum ≤
      (settleIteration parameters beta wallets).shares.sum + saturatingSub (sharedPool parameters beta wallets)
        ((settleIteration parameters beta wallets).shares.foldl (saturatingAdd 64) 0) :=
    settleResidual_rewards_sum_le _ _ _ _ _
  rw [foldl_saturatingAdd _ (Nat.zero_le _), Nat.zero_add, saturatingSub] at settled
  rcases le_total (settleIteration parameters beta wallets).shares.sum u64Max with fits | beyond
  · rw [min_eq_left fits] at settled
    exact settled.trans_eq (by rw [Nat.add_comm, Nat.sub_add_eq_max])
  · rw [min_eq_right beyond, Nat.sub_eq_zero_of_le bounded, Nat.add_zero] at settled
    exact settled.trans (le_max_right _ _)

end Rewards

section Seed

variable {F : Type} [F64 F] {C : Crypto} {parameters : SystemParameters F}

variable (C parameters) in
/-- What a seed file mints: the balances of its entries for wallets that are neither known nor named before.
The first key that does not decode ends the file. -/
def seedBalances : (WalletId → Bool) → List SeedWallet → List MicroAgc
  | _, [] => []
  | known, entry :: rest =>
    match fixed32 entry.publicKey with
    | .error _ => []
    | .ok key =>
      let mint := SeedMint.of parameters entry key
      if known (mint.id C) then seedBalances known rest
      else mint.amount :: seedBalances (fun id => mint.id C == id || known id) rest

theorem sum_seedPayloads_le {clock : Nat → Timestamp} (entries : List SeedWallet) (installed : Nat)
    {state : CoinState F} {known : WalletId → Bool} (same : ∀ id, known id = (state.getWallet id).isSome) :
    ((Call.seedPayloads C parameters clock entries installed state).map Payload.minted).sum ≤
      (seedBalances C parameters known entries).sum := by
  induction entries generalizing installed state known with
  | nil => exact Nat.zero_le _
  | cons entry rest ih =>
    unfold Call.seedPayloads seedBalances
    rcases planSeedWallet_cases C state parameters entry (clock (3 * installed)) (clock (3 * installed + 1)) with
      ⟨_, e, planned⟩ | ⟨⟨key, read, present⟩, planned⟩ | ⟨_, _, plan, planned⟩
    · rw [planned]
      exact Nat.zero_le _
    · have named : known ((SeedMint.of parameters entry key).id C) = true := (same _).trans present
      simp only [planned, read, named, if_true]
      exact ih installed same
    · obtain ⟨key, read, absent, recorded⟩ := planSeedWallet_mint planned
      have unnamed : known ((SeedMint.of parameters entry key).id C) = false := by
        rw [same]
        exact Option.isSome_eq_false_iff.mpr (Option.isNone_iff_eq_none.mpr absent)
      have valid := (planSeedWallet_ok planned).1
      have amount : plan.payload.amount = (SeedMint.of parameters entry key).amount := by
        rw [valid.payload_amount, recorded]
        rfl
      simp only [planned, read, unnamed, Bool.false_eq_true, if_false, List.map_cons, List.sum_cons, Payload.minted,
        amount]
      refine Nat.add_le_add_left ?_ _
      rcases insertMinted_cases valid (clock (3 * installed + 2)) with ⟨anchor, _, _, inserted⟩ | ⟨e, _, inserted⟩
      · rw [inserted]
        refine ih (installed + 1) fun id => ?_
        rw [getWallet_posted, recorded, same]
        change (_ == _ || _) = (if (SeedMint.of parameters entry key).id C = id then some _ else _).isSome
        by_cases met : (SeedMint.of parameters entry key).id C = id <;> simp [met]
      · rw [inserted]
        exact Nat.zero_le _

end Seed

section Supply

variable {C : Crypto} [Ops] {state : CoinState Binary64} {parameters : SystemParameters Binary64}

/-- The supply, grown by one rounding for each wallet and three more, leaves room for the wallets of the
faucet. The weights stay far from the end of the range of doubles, which the model has not. -/
structure IterationRoom (parameters : SystemParameters Binary64) (state : CoinState Binary64) : Prop where
  supply : (state.storedSupply : ℚ) * (1 + 1 / 2 ^ 53) ^ (state.listWallets.length + 3) +
    plannedNewWallets parameters.growth state.listWallets.length * microSeed parameters ≤ u64Max
  lowest : |parameters.economy.redistributionActiveMin.val| ≤ 2 ^ 900
  highest : |parameters.economy.redistributionActiveMax.val| ≤ 2 ^ 900

variable (C) in
/-- What a call mints fits under `u64::MAX`, told from the stored balances, the cached supply and the
parameters. -/
def Call.Affordable (call : Call Binary64) (state : CoinState Binary64) : Prop :=
  match call with
  | installSeed parameters seed _ =>
    state.system.totalSupply +
      (if state.system.iterationLock then []
        else seedBalances C parameters (fun id => (state.getWallet id).isSome) seed.initialWallets).sum ≤ u64Max
  | executeIterationNow parameters _ _ =>
    state.system.iterationLock = false → (burnRate parameters.economy (measuredInflation state.system)).isSome →
      IterationRoom parameters state
  | call => call.HasRoom C state

/-- An iteration pays out at most its penalties, grown by the roundings. -/
theorem settleIteration_rewards_sum_le_pow (parameters : SystemParameters Binary64) (beta : Binary64)
    {wallets : List (Wallet Binary64)} (bound : (wallets.map Wallet.balance).sum ≤ u64Max) :
    ((settleIteration parameters beta wallets).rewards.sum : ℚ) ≤
      (settleIteration parameters beta wallets).penalties.sum * (1 + 1 / 2 ^ 53) ^ (wallets.length + 3) := by
  have factor : (1 : ℚ) ≤ (1 + 1 / 2 ^ 53) ^ (wallets.length + 3) := one_le_pow₀ (by norm_num)
  have pool : sharedPool parameters beta wallets ≤ (settleIteration parameters beta wallets).penalties.sum := by
    have total := (settleIteration_cuts parameters beta wallets).total
    have charged := (settleIteration_penalties_sum_le parameters beta wallets).trans bound
    rw [wrappingSum_of_le charged] at total
    unfold sharedPool
    lia
  have shared : ((flooredRewards (sharedPool parameters beta wallets)
      (wallets.map (chargedWeight parameters wallets))).sum : ℚ) ≤ _ :=
    flooredRewards_sum_le_pow (chargedWeight_val_nonneg parameters wallets)
  rw [← settleIteration_shares_eq_flooredRewards, List.length_map] at shared
  have paid : ((settleIteration parameters beta wallets).rewards.sum : ℚ) ≤
      sharedPool parameters beta wallets * (1 + 1 / 2 ^ 53) ^ (wallets.length + 3) := by
    have settled := settleIteration_rewards_sum_le parameters beta wallets
    rcases le_max_iff.mp settled with within | beyond
    · exact (Nat.cast_le.mpr within).trans (le_mul_of_one_le_right (Nat.cast_nonneg _) factor)
    · exact (Nat.cast_le.mpr beyond).trans shared
  exact paid.trans (mul_le_mul_of_nonneg_right (Nat.cast_le.mpr pool) (zero_le_one.trans factor))

/-- So room for the supply is room for whatever an iteration settles. -/
theorem IterationRoom.fits (room : IterationRoom parameters state) (beta : Binary64) :
    state.storedSupply + (settleIteration parameters beta state.listWallets).rewards.sum +
        plannedNewWallets parameters.growth state.listWallets.length * microSeed parameters ≤
      u64Max + (settleIteration parameters beta state.listWallets).penalties.sum := by
  have factor : (1 : ℚ) ≤ (1 + 1 / 2 ^ 53) ^ (state.listWallets.length + 3) := one_le_pow₀ (by norm_num)
  have supply := room.supply
  have storedNonneg : (0 : ℚ) ≤ state.storedSupply := Nat.cast_nonneg _
  have faucetNonneg : (0 : ℚ) ≤ plannedNewWallets parameters.growth state.listWallets.length * microSeed parameters :=
    mul_nonneg (Nat.cast_nonneg _) (Nat.cast_nonneg _)
  have stored : (state.storedSupply : ℚ) ≤ u64Max := by
    linarith [le_mul_of_one_le_right storedNonneg factor]
  have bound : (state.listWallets.map Wallet.balance).sum ≤ u64Max := Nat.cast_le.mp stored
  have paid := settleIteration_rewards_sum_le_pow parameters beta bound
  have charged : ((settleIteration parameters beta state.listWallets).penalties.sum : ℚ) ≤ state.storedSupply :=
    Nat.cast_le.mpr (settleIteration_penalties_sum_le parameters beta state.listWallets)
  -- the charge leaves the supply, so what it is paid back more is less than the supply has room for
  have left := mul_nonneg (sub_nonneg.mpr charged) (sub_nonneg.mpr factor)
  have total : (state.storedSupply : ℚ) + (settleIteration parameters beta state.listWallets).rewards.sum +
      plannedNewWallets parameters.growth state.listWallets.length * microSeed parameters ≤
        u64Max + (settleIteration parameters beta state.listWallets).penalties.sum := by
    linarith
  exact_mod_cast total

theorem Call.Affordable.hasRoom {call : Call Binary64} (affordable : call.Affordable C state) :
    call.HasRoom C state := by
  cases call with
  | installSeed parameters seed clock =>
    simp only [Call.Affordable] at affordable
    simp only [Call.HasRoom, Call.payloads]
    split at affordable
    · rename_i busy
      simpa [busy] using affordable
    · rename_i free
      have minted : ((Call.seedPayloads C parameters clock seed.initialWallets 0 state).map Payload.minted).sum ≤ _ :=
        sum_seedPayloads_le seed.initialWallets 0 fun _ => rfl
      rw [if_neg free]
      exact (Nat.add_le_add_left minted _).trans affordable
  | executeIterationNow parameters now snapshotNow =>
    intro free beta rated
    have guarded : (burnRate parameters.economy (measuredInflation state.system)).isSome := by simp [rated]
    exact (affordable free guarded).fits beta
  | _ => exact affordable

/-- In double arithmetic: in every run whose calls can be afforded, the stored balances add up to a `u64`
and every accepted call moves exactly the amounts it names. -/
theorem supply_within_u64 {env : String → Option String} {config : NodeConfig Binary64} {start : CoinState Binary64}
    (opened : (openCoinState C env config .empty).1 = .ok start)
    (reach : Reach (fun state call => Call.next C call state) (fun state call => call.Affordable C state) start state) :
    state.storedSupply ≤ u64Max ∧
      ∀ call : Call Binary64, call.Affordable C state → call.LosesNothing C state := by
  obtain ⟨within, exact_⟩ := supplied_of_reach opened (reach.mono fun _ _ affordable => affordable.hasRoom)
  exact ⟨within, fun call affordable => exact_ call affordable.hasRoom⟩

end Supply

namespace Overspent

open Concrete (crypto operator key walletRequest captcha_solved walletRequest_read)

def config : NodeConfig Binary64 where
  parameters := parameters
  operatorSecret := some devOperatorSecret
  operatorPublicKey := none
  validatorEndpoint := ""

/-- A first wallet, and then an iteration over it. -/
def created : Call Binary64 := .createWallet parameters (walletRequest (key 7)) operator "" 0

def settled : Call Binary64 := .executeIterationNow parameters 0 0

theorem microSeed_parameters : microSeed parameters = 10000000 := by decide +kernel

theorem supply_within_u64_settled :
    ∃ start : CoinState Binary64, (openCoinState crypto (fun _ => none) config .empty).1 = .ok start ∧
      settled.LosesNothing crypto (created.next crypto start) ∧
      (settled.next crypto (created.next crypto start)).storedSupply ≤ u64Max := by
  have read : fixed32 devOperatorSecret = .ok _ := Concrete.eq_ok_get (by decide +kernel)
  obtain ⟨start, opened, -⟩ : ∃ start, (openCoinState crypto (fun _ => none) config .empty).1 = .ok start ∧ _ :=
    openCoinState_of_secret crypto (fun _ => none) .empty rfl read rfl fun _ => rfl
  refine ⟨start, opened, ?_⟩
  have empty := openCoinState_empty opened
  have formed : Crypto.WellFormedSecret start.operatorSecret := by
    rw [empty.secret_eq devOperatorSecret rfl]
    exact ⟨_, read⟩
  have wallets := empty.wallets_createWallet formed parameters (walletRequest_read (key 7)) captcha_solved operator "" 0
  have listed : (created.next crypto start).listWallets = [firstWallet crypto parameters operator (key 7)] := by
    rw [CoinState.listWallets, created, wallets]
    rfl
  have stored : (created.next crypto start).storedSupply = 10000000 := by
    have sum : (created.next crypto start).storedSupply =
        ((created.next crypto start).listWallets.map Wallet.balance).sum := rfl
    have balance : (firstWallet crypto parameters operator (key 7)).balance = microSeed parameters := rfl
    rw [sum, listed, List.map_singleton, List.sum_singleton, balance, microSeed_parameters]
  have minted : created.Affordable crypto start := by
    intro _
    have supply : start.system.totalSupply = 0 := congrArg SystemState.totalSupply empty.default_eq
    rw [supply, microSeed_parameters]
    decide
  have room : IterationRoom parameters (created.next crypto start) := by
    refine ⟨?_, by decide +kernel, by decide +kernel⟩
    have planned : plannedNewWallets parameters.growth 1 = 0 := by decide +kernel
    rw [stored, listed, List.length_singleton, planned, microSeed_parameters]
    norm_num [Unsigned.maxValue]
  have first : Reach (fun state call => Call.next crypto call state) (fun state call => call.Affordable crypto state)
      start (created.next crypto start) := .next (i := created) .start minted
  have second : Reach (fun state call => Call.next crypto call state) (fun state call => call.Affordable crypto state)
      start (settled.next crypto (created.next crypto start)) := .next (i := settled) first fun _ _ => room
  exact ⟨(supply_within_u64 opened first).2 settled fun _ _ => room, (supply_within_u64 opened second).1⟩

end Overspent

end AggoraCoin
