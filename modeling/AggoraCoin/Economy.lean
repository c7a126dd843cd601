import AggoraCoin.TxIds

namespace AggoraCoin

open F64

variable {F : Type} [F64 F]

def microSeed (parameters : SystemParameters F) : MicroAgc :=
  Unsigned.saturatingMul 64 parameters.economy.initialSeedAgc microAgcPerAgc

def computeGiniFromBalances (balances : List MicroAgc) : F :=
  if balances.isEmpty then lit 0
  else
    let sorted := balances.insertionSort (· ≤ ·)
    let total := Unsigned.wrappingSum 128 sorted
    if total = 0 then lit 0
    else
      let n : F := ofNat sorted.length
      let weightedSum := Unsigned.wrappingSum 128 (sorted.mapIdx fun idx balance => (idx + 1) * balance)
      clampUnit (sub (div (mul (lit 2) (ofNat weightedSum)) (mul n (ofNat total))) (div (add n (lit 1)) n))

def computeGini (wallets : List (Wallet F)) : F := computeGiniFromBalances (wallets.map Wallet.balance)

/-- The record of a wallet that was just created: by an operator, by a seed file or by the faucet. -/
def Wallet.fresh (id : WalletId) (pubkey : PublicKey) (balance : MicroAgc) (tick : Tick)
    (iteration : IterationId) (operatorId : OperatorId) : Wallet F where
  id := id
  pubkey := pubkey
  balance := balance
  nonce := 0
  createdAtTick := tick
  createdAtIteration := iteration
  createdByOperator := operatorId
  iterationTxCount := 0
  iterationCounterparties := ∅
  lastActiveIteration := iteration
  activityScore := lit 1

/-- What the previous cycle did to the supply. This and what follows are the blocks of
`execute_iteration`, in order. -/
def measuredInflation (state : SystemState F) : F :=
  if state.previousIterationStartSupply > 0 then
    div (sub (ofNat state.previousIterationSupply) (ofNat state.previousIterationStartSupply))
      (ofNat state.previousIterationStartSupply)
  else lit 0

/-- `beta`; `none` when the clamp panics. -/
def burnRate (economy : EconomyParameters F) (inflation : F) : Option F :=
  clamp (add economy.burnBase (mul economy.burnSensitivity (sub inflation economy.targetInflationPerIter)))
    economy.burnMin economy.burnMax

def largestBalance (balances : List MicroAgc) : MicroAgc := balances.foldl Nat.max 0

def penaltyDenominator (seed bMax : MicroAgc) : F :=
  if bMax > 0 ∧ seed > 0 then ln (add (lit 1) (div (ofNat bMax) (ofNat seed))) else lit 0

def basePenalty (economy : EconomyParameters F) (seed : MicroAgc) (denominator : F) (balance : MicroAgc) : MicroAgc :=
  if balance = 0 ∨ le denominator epsilon then 0
  else
    let numerator := ln (add (lit 1) (div (ofNat balance) (ofNat (Nat.max seed 1))))
    floorU64 (div (mul (mul economy.penaltyRate (ofNat balance)) numerator) denominator)

def rawPenalties (economy : EconomyParameters F) (seed : MicroAgc) (balances : List MicroAgc) : List MicroAgc :=
  let denominator := penaltyDenominator seed (largestBalance balances)
  balances.map fun balance => Nat.min (basePenalty economy seed denominator balance) balance

def absDiff (a b : Nat) : Nat := if a < b then b - a else a - b

/-- Rescale to the target when the raw total misses it by more than 20 percent. -/
def calibratedPenalties (targetPenalty : MicroAgc) (balances penalties : List MicroAgc) : List MicroAgc :=
  let penaltyTotal := Unsigned.wrappingSum 64 penalties
  if penaltyTotal > 0 ∧ targetPenalty > 0 then
    let deviation : F := div (ofNat (absDiff penaltyTotal targetPenalty)) (ofNat targetPenalty)
    if lt (lit (20 / 100)) deviation then
      let scale : F := div (ofNat targetPenalty) (ofNat penaltyTotal)
      penalties.zipWith (fun penalty balance => Nat.min (floorU64 (mul (ofNat penalty) scale)) balance) balances
    else penalties
  else penalties

def iterationPenalties (economy : EconomyParameters F) (seed : MicroAgc) (balances : List MicroAgc) :
    List MicroAgc :=
  let targetPenalty :=
    floorU64 (mul economy.targetPenaltyShareOfSupply (ofNat (Unsigned.wrappingSum 64 balances)))
  calibratedPenalties (F := F) targetPenalty balances (rawPenalties economy seed balances)

def plannedNewWallets (growth : GrowthParameters F) (nWallets : Nat) : Nat :=
  Nat.min (floorU64 (mul growth.growthFactorPerIteration (ofNat nWallets))) growth.maxNewWalletsPerIter

/-- How the penalty pool is cut: the faucet first, then the burn, the rest redistributed. -/
structure PoolAllocation where
  faucetFromPenalty : MicroAgc
  poolAfterFaucet : MicroAgc
  burnedBase : MicroAgc
  redistributionPool : MicroAgc
  faucetFromMint : MicroAgc

def allocatePool (economy : EconomyParameters F) (beta : F) (faucetNeeded penaltyTotal : MicroAgc) :
    PoolAllocation :=
  let faucetShareCap := floorU64 (mul economy.faucetShareOfPenalty (ofNat penaltyTotal))
  let faucetFromPenalty := Nat.min (Nat.min faucetNeeded faucetShareCap) penaltyTotal
  let poolAfterFaucet := Unsigned.wrappingSub 64 penaltyTotal faucetFromPenalty
  let burnedBase := Nat.min (floorU64 (mul beta (ofNat penaltyTotal))) poolAfterFaucet
  let redistributionPool := Unsigned.wrappingSub 64 poolAfterFaucet burnedBase
  let faucetFromMint := Unsigned.saturatingSub faucetNeeded faucetFromPenalty
  { faucetFromPenalty, poolAfterFaucet, burnedBase, redistributionPool, faucetFromMint }

/-- The activity average, and the penalty taken off the balance. -/
def chargeWallet (economy : EconomyParameters F) (wallet : Wallet F) (penalty : MicroAgc) : Wallet F :=
  let rawActivity : F :=
    if wallet.iterationTxCount ≥ economy.activityMinTxCount ∧
        wallet.iterationCounterparties.card % 2 ^ 32 ≥ economy.activityMinCounterparties then lit 1
    else lit 0
  let lambda := clampUnit economy.activityEmaLambda
  { wallet with
    activityScore := add (mul lambda rawActivity) (mul (sub (lit 1) lambda) wallet.activityScore)
    balance := Unsigned.saturatingSub wallet.balance penalty }

def redistributionWeight (economy : EconomyParameters F) (wallet : Wallet F) : F :=
  let alpha := add economy.redistributionActiveMin
    (mul (sub economy.redistributionActiveMax economy.redistributionActiveMin) (clampUnit wallet.activityScore))
  let inverse :=
    if lt (lit 0) economy.inverseBalanceWeight then
      powf (add (lit 1) (ofNat wallet.balance)) (neg economy.inverseBalanceWeight)
    else lit 1
  mul (max alpha (lit 0)) inverse

def flooredRewards (redistributionPool : MicroAgc) (weights : List F) : List MicroAgc :=
  let totalWeight := F64.sum weights
  weights.map fun weight =>
    if redistributionPool > 0 ∧ lt (lit 0) totalWeight then
      floorU64 (div (mul (ofNat redistributionPool) weight) totalWeight)
    else 0

/-- The reward added, and the activity counters of the cycle cleared. -/
def rewardWallet (wallet : Wallet F) (reward : MicroAgc) : Wallet F :=
  { wallet with
    balance := Unsigned.saturatingAdd 64 wallet.balance reward
    iterationTxCount := 0
    iterationCounterparties := ∅ }

/-- Wallets and rewards with the residual settled, and the amount burned. -/
def settleResidual (policy : ResidualPolicy) (residual burnedBase : MicroAgc) (wallets : List (Wallet F))
    (rewards : List MicroAgc) : List (Wallet F) × List MicroAgc × MicroAgc :=
  match policy with
  | .burn => (wallets, rewards, Unsigned.saturatingAdd 64 burnedBase residual)
  | .genesisWallet =>
    match wallets with
    | [] => ([], rewards, Unsigned.saturatingAdd 64 burnedBase residual)
    | wallet :: rest =>
      ({ wallet with balance := Unsigned.saturatingAdd 64 wallet.balance residual } :: rest,
        rewards.modifyHead (Unsigned.saturatingAdd 64 · residual), burnedBase)

/-- `execute_iteration` up to the faucet wallets, index-aligned with the input wallets. -/
structure Settlement (F : Type) where
  penalties : List MicroAgc
  allocation : PoolAllocation
  /-- The floored shares before the residual is settled. -/
  shares : List MicroAgc
  rewards : List MicroAgc
  burned : MicroAgc
  wallets : List (Wallet F)

def settleIteration (parameters : SystemParameters F) (beta : F) (wallets : List (Wallet F)) : Settlement F :=
  let economy := parameters.economy
  let seed := microSeed parameters
  let penalties := iterationPenalties economy seed (wallets.map Wallet.balance)
  let penaltyTotal := Unsigned.wrappingSum 64 penalties
  let faucetNeeded := Unsigned.saturatingMul 64 (plannedNewWallets parameters.growth wallets.length) seed
  let allocation := allocatePool economy beta faucetNeeded penaltyTotal
  let charged := wallets.zipWith (chargeWallet economy) penalties
  let shares := flooredRewards allocation.redistributionPool (charged.map (redistributionWeight economy))
  let rewarded := charged.zipWith rewardWallet shares
  let distributed := shares.foldl (Unsigned.saturatingAdd 64) 0
  let residual := Unsigned.saturatingSub allocation.redistributionPool distributed
  let (settled, rewards, burned) := settleResidual economy.residualPolicy residual allocation.burnedBase rewarded shares
  { penalties, allocation, shares, rewards, burned, wallets := settled }

def faucetPublicKey (C : Crypto) (iterationId : IterationId) (idx : Nat) : PublicKey :=
  String.ofList ((C.blake3Hex (asBytes ("aggora-faucet:" ++ toString iterationId ++ ":" ++ toString idx))).toList.take 64)

def faucetWallet (C : Crypto) (seed : MicroAgc) (state : SystemState F) (operatorId : OperatorId)
    (iterationId : IterationId) (idx : Nat) : Except String (Wallet F) := do
  let publicKey := faucetPublicKey C iterationId idx
  let walletId ← C.walletIdFromPublicKey publicKey
  pure (.fresh walletId publicKey seed state.currentTick iterationId operatorId)

structure IterationResult (F : Type) where
  commit : IterationCommit F
  wallets : List (Wallet F)

def executeIteration (C : Crypto) (wallets : List (Wallet F)) (parameters : SystemParameters F)
    (state : SystemState F) (operatorId : OperatorId) : Outcome (IterationResult F) :=
  let iterationId := state.currentIteration + 1
  let inflation := measuredInflation state
  match burnRate parameters.economy inflation with
  | none => .panic
  | some beta =>
    let settlement := settleIteration parameters beta wallets
    match (List.range (plannedNewWallets parameters.growth wallets.length)).mapM
        (faucetWallet C (microSeed parameters) state operatorId iterationId) with
    | .error e => .err (.internal e)
    | .ok newWallets =>
      let result := settlement.wallets ++ newWallets
      let commit : IterationCommit F := {
        txId := ""
        iterationId
        triggeredAtTick := state.currentTick
        snapshotSupply := Unsigned.wrappingSum 64 (wallets.map Wallet.balance)
        snapshotNWallets := wallets.length
        snapshotGini := computeGini wallets
        inflation
        burnRate := beta
        penalties := (wallets.map Wallet.id).zip settlement.penalties
        rewards := (wallets.map Wallet.id).zip settlement.rewards
        burned := settlement.burned
        faucetFromPenalty := settlement.allocation.faucetFromPenalty
        faucetFromMint := settlement.allocation.faucetFromMint
        newWallets := newWallets.map Wallet.id
        postSupply := Unsigned.wrappingSum 64 (result.map Wallet.balance)
        validatorSigs := [] }
      .ok { commit := { commit with txId := iterationCommitHash C commit }, wallets := result }

end AggoraCoin
