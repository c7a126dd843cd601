import AggoraCoin.Economy

namespace AggoraCoin

open F64 Unsigned

/-- The further operations of `f64` that the simulator draws with. -/
class SampleF64 (F : Type) extends F64 F where
  exp : F → F
  sqrt : F → F
  cos : F → F
  /-- `f64::consts::TAU` -/
  tau : F
  /-- `f64::MIN_POSITIVE` -/
  minPositive : F
  /-- `x.round() as u64`, saturating at both ends. -/
  roundU64 : F → Nat
  /-- `x.ceil() as usize`, saturating at both ends. -/
  ceilUsize : F → Nat
  roundU64_le : ∀ x, roundU64 x ≤ Unsigned.maxValue 64

/-- `ChaCha20Rng` with the two draws that are made of it. -/
structure Rng (F : Type) where
  State : Type
  seedFromU64 : Nat → State
  /-- `rng.gen::<f64>()` -/
  gen : State → F × State
  /-- `rng.gen_range(0..n)` -/
  genRange : Nat → State → Nat × State
  genRange_lt : ∀ {n : Nat} (rng : State), 0 < n → (genRange n rng).1 < n

inductive ScriptedEvent (F : Type)
  | spawnWallets (atIteration : IterationId) (count : Nat) (balance : Option MicroAgc)
  | transferBurst (atIteration : IterationId) (nTxs : Nat) (fraction : Option F)
  | chargeBurst (atIteration : IterationId) (amount : MicroAgc) (nTargets : Nat)
  | wealthShock (atIteration : IterationId) (fraction : F)
  | unknown

structure SimConfig (F : Type) where
  initialWallets : Nat
  initialWealthSigma : F
  iterations : Nat
  txPerWalletMean : F
  transferFractionMean : F
  rngSeed : Nat
  scriptedEvents : List (ScriptedEvent F)

structure SimMetrics (F : Type) where
  iteration : IterationId
  supply : MicroAgc
  nWallets : Nat
  nActive : Nat
  gini : F
  top10Share : F
  medianBalance : MicroAgc
  penaltyTotal : MicroAgc
  burned : MicroAgc
  rewardTotal : MicroAgc
  faucetFromMint : MicroAgc
  newWallets : Nat
  nTxs : Nat
  burnRate : F
  inflation : F

variable {F : Type}

def SimConfig.default [F64 F] : SimConfig F where
  initialWallets := 100
  initialWealthSigma := lit 0.8
  iterations := 24
  txPerWalletMean := lit 5
  transferFractionMean := lit 0.05
  rngSeed := 0xA660C01E
  scriptedEvents := []

section Draws

variable [SampleF64 F] (R : Rng F)

open SampleF64

/-- Knuth's loop with the number of draws it may take; `none` when it would take more. -/
def poissonLoop (l : F) : Nat → Nat → F → R.State → Option (Nat × R.State)
  | 0, _, _, _ => none
  | fuel + 1, k, p, rng =>
    let k := wrappingAdd 64 k 1
    let (u, rng) := R.gen rng
    let p := mul p u
    if le p l then some (wrappingSub 64 k 1, rng) else poissonLoop l fuel k p rng

def samplePoisson (fuel : Nat) (lambda : F) (rng : R.State) : Option (Nat × R.State) :=
  if le lambda (lit 0) then some (0, rng) else poissonLoop R (exp (neg lambda)) fuel 0 (lit 1) rng

def sampleStandardNormal (rng : R.State) : F × R.State :=
  let (u1, rng) := R.gen rng
  let (u2, rng) := R.gen rng
  (mul (sqrt (mul (lit (-2)) (ln (F64.max u1 minPositive)))) (cos (mul tau u2)), rng)

/-- Another wallet than the sender, when there is one. -/
def drawRecipient (n sender : Nat) (rng : R.State) : Nat × R.State :=
  let (recipient, rng) := R.genRange n rng
  (if recipient = sender then (recipient + 1) % n else recipient, rng)

/-- `.clamp(0.0001, 0.95)`, whose bounds are in order. -/
def clampFraction (x : F) : F :=
  let x := if lt x (lit 0.0001) then lit 0.0001 else x
  if lt (lit 0.95) x then lit 0.95 else x

def drawFraction (mean : F) (rng : R.State) : F × R.State :=
  let (z, rng) := sampleStandardNormal R rng
  (clampFraction (mul mean (exp (mul (lit 0.5) z))), rng)

/-- The rounded log-normal start of one wallet, or the plain seed. -/
def initialBalance (sigma : F) (seed : MicroAgc) (rng : R.State) : MicroAgc × R.State :=
  if lt (lit 0) sigma then
    let (z, rng) := sampleStandardNormal R rng
    (Nat.max (roundU64 (mul (ofNat seed) (exp (mul sigma z)))) 1, rng)
  else (seed, rng)

end Draws

section Wallets

variable [F64 F] (C : Crypto)

def simWalletLabel (idx : Nat) : Bytes := asBytes ("aggora-sim-wallet:" ++ toString idx)

def simWalletId (idx : Nat) : WalletId := C.blake3Hex (simWalletLabel idx)

def simWallet (idx : Nat) (balance : MicroAgc) : Wallet F :=
  .fresh (simWalletId C idx) (simWalletId C idx) balance 0 0 "sim"

/-- `(balance as f64 * fraction).floor() as u64`, at most the balance. -/
def fractionOf (balance : MicroAgc) (fraction : F) : MicroAgc :=
  Nat.min (floorU64 (mul (ofNat balance) fraction)) balance

def balanceAt (wallets : List (Wallet F)) (idx : Nat) : MicroAgc := (wallets[idx]?.map Wallet.balance).getD 0

/-- One more transaction of the cycle with this counterparty. -/
def Wallet.countTx (wallet : Wallet F) (counterparty : WalletId) : Wallet F :=
  { wallet with
    iterationTxCount := wrappingAdd 32 wallet.iterationTxCount 1
    iterationCounterparties := insert counterparty wallet.iterationCounterparties }

def Wallet.credited (wallet : Wallet F) (amount : MicroAgc) : Wallet F :=
  { wallet with balance := saturatingAdd 64 wallet.balance amount }

/-- The sender's record after a transfer; `touch` is what the caller writes besides. -/
def Wallet.sending (touch : Wallet F → Wallet F) (recipientId : WalletId) (amount : MicroAgc) (wallet : Wallet F) :
    Wallet F :=
  touch ({ wallet with balance := wrappingSub 64 wallet.balance amount, nonce := wallet.nonce + 1 }.countTx recipientId)

def Wallet.receiving (touch : Wallet F → Wallet F) (senderId : WalletId) (amount : MicroAgc) (wallet : Wallet F) :
    Wallet F :=
  touch ((wallet.credited amount).countTx senderId)

/-- The two writes of a transfer. Both indices are draws below the number of wallets. -/
def simTransfer (touch : Wallet F → Wallet F) (sender recipient : Nat) (amount : MicroAgc)
    (wallets : List (Wallet F)) : List (Wallet F) :=
  match wallets[recipient]?, wallets[sender]? with
  | some receiver, some payer =>
    (wallets.modify sender (.sending touch receiver.id amount)).modify recipient (.receiving touch payer.id amount)
  | _, _ => wallets

/-- What `WealthShock` takes from each wallet: nothing from the target. -/
def shockTakes (target : Nat) (fraction : F) (wallets : List (Wallet F)) : List MicroAgc :=
  wallets.mapIdx fun i wallet => if i = target then 0 else fractionOf wallet.balance fraction

def shockWallets (target : Nat) (fraction : F) (wallets : List (Wallet F)) : List (Wallet F) :=
  match wallets[target]? with
  | some richest =>
    let takes := shockTakes target fraction wallets
    let moved := takes.foldl (saturatingAdd 64) 0
    let shocked := wallets.mapIdx fun i wallet =>
      if i = target then wallet
      else
        { wallet with balance := wrappingSub 64 wallet.balance (fractionOf wallet.balance fraction) }.countTx richest.id
    shocked.modify target fun wallet =>
      { wallet.credited moved with
        iterationTxCount :=
          wrappingAdd 32 wallet.iterationTxCount (wrappingSub 32 (wallets.length % 2 ^ 32) 1) }
  | none => wallets

/-- The pass that gives the wallets of this iteration's faucet an id of the simulator. -/
def reidentify (iterationId : IterationId) : List (Wallet F) → Nat → List (Wallet F) × Nat
  | [], nextWalletIdx => ([], nextWalletIdx)
  | wallet :: rest, nextWalletIdx =>
    if wallet.createdAtIteration = iterationId then
      let (later, last) := reidentify iterationId rest (wrappingAdd 64 nextWalletIdx 1)
      (simWallet C nextWalletIdx wallet.balance :: later, last)
    else
      let (later, last) := reidentify iterationId rest nextWalletIdx
      (wallet :: later, last)

end Wallets

/-- What one iteration works on before `execute_iteration`. -/
structure SimRound (F : Type) (R : Rng F) where
  wallets : List (Wallet F)
  nextWalletIdx : Nat
  rng : R.State
  nTxs : Nat

namespace SimRound

variable [SampleF64 F] {R : Rng F}

/-- The body that `TransferBurst` and the synthetic activity share: a sender with a balance
sends a drawn fraction of it to a drawn recipient. -/
def sendFraction (touch : Wallet F → Wallet F) (mean : F) (n sender : Nat) (round : SimRound F R) : SimRound F R :=
  let (recipient, rng) := drawRecipient R n sender round.rng
  let (fraction, rng) := drawFraction R mean rng
  let amount := fractionOf (balanceAt round.wallets sender) fraction
  if amount = 0 then { round with rng }
  else
    { round with
      wallets := simTransfer touch sender recipient amount round.wallets
      rng
      nTxs := round.nTxs + 1 }

def spawn (C : Crypto) (balance : MicroAgc) : Nat → SimRound F R → SimRound F R
  | 0, round => round
  | count + 1, round =>
    spawn C balance count { round with
      wallets := round.wallets ++ [simWallet C round.nextWalletIdx balance]
      nextWalletIdx := wrappingAdd 64 round.nextWalletIdx 1 }

def burstTransfer (mean : F) (n : Nat) (round : SimRound F R) : SimRound F R :=
  let (sender, rng) := R.genRange n round.rng
  if balanceAt round.wallets sender = 0 then { round with rng }
  else sendFraction id mean n sender { round with rng }

def chargeTargets (perTarget : MicroAgc) (n : Nat) : Nat → SimRound F R → SimRound F R
  | 0, round => round
  | targets + 1, round =>
    let (idx, rng) := R.genRange n round.rng
    chargeTargets perTarget n targets
      { round with wallets := round.wallets.modify idx (Wallet.credited · perTarget), rng }

/-- One event of the list; one of another iteration does nothing. -/
def applyEvent (C : Crypto) (iterId : IterationId) (defaultSeed : MicroAgc) (defaultFraction : F)
    (round : SimRound F R) : ScriptedEvent F → SimRound F R
  | .spawnWallets atIteration count balance =>
    if atIteration = iterId then spawn C (balance.getD defaultSeed) count round else round
  | .transferBurst atIteration nTxs fraction =>
    if atIteration = iterId then
      if round.wallets.length < 2 then round
      else Nat.iterate (burstTransfer (fraction.getD defaultFraction) round.wallets.length) nTxs round
    else round
  | .chargeBurst atIteration amount nTargets =>
    if atIteration = iterId then
      if round.wallets.isEmpty ∨ nTargets = 0 then round
      else chargeTargets (amount / Nat.max nTargets 1) round.wallets.length nTargets round
    else round
  | .wealthShock atIteration fraction =>
    if atIteration = iterId then
      if round.wallets.isEmpty then round
      else
        let (target, rng) := R.genRange round.wallets.length round.rng
        { round with wallets := shockWallets target (clampUnit fraction) round.wallets, rng }
    else round
  | .unknown => round

def applyScriptedEvents (C : Crypto) (events : List (ScriptedEvent F)) (iterId : IterationId)
    (defaultSeed : MicroAgc) (defaultFraction : F) (round : SimRound F R) : SimRound F R :=
  events.foldl (applyEvent C iterId defaultSeed defaultFraction) round

/-- The transfers of one sender; they stop early when its balance is gone. -/
def senderTransfers (touch : Wallet F → Wallet F) (mean : F) (n sender : Nat) : Nat → SimRound F R → SimRound F R
  | 0, round => round
  | k + 1, round =>
    if balanceAt round.wallets sender = 0 then round
    else senderTransfers touch mean n sender k (sendFraction touch mean n sender round)

def senderActivity (fuel : Nat) (config : SimConfig F) (currentIteration : IterationId) (n : Nat)
    (round : SimRound F R) (sender : Nat) : Option (SimRound F R) :=
  match samplePoisson R fuel config.txPerWalletMean round.rng with
  | none => none
  | some (k, rng) =>
    some (senderTransfers (fun wallet => { wallet with lastActiveIteration := currentIteration })
      config.transferFractionMean n sender k { round with rng })

/-- Step 1 of an iteration; `none` when a Poisson draw does not end. -/
def syntheticActivity (fuel : Nat) (config : SimConfig F) (currentIteration : IterationId) (round : SimRound F R) :
    Option (SimRound F R) :=
  if round.wallets.length ≥ 2 then
    (List.range round.wallets.length).foldlM
      (senderActivity fuel config currentIteration round.wallets.length) round
  else some round

end SimRound

section Metrics

variable [SampleF64 F]

def top10Share (sortedDesc : List MicroAgc) (total : Nat) : F :=
  if total = 0 ∨ sortedDesc.isEmpty then lit 0
  else
    let cut := SampleF64.ceilUsize (mul (ofNat sortedDesc.length) (lit 0.10) : F)
    let top := wrappingSum 128 (sortedDesc.take (Nat.max cut 1))
    div (ofNat top) (ofNat total)

def metricsRow (commit : IterationCommit F) (wallets : List (Wallet F)) (nTxs : Nat) : SimMetrics F :=
  let balances := (wallets.map Wallet.balance).insertionSort (· ≤ ·)
  { iteration := commit.iterationId
    supply := commit.postSupply
    nWallets := wallets.length
    nActive := wallets.countP fun wallet => le (lit 0.999) wallet.activityScore
    gini := computeGiniFromBalances balances
    top10Share := top10Share balances.reverse (wrappingSum 128 balances)
    medianBalance := (balances[balances.length / 2]?).getD 0
    penaltyTotal := wrappingSum 64 (commit.penalties.map Prod.snd)
    burned := commit.burned
    rewardTotal := wrappingSum 64 (commit.rewards.map Prod.snd)
    faucetFromMint := commit.faucetFromMint
    newWallets := commit.newWallets.length
    nTxs
    burnRate := commit.burnRate
    inflation := commit.inflation }

end Metrics

/-- The variables of the loop of `run_simulation`. -/
structure SimState (F : Type) (R : Rng F) where
  wallets : List (Wallet F)
  nextWalletIdx : Nat
  rng : R.State
  state : SystemState F
  metrics : List (SimMetrics F)

section Run

variable [SampleF64 F] (C : Crypto) (R : Rng F) (parameters : SystemParameters F) (config : SimConfig F) (fuel : Nat)

def initialWallets (seed : MicroAgc) : Nat → Nat → R.State → List (Wallet F) × R.State
  | _, 0, rng => ([], rng)
  | i, remaining + 1, rng =>
    let (balance, rng) := initialBalance R config.initialWealthSigma seed rng
    let (rest, rng) := initialWallets seed (i + 1) remaining rng
    (simWallet C i balance :: rest, rng)

def simStart : SimState F R :=
  let (wallets, rng) := initialWallets C R config (microSeed parameters) 0 config.initialWallets
    (R.seedFromU64 config.rngSeed)
  { wallets, nextWalletIdx := config.initialWallets, rng, state := .default, metrics := [] }

variable {R}

/-- Scripted events, then synthetic activity. -/
def beforeIteration (before : SimState F R) : Option (SimRound F R) :=
  let round : SimRound F R := { wallets := before.wallets, nextWalletIdx := before.nextWalletIdx, rng := before.rng, nTxs := 0 }
  (round.applyScriptedEvents C config.scriptedEvents (before.state.currentIteration + 1) (microSeed parameters)
    config.transferFractionMean).syntheticActivity fuel config before.state.currentIteration

def afterIteration (before : SimState F R) (round : SimRound F R) (result : IterationResult F) : SimState F R :=
  let commit := result.commit
  let (wallets, nextWalletIdx) := reidentify C commit.iterationId result.wallets round.nextWalletIdx
  { wallets
    nextWalletIdx
    rng := round.rng
    state := { before.state with
      currentIteration := commit.iterationId
      totalSupply := commit.postSupply
      previousIterationStartSupply := commit.snapshotSupply
      previousIterationSupply := commit.postSupply
      lastInflation := commit.inflation
      nWallets := wallets.length }
    metrics := before.metrics ++ [metricsRow commit wallets round.nTxs] }

/-- One pass of the loop. -/
def simIteration (before : SimState F R) : Option (Outcome (SimState F R)) :=
  match beforeIteration C parameters config fuel before with
  | none => none
  | some round =>
    match executeIteration C round.wallets parameters before.state "sim-operator" with
    | .ok result => some (.ok (afterIteration C before round result))
    | .err e => some (.err e)
    | .panic => some .panic

variable (R)

/-- The loop after a number of passes; `none` when a Poisson draw in one of them does not end. -/
def simAfter : Nat → Option (Outcome (SimState F R))
  | 0 => some (.ok (simStart C R parameters config))
  | k + 1 =>
    match simAfter k with
    | some (.ok before) => simIteration C parameters config fuel before
    | ended => ended

def runSimulation : Option (Outcome (List (SimMetrics F))) :=
  match simAfter C R parameters config fuel config.iterations with
  | none => none
  | some (.ok last) => some (.ok last.metrics)
  | some (.err e) => some (.err e)
  | some .panic => some .panic

end Run

end AggoraCoin
