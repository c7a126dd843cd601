import AggoraCoin.Float64

namespace AggoraCoin

abbrev WalletId := String
abbrev OperatorId := String
abbrev ValidatorId := String
abbrev PublicKey := String
abbrev Signature := String
abbrev Hash := String
abbrev MicroAgc := Nat
/-- Like iterations, nonces and wallet counts, a tick moves by one per accepted call and is not
bounded; amounts are `u64`, and every operation on them says whether it saturates or wraps. -/
abbrev Tick := Nat
abbrev IterationId := Nat
abbrev Nonce := Nat
abbrev Timestamp := Int

abbrev u64Max : Nat := Unsigned.maxValue 64

def microAgcPerAgc : MicroAgc := 1000000

inductive OperatorRole
  | genesis
  | standard
  deriving DecidableEq, Repr

structure Operator where
  id : OperatorId
  pubkey : PublicKey
  role : OperatorRole
  authorizedAt : Tick
  authorizedBy : OperatorId
  revokedAt : Option Tick
  metadata : String
  deriving DecidableEq, Repr

def Operator.active (operator : Operator) : Bool := operator.revokedAt.isNone

structure Validator where
  id : ValidatorId
  pubkey : PublicKey
  endpoint : String
  isGenesis : Bool
  registeredAt : Tick
  active : Bool
  lastSeenTick : Tick
  deriving DecidableEq, Repr

structure Wallet (F : Type) where
  id : WalletId
  pubkey : PublicKey
  balance : MicroAgc
  nonce : Nonce
  createdAtTick : Tick
  createdAtIteration : IterationId
  createdByOperator : OperatorId
  iterationTxCount : Nat
  iterationCounterparties : Finset WalletId
  lastActiveIteration : IterationId
  activityScore : F

structure MintTx where
  txId : Hash
  toId : WalletId
  amount : MicroAgc
  eurAmount : Nat
  operatorId : OperatorId
  nonce : Nat
  timestamp : Timestamp
  operatorSig : Signature
  category : String
  deriving DecidableEq, Repr

structure TransferTx where
  txId : Hash
  fromId : WalletId
  toId : WalletId
  amount : MicroAgc
  nonce : Nonce
  timestamp : Timestamp
  senderPubkey : PublicKey
  userSig : Signature
  deriving DecidableEq, Repr

structure BurnTx where
  txId : Hash
  fromId : WalletId
  amount : MicroAgc
  nonce : Nonce
  timestamp : Timestamp
  senderPubkey : PublicKey
  userSig : Signature
  deriving DecidableEq, Repr

structure IterationCommit (F : Type) where
  txId : Hash
  iterationId : IterationId
  triggeredAtTick : Tick
  snapshotSupply : MicroAgc
  snapshotNWallets : Nat
  snapshotGini : F
  inflation : F
  burnRate : F
  penalties : List (WalletId × MicroAgc)
  rewards : List (WalletId × MicroAgc)
  burned : MicroAgc
  faucetFromPenalty : MicroAgc
  faucetFromMint : MicroAgc
  newWallets : List WalletId
  postSupply : MicroAgc
  validatorSigs : List (ValidatorId × Signature)

inductive OperatorAction
  | add
  | revoke
  deriving DecidableEq, Repr

structure OperatorChangeTx where
  txId : Hash
  action : OperatorAction
  targetPubkey : PublicKey
  timestamp : Timestamp
  authorizingOp : OperatorId
  operatorSig : Signature
  deriving DecidableEq, Repr

inductive Transaction (F : Type)
  | mint (tx : MintTx)
  | transfer (tx : TransferTx)
  | burn (tx : BurnTx)
  | iterationCommit (tx : IterationCommit F)
  | operatorChange (tx : OperatorChangeTx)

namespace Transaction

variable {F : Type}

def txId : Transaction F → Hash
  | mint tx => tx.txId
  | transfer tx => tx.txId
  | burn tx => tx.txId
  | iterationCommit tx => tx.txId
  | operatorChange tx => tx.txId

def walletIds : Transaction F → List WalletId
  | mint tx => [tx.toId]
  | transfer tx => [tx.fromId, tx.toId]
  | burn tx => [tx.fromId]
  | iterationCommit tx => tx.penalties.map Prod.fst ++ tx.rewards.map Prod.fst ++ tx.newWallets
  | operatorChange _ => []

end Transaction

structure PohEntry where
  tick : Tick
  prevHash : Hash
  hash : Hash
  txRoot : Hash
  txIds : List Hash
  leaderId : ValidatorId
  leaderSig : Signature
  wallClock : Timestamp
  deriving DecidableEq, Repr

structure SystemState (F : Type) where
  currentTick : Tick
  currentIteration : IterationId
  iterationStartedAt : Tick
  totalSupply : MicroAgc
  nWallets : Nat
  nActiveWallets : Nat
  lastPohHash : Hash
  previousIterationSupply : MicroAgc
  previousIterationStartSupply : MicroAgc
  lastInflation : F
  lastGini : F
  iterationLock : Bool

/-- Sixty-four zero digits: the hash before the first entry. -/
def zeroHashHex : Hash := String.ofList (List.replicate 64 '0')

def SystemState.default {F : Type} [F64 F] : SystemState F where
  currentTick := 0
  currentIteration := 0
  iterationStartedAt := 0
  totalSupply := 0
  nWallets := 0
  nActiveWallets := 0
  lastPohHash := zeroHashHex
  previousIterationSupply := 0
  previousIterationStartSupply := 0
  lastInflation := F64.lit 0
  lastGini := F64.lit 0
  iterationLock := false

inductive ResidualPolicy
  | burn
  | genesisWallet
  deriving DecidableEq, Repr

structure EconomyParameters (F : Type) where
  initialSeedAgc : Nat
  penaltyRate : F
  targetPenaltyShareOfSupply : F
  burnBase : F
  burnSensitivity : F
  burnMin : F
  burnMax : F
  targetInflationPerIter : F
  faucetShareOfPenalty : F
  redistributionActiveMin : F
  redistributionActiveMax : F
  activityEmaLambda : F
  activityMinTxCount : Nat
  activityMinCounterparties : Nat
  inverseBalanceWeight : F
  residualPolicy : ResidualPolicy

structure GrowthParameters (F : Type) where
  growthFactorPerIteration : F
  maxNewWalletsPerIter : Nat
  chargeEurToAgcRatio : F

structure ConsensusParameters where
  nValidators : Nat
  pohTickMs : Nat
  ticksPerSlot : Nat
  maxTxsPerTick : Nat
  leaderRotation : String

structure IterationParameters where
  iterationsPerYear : Nat
  ticksPerIteration : Nat

structure StorageParameters where
  dbPath : String
  snapshotPath : String
  snapshotPerIteration : Bool
  seedPath : String

structure SecurityParameters where
  operatorPubkeyEnv : String
  operatorSecretEnv : String
  requireCaptchaProof : Bool
  rateLimitWalletPerIpPerDay : Nat
  rateLimitTxPerWalletPerMinute : Nat
  timestampDriftMs : Int
  devAuthBypass : Bool

structure SimulationParameters (F : Type) where
  enabled : Bool
  speedFactor : Nat
  seedFile : String
  autoGenerateUsers : Bool
  usersPerIterationMean : F
  usersPerIterationStddev : F
  txPerActiveWalletMean : F

structure SystemParameters (F : Type) where
  economy : EconomyParameters F
  growth : GrowthParameters F
  consensus : ConsensusParameters
  iteration : IterationParameters
  storage : StorageParameters
  security : SecurityParameters
  simulation : SimulationParameters F

section Reread

variable {F : Type} [F64 F]

/-- The record as it is read from its JSON text. -/
def IterationCommit.reread (commit : IterationCommit F) : IterationCommit F :=
  { commit with
    snapshotGini := F64.reread commit.snapshotGini
    inflation := F64.reread commit.inflation
    burnRate := F64.reread commit.burnRate }

def Transaction.reread : Transaction F → Transaction F
  | mint tx => mint tx
  | transfer tx => transfer tx
  | burn tx => burn tx
  | iterationCommit tx => iterationCommit tx.reread
  | operatorChange tx => operatorChange tx

@[simp] theorem Transaction.txId_reread (tx : Transaction F) : tx.reread.txId = tx.txId := by
  cases tx <;> rfl

def SystemState.reread (state : SystemState F) : SystemState F :=
  { state with
    lastInflation := F64.reread state.lastInflation
    lastGini := F64.reread state.lastGini }

@[simp] theorem SystemState.totalSupply_reread (system : SystemState F) : system.reread.totalSupply = system.totalSupply := rfl

@[simp] theorem SystemState.currentTick_reread (system : SystemState F) : system.reread.currentTick = system.currentTick := rfl

@[simp] theorem SystemState.iterationLock_reread (system : SystemState F) : system.reread.iterationLock = system.iterationLock := rfl

@[simp] theorem SystemState.lastPohHash_reread (system : SystemState F) : system.reread.lastPohHash = system.lastPohHash := rfl

def EconomyParameters.reread (economy : EconomyParameters F) : EconomyParameters F :=
  { economy with
    penaltyRate := F64.reread economy.penaltyRate
    targetPenaltyShareOfSupply := F64.reread economy.targetPenaltyShareOfSupply
    burnBase := F64.reread economy.burnBase
    burnSensitivity := F64.reread economy.burnSensitivity
    burnMin := F64.reread economy.burnMin
    burnMax := F64.reread economy.burnMax
    targetInflationPerIter := F64.reread economy.targetInflationPerIter
    faucetShareOfPenalty := F64.reread economy.faucetShareOfPenalty
    redistributionActiveMin := F64.reread economy.redistributionActiveMin
    redistributionActiveMax := F64.reread economy.redistributionActiveMax
    activityEmaLambda := F64.reread economy.activityEmaLambda
    inverseBalanceWeight := F64.reread economy.inverseBalanceWeight }

def GrowthParameters.reread (growth : GrowthParameters F) : GrowthParameters F :=
  { growth with
    growthFactorPerIteration := F64.reread growth.growthFactorPerIteration
    chargeEurToAgcRatio := F64.reread growth.chargeEurToAgcRatio }

def SimulationParameters.reread (simulation : SimulationParameters F) : SimulationParameters F :=
  { simulation with
    usersPerIterationMean := F64.reread simulation.usersPerIterationMean
    usersPerIterationStddev := F64.reread simulation.usersPerIterationStddev
    txPerActiveWalletMean := F64.reread simulation.txPerActiveWalletMean }

def SystemParameters.reread (parameters : SystemParameters F) : SystemParameters F :=
  { parameters with
    economy := parameters.economy.reread
    growth := parameters.growth.reread
    simulation := parameters.simulation.reread }

end Reread

section Defaults

variable {F : Type} [F64 F]

open F64

def EconomyParameters.default : EconomyParameters F where
  initialSeedAgc := 10
  penaltyRate := lit 0.05
  targetPenaltyShareOfSupply := lit 0.05
  burnBase := lit 0.10
  burnSensitivity := lit 0.5
  burnMin := lit 0.0
  burnMax := lit 0.9
  targetInflationPerIter := lit 0.02
  faucetShareOfPenalty := lit 0.20
  redistributionActiveMin := lit 0.5
  redistributionActiveMax := lit 1.5
  activityEmaLambda := lit 0.5
  activityMinTxCount := 1
  activityMinCounterparties := 1
  inverseBalanceWeight := lit 0.5
  residualPolicy := .burn

def GrowthParameters.default : GrowthParameters F where
  growthFactorPerIteration := lit 0.05
  maxNewWalletsPerIter := 1000
  chargeEurToAgcRatio := lit 1.0

def ConsensusParameters.default : ConsensusParameters where
  nValidators := 1
  pohTickMs := 400
  ticksPerSlot := 64
  maxTxsPerTick := 256
  leaderRotation := "round_robin"

def IterationParameters.default : IterationParameters where
  iterationsPerYear := 12
  ticksPerIteration := 6566400

def StorageParameters.default : StorageParameters where
  dbPath := "./data/agc.sled"
  snapshotPath := "./snapshots"
  snapshotPerIteration := true
  seedPath := "./seeds"

def SecurityParameters.default : SecurityParameters where
  operatorPubkeyEnv := "AGORA_OPERATOR_PUBKEY"
  operatorSecretEnv := "AGORA_OPERATOR_SECRET"
  requireCaptchaProof := true
  rateLimitWalletPerIpPerDay := 5
  rateLimitTxPerWalletPerMinute := 60
  timestampDriftMs := 60000
  devAuthBypass := false

def SimulationParameters.default : SimulationParameters F where
  enabled := false
  speedFactor := 1000
  seedFile := "seeds/default_100_nodes.json"
  autoGenerateUsers := true
  usersPerIterationMean := lit 80.0
  usersPerIterationStddev := lit 15.0
  txPerActiveWalletMean := lit 5.0

def SystemParameters.default : SystemParameters F where
  economy := .default
  growth := .default
  consensus := .default
  iteration := .default
  storage := .default
  security := .default
  simulation := .default

end Defaults

structure SeedWallet where
  publicKey : PublicKey
  initialBalance : Option MicroAgc

structure SeedFile where
  initialWallets : List SeedWallet

structure WalletCreateRequest where
  publicKey : PublicKey
  captchaToken : String
  timestamp : Timestamp

structure ChargeRequest where
  toId : WalletId
  amount : MicroAgc
  eurAmount : Nat
  timestamp : Timestamp

structure TransferRequest where
  fromId : WalletId
  toId : WalletId
  amount : MicroAgc
  nonce : Nonce
  timestamp : Timestamp
  senderPubkey : PublicKey
  userSig : Signature

structure BurnRequest where
  fromId : WalletId
  amount : MicroAgc
  nonce : Nonce
  timestamp : Timestamp
  senderPubkey : PublicKey
  userSig : Signature

structure WalletCreateResponse where
  walletId : WalletId
  publicKey : PublicKey
  balance : MicroAgc
  createdAtTick : Tick
  txId : Hash

structure TxAcceptedResponse where
  txId : Hash
  tick : Tick

end AggoraCoin
