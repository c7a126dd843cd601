import AggoraCoin.Poh
import AggoraCoin.Storage

namespace AggoraCoin

inductive StateError
  | invalidSignature
  | invalidNonce
  | insufficientBalance
  | walletNotFound
  | operatorUnauthorized
  | walletAlreadyExists
  | iterationInProgress
  | rateLimitExceeded
  | badRequest (message : String)
  | internal (message : String)
  deriving DecidableEq, Repr

/-- How a call ends. -/
inductive Outcome (α : Type)
  | ok (value : α)
  | err (error : StateError)
  | panic

def Outcome.isOk {α : Type} : Outcome α → Bool
  | .ok _ => true
  | .err _ => false
  | .panic => false

def Outcome.isErr {α : Type} : Outcome α → Bool
  | .ok _ => false
  | .err _ => true
  | .panic => false

structure NodeConfig (F : Type) where
  parameters : SystemParameters F
  operatorSecret : Option String
  operatorPublicKey : Option String
  validatorEndpoint : String

/-- `Inner`: the storage handle, the state under its locks, and the operator's keys. -/
structure CoinState (F : Type) where
  storage : Storage F
  parameters : SystemParameters F
  system : SystemState F
  operatorSecret : Option String
  operatorPublicKey : PublicKey
  operatorId : OperatorId
  validatorId : ValidatorId
  seenOperatorSigs : String → Option Timestamp

namespace CoinState

variable {F : Type}

def trees (state : CoinState F) : Trees F := state.storage.trees

def writeAll (state : CoinState F) (writes : List (Write F)) : CoinState F :=
  { state with storage := state.storage.writeAll writes }

def getWallet (state : CoinState F) (walletId : WalletId) : Option (Wallet F) := state.trees.wallets.get walletId

def getOperator (state : CoinState F) (operatorId : OperatorId) : Option Operator :=
  state.trees.operators.get operatorId

def listWallets (state : CoinState F) : List (Wallet F) := state.trees.wallets.entries

def putWallet (state : CoinState F) (wallet : Wallet F) : CoinState F := state.writeAll [.wallet wallet]

def storeState (state : CoinState F) : CoinState F := state.writeAll [.state state.system]

/-- The exact sum of the stored balances. -/
def storedSupply (state : CoinState F) : Nat := state.trees.wallets.total Wallet.balance

@[simp] theorem trees_writeAll (state : CoinState F) (writes : List (Write F)) :
    (state.writeAll writes).trees = state.trees.applyAll writes := Storage.trees_writeAll _ _

@[simp] theorem system_writeAll (state : CoinState F) (writes : List (Write F)) :
    (state.writeAll writes).system = state.system := rfl

@[simp] theorem operatorSecret_writeAll (state : CoinState F) (writes : List (Write F)) :
    (state.writeAll writes).operatorSecret = state.operatorSecret := rfl

@[simp] theorem operatorId_writeAll (state : CoinState F) (writes : List (Write F)) :
    (state.writeAll writes).operatorId = state.operatorId := rfl

@[simp] theorem validatorId_writeAll (state : CoinState F) (writes : List (Write F)) :
    (state.writeAll writes).validatorId = state.validatorId := rfl

/-- `append_tx_locked`: the tick is bumped before the entry is built, so a secret that
cannot sign leaves the bump behind. -/
def appendTxLocked (C : Crypto) (tx : Transaction F) (now : Timestamp) (state : CoinState F) :
    Except StateError Unit × CoinState F :=
  let tick := state.system.currentTick + 1
  let state := { state with system := { state.system with currentTick := tick } }
  match C.buildEntry tick state.system.lastPohHash [tx.txId] state.validatorId state.operatorSecret now with
  | .error e => (.error (.internal e), state)
  | .ok entry =>
    let state := { state with system := { state.system with lastPohHash := entry.hash } }
    (.ok (), (state.writeAll (transactionWrites tx tick)).writeAll [.pohEntry entry])

end CoinState

def devOperatorSecret : String := "000102030405060708090a0b0c0d0e0f101112131415161718191a1b1c1d1e1f"

/-- `CoinState::open`. The environment is a parameter; a failed open leaves behind what it
wrote before it failed. -/
def openCoinState {F : Type} [F64 F] (C : Crypto) (env : String → Option String) (config : NodeConfig F)
    (storage : Storage F) : Except String (CoinState F) × Storage F :=
  let parameters := storage.loadParameters.getD config.parameters
  let storage := storage.writeAll [.parameters parameters]
  let operatorSecret := config.operatorSecret
    |>.or (env parameters.security.operatorSecretEnv)
    |>.or (env "AGGORA_COIN_OPERATOR_SECRET")
    |>.or (some devOperatorSecret)
  let configuredKey := config.operatorPublicKey
    |>.or (env parameters.security.operatorPubkeyEnv)
    |>.or (env "AGGORA_COIN_OPERATOR_PUBKEY")
    |>.or (operatorSecret.bind fun secret => (C.publicKeyFromSecretHex secret).toOption)
  match configuredKey with
  | none => (.error "operator public key could not be derived", storage)
  | some configuredKey =>
    match normalizeBytesToHex configuredKey 32 with
    | .error e => (.error e, storage)
    | .ok operatorPublicKey =>
      match C.walletIdFromPublicKey operatorPublicKey with
      | .error e => (.error e, storage)
      | .ok operatorId =>
        let validatorId := operatorId
        let system := storage.loadState.getD .default
        let system := if system.lastPohHash.isEmpty then { system with lastPohHash := zeroHashHex } else system
        let genesisOperator : Operator :=
          { id := operatorId, pubkey := operatorPublicKey, role := .genesis, authorizedAt := 0,
            authorizedBy := operatorId, revokedAt := none, metadata := "Aggora Coin Genesis Operator" }
        let validator : Validator :=
          { id := validatorId, pubkey := operatorPublicKey, endpoint := config.validatorEndpoint,
            isGenesis := true, registeredAt := 0, active := true, lastSeenTick := system.currentTick }
        let storage := storage.writeAll [.state system, .operator genesisOperator, .validator validator]
        (.ok { storage, parameters, system, operatorSecret, operatorPublicKey, operatorId, validatorId,
               seenOperatorSigs := fun _ => none }, storage)

end AggoraCoin
