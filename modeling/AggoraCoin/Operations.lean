import AggoraCoin.Economy

namespace AggoraCoin

variable {F : Type}

def rejectIf (rejected : Prop) [Decidable rejected] (e : StateError) : Except StateError Unit :=
  if rejected then .error e else .ok ()

def okOr {α : Type} (found : Option α) (e : StateError) : Except StateError α :=
  match found with
  | some value => .ok value
  | none => .error e

def mapErr {α : Type} (f : String → StateError) : Except String α → Except StateError α
  | .ok value => .ok value
  | .error e => .error (f e)

/-- `i64` subtraction and absolute value as a release build computes them. -/
def i64Distance (a b : Int) : Int := Int.bmod |Int.bmod (a - b) (2 ^ 64)| (2 ^ 64)

namespace CoinState

def withSystem (state : CoinState F) (system : SystemState F) : CoinState F := { state with system }

@[simp] theorem trees_withSystem (state : CoinState F) (system : SystemState F) :
    (state.withSystem system).trees = state.trees := rfl

@[simp] theorem system_withSystem (state : CoinState F) (system : SystemState F) :
    (state.withSystem system).system = system := rfl

end CoinState

/-- `update_parameters`: nothing is validated. -/
def updateParameters (parameters : SystemParameters F) (state : CoinState F) : CoinState F :=
  { state.writeAll [.parameters parameters] with parameters }

variable (C : Crypto)

def verifyUserSignature (security : SecurityParameters) (publicKey : String) (txId : Hash)
    (signature : String) : Except StateError Unit :=
  if security.devAuthBypass ∧ (trim signature).isEmpty then .ok ()
  else do
    let message ← mapErr (fun _ => .invalidSignature) (txSigningMessage txId)
    let valid ← mapErr (fun _ => .invalidSignature) (C.verifyEd25519 publicKey message signature)
    rejectIf (valid = false) .invalidSignature

/-- The headers of an operator-signed request, each one present or absent. -/
structure OperatorHeaders where
  timestamp : Option Timestamp
  signature : Option String
  operatorId : Option String
  operatorPublicKey : Option String

def verifyOperatorRequest (security : SecurityParameters) (method path : String) (body : Bytes)
    (headers : OperatorHeaders) (adminOnly : Bool) (now : Timestamp) (state : CoinState F) :
    Except StateError Operator :=
  if security.devAuthBypass ∧ headers.signature.isNone then
    okOr (state.getOperator state.operatorId) .operatorUnauthorized
  else do
    let timestamp ← okOr headers.timestamp .invalidSignature
    rejectIf (i64Distance now timestamp > security.timestampDriftMs) .invalidSignature
    let signature ← okOr headers.signature .invalidSignature
    let publicKey ←
      match headers.operatorPublicKey, headers.operatorId with
      | some publicKey, _ => mapErr (fun _ => .invalidSignature) (normalizeBytesToHex publicKey 32)
      | none, some operatorId => (okOr (state.getOperator operatorId) .operatorUnauthorized).map Operator.pubkey
      | none, none => .error .operatorUnauthorized
    let operatorId ← mapErr (fun _ => .invalidSignature) (C.walletIdFromPublicKey publicKey)
    rejectIf (∃ headerId ∈ headers.operatorId, headerId ≠ operatorId) .operatorUnauthorized
    let operator ← okOr (state.getOperator operatorId) .operatorUnauthorized
    rejectIf (operator.active = false ∨ operator.pubkey ≠ publicKey) .operatorUnauthorized
    rejectIf (adminOnly = true ∧ operator.role ≠ .genesis) .operatorUnauthorized
    let message := canonicalRequestMessage method path timestamp body
    let valid ← mapErr (fun _ => .invalidSignature) (C.verifyEd25519 publicKey message signature)
    rejectIf (valid = false) .invalidSignature
    pure operator

/-- `guard_operator_replay`: prune by the remembered timestamps, then look the text up. -/
def guardOperatorReplay (security : SecurityParameters) (signature : String) (timestamp now : Timestamp)
    (state : CoinState F) : Except StateError Unit × CoinState F :=
  let drift := max security.timestampDriftMs 0
  let seen := fun text => (state.seenOperatorSigs text).filter fun ts => i64Distance now ts ≤ drift
  if (seen signature).isSome then (.error .invalidSignature, { state with seenOperatorSigs := seen })
  else (.ok (), { state with seenOperatorSigs := Function.update seen signature (some timestamp) })

section Operations

variable [F64 F]

/-- A wallet about to be minted, with the payload its transaction id is the hash of. -/
structure MintPlan (F : Type) where
  wallet : Wallet F
  payload : MintPayload
  tx : MintTx

/-- A plan makes every check of its call, before the first write. What the source checks ahead of
the system lock reads only the request and the parameters, so it comes out the same under it. -/
def planCreateWallet (parameters : SystemParameters F) (request : WalletCreateRequest) (operator : Operator)
    (operatorSig : String) (state : CoinState F) : Except StateError (MintPlan F) := do
  rejectIf (parameters.security.requireCaptchaProof ∧ (trim request.captchaToken).isEmpty)
    (.badRequest "captcha_token is required")
  let publicKey ← mapErr .badRequest (normalizeBytesToHex request.publicKey 32)
  let walletId ← mapErr .badRequest (C.walletIdFromPublicKey publicKey)
  rejectIf state.system.iterationLock .iterationInProgress
  rejectIf (state.getWallet walletId).isSome .walletAlreadyExists
  let tick := state.system.currentTick + 1
  let amount := microSeed parameters
  let payload : MintPayload :=
    { toId := walletId, amount, eurAmount := 0, operatorId := operator.id, nonce := tick,
      timestamp := request.timestamp, category := "wallet_seed" }
  pure {
    wallet := .fresh walletId publicKey amount tick state.system.currentIteration operator.id
    payload
    tx := { txId := mintTxId C payload, toId := walletId, amount, eurAmount := 0, operatorId := operator.id,
            nonce := tick, timestamp := request.timestamp, operatorSig, category := "wallet_seed" } }

/-- The writes of one minted wallet, up to its PoH entry. -/
def insertMinted (plan : MintPlan F) (now : Timestamp) (state : CoinState F) :
    Except StateError Unit × CoinState F :=
  let state := state.putWallet plan.wallet
  let state := state.withSystem { state.system with
    totalSupply := Unsigned.saturatingAdd 64 state.system.totalSupply plan.wallet.balance
    nWallets := state.system.nWallets + 1
    nActiveWallets := state.system.nActiveWallets + 1 }
  state.appendTxLocked C (.mint plan.tx) now

def createWallet (parameters : SystemParameters F) (request : WalletCreateRequest) (operator : Operator)
    (operatorSig : String) (now : Timestamp) (state : CoinState F) :
    Outcome WalletCreateResponse × CoinState F :=
  match planCreateWallet C parameters request operator operatorSig state with
  | .error e => (.err e, state)
  | .ok plan =>
    match insertMinted C plan now state with
    | (.error e, state) => (.err e, state)
    | (.ok _, state) =>
      (.ok { walletId := plan.wallet.id, publicKey := plan.wallet.pubkey, balance := plan.wallet.balance,
             createdAtTick := plan.wallet.createdAtTick, txId := plan.tx.txId }, state.storeState)

/-- One entry of a seed file: `none` when its wallet already exists. `hashed` and `stored` are
the two clock readings the source takes for the id and for the record. -/
def planSeedWallet (parameters : SystemParameters F) (entry : SeedWallet) (hashed stored : Timestamp)
    (state : CoinState F) : Except StateError (Option (MintPlan F)) := do
  let publicKey ← mapErr .badRequest (normalizeBytesToHex entry.publicKey 32)
  let walletId ← mapErr .badRequest (C.walletIdFromPublicKey publicKey)
  if (state.getWallet walletId).isSome then pure none
  else
    let amount := entry.initialBalance.getD (microSeed parameters)
    let tick := state.system.currentTick + 1
    let payload : MintPayload :=
      { toId := walletId, amount, eurAmount := 0, operatorId := state.operatorId, nonce := tick,
        timestamp := hashed, category := "seed_bootstrap" }
    pure (some {
      wallet := .fresh walletId publicKey amount tick state.system.currentIteration state.operatorId
      payload
      tx := { txId := mintTxId C payload, toId := walletId, amount, eurAmount := 0,
              operatorId := state.operatorId, nonce := tick, timestamp := stored, operatorSig := "",
              category := "seed_bootstrap" } })

/-- The loop of `install_seed`. `clock` gives the readings still to come, three for each
wallet installed. -/
def installEntries (parameters : SystemParameters F) (clock : Nat → Timestamp) :
    List SeedWallet → Nat → CoinState F → Outcome Nat × CoinState F
  | [], installed, state => (.ok installed, state)
  | entry :: rest, installed, state =>
    match planSeedWallet C parameters entry (clock (3 * installed)) (clock (3 * installed + 1)) state with
    | .error e => (.err e, state)
    | .ok none => installEntries parameters clock rest installed state
    | .ok (some plan) =>
      match insertMinted C plan (clock (3 * installed + 2)) state with
      | (.error e, state) => (.err e, state)
      | (.ok _, state) => installEntries parameters clock rest (installed + 1) state

def installSeed (parameters : SystemParameters F) (seed : SeedFile) (clock : Nat → Timestamp)
    (state : CoinState F) : Outcome Nat × CoinState F :=
  if state.system.iterationLock then (.err .iterationInProgress, state)
  else
    match installEntries C parameters clock seed.initialWallets 0 state with
    | (.ok installed, state) => (.ok installed, state.storeState)
    | failed => failed

structure ChargePlan (F : Type) where
  wallet : Wallet F
  payload : MintPayload
  tx : MintTx

def planCharge (request : ChargeRequest) (operator : Operator) (operatorSig : String) (state : CoinState F) :
    Except StateError (ChargePlan F) := do
  rejectIf state.system.iterationLock .iterationInProgress
  let wallet ← okOr (state.getWallet request.toId) .walletNotFound
  let tick := state.system.currentTick + 1
  let payload : MintPayload :=
    { toId := request.toId, amount := request.amount, eurAmount := request.eurAmount,
      operatorId := operator.id, nonce := tick, timestamp := request.timestamp, category := "charge" }
  pure {
    wallet := { wallet with balance := Unsigned.saturatingAdd 64 wallet.balance request.amount }
    payload
    tx := { txId := mintTxId C payload, toId := request.toId, amount := request.amount,
            eurAmount := request.eurAmount, operatorId := operator.id, nonce := tick,
            timestamp := request.timestamp, operatorSig, category := "charge" } }

/-- `charge` from the moment it holds the system lock. -/
def chargeLocked (request : ChargeRequest) (operator : Operator) (operatorSig : String) (now : Timestamp)
    (state : CoinState F) : Outcome TxAcceptedResponse × CoinState F :=
  match planCharge C request operator operatorSig state with
  | .error e => (.err e, state)
  | .ok plan =>
    let tick := state.system.currentTick + 1
    let state := state.putWallet plan.wallet
    let state := state.withSystem { state.system with
      totalSupply := Unsigned.saturatingAdd 64 state.system.totalSupply request.amount }
    match state.appendTxLocked C (.mint plan.tx) now with
    | (.error e, state) => (.err e, state)
    | (.ok _, state) => (.ok { txId := plan.tx.txId, tick }, state.storeState)

/-- `guardNow` is the clock reading of the replay guard, `now` that of the PoH entry. -/
def charge (parameters : SystemParameters F) (request : ChargeRequest) (operator : Operator)
    (operatorSig : String) (guardNow now : Timestamp) (state : CoinState F) :
    Outcome TxAcceptedResponse × CoinState F :=
  if request.amount = 0 then (.err (.badRequest "amount must be greater than zero"), state)
  else
    match guardOperatorReplay parameters.security operatorSig request.timestamp guardNow state with
    | (.error e, state) => (.err e, state)
    | (.ok _, state) => chargeLocked C request operator operatorSig now state

/-- The counters a transfer or burn advances on a wallet it involves. -/
def Wallet.touch (wallet : Wallet F) (iteration : IterationId) : Wallet F :=
  { wallet with
    iterationTxCount := Unsigned.wrappingAdd 32 wallet.iterationTxCount 1
    lastActiveIteration := iteration }

def Wallet.meet (wallet : Wallet F) (counterparty : WalletId) : Wallet F :=
  { wallet with iterationCounterparties := insert counterparty wallet.iterationCounterparties }

/-- The sender's side. The checks have made sure the amount is covered, so the plain
subtraction of the source does not underflow. -/
def Wallet.spend (wallet : Wallet F) (amount : MicroAgc) : Wallet F :=
  { wallet with balance := wallet.balance - amount, nonce := wallet.nonce + 1 }

def Wallet.receive (wallet : Wallet F) (amount : MicroAgc) : Wallet F :=
  { wallet with balance := Unsigned.saturatingAdd 64 wallet.balance amount }

def Wallet.newlyActive (wallet : Wallet F) (iteration : IterationId) : Nat :=
  if wallet.lastActiveIteration ≠ iteration then 1 else 0

structure TransferPlan (F : Type) where
  fromWallet : Wallet F
  toWallet : Wallet F
  newlyActive : Nat
  tx : TransferTx

def planTransfer (security : SecurityParameters) (request : TransferRequest) (state : CoinState F) :
    Except StateError (TransferPlan F) := do
  rejectIf (request.fromId = request.toId) (.badRequest "from and to must differ")
  rejectIf (request.amount = 0) (.badRequest "amount must be greater than zero")
  let publicWalletId ← mapErr (fun _ => .invalidSignature) (C.walletIdFromPublicKey request.senderPubkey)
  rejectIf (publicWalletId ≠ request.fromId) .invalidSignature
  let txId ← transferTxId C request
  let senderPubkey ← mapErr (fun _ => .invalidSignature) (normalizeBytesToHex request.senderPubkey 32)
  verifyUserSignature C security request.senderPubkey txId request.userSig
  rejectIf state.system.iterationLock .iterationInProgress
  let fromWallet ← okOr (state.getWallet request.fromId) .walletNotFound
  let toWallet ← okOr (state.getWallet request.toId) .walletNotFound
  rejectIf (fromWallet.nonce ≠ request.nonce) .invalidNonce
  rejectIf (fromWallet.balance < request.amount) .insufficientBalance
  let iteration := state.system.currentIteration
  pure {
    fromWallet := ((fromWallet.spend request.amount).touch iteration).meet request.toId
    toWallet := ((toWallet.receive request.amount).touch iteration).meet request.fromId
    newlyActive := fromWallet.newlyActive iteration + toWallet.newlyActive iteration
    tx := { txId, fromId := request.fromId, toId := request.toId, amount := request.amount,
            nonce := request.nonce, timestamp := request.timestamp, senderPubkey,
            userSig := request.userSig } }

def transfer (parameters : SystemParameters F) (request : TransferRequest) (now : Timestamp)
    (state : CoinState F) : Outcome TxAcceptedResponse × CoinState F :=
  match planTransfer C parameters.security request state with
  | .error e => (.err e, state)
  | .ok plan =>
    let tick := state.system.currentTick + 1
    let state := (state.putWallet plan.fromWallet).putWallet plan.toWallet
    match state.appendTxLocked C (.transfer plan.tx) now with
    | (.error e, state) => (.err e, state)
    | (.ok _, state) =>
      let state := state.withSystem { state.system with
        nActiveWallets := state.system.nActiveWallets + plan.newlyActive }
      (.ok { txId := plan.tx.txId, tick }, state.storeState)

structure BurnPlan (F : Type) where
  wallet : Wallet F
  newlyActive : Nat
  tx : BurnTx

def planBurn (security : SecurityParameters) (request : BurnRequest) (state : CoinState F) :
    Except StateError (BurnPlan F) := do
  rejectIf (request.amount = 0) (.badRequest "amount must be greater than zero")
  let publicWalletId ← mapErr (fun _ => .invalidSignature) (C.walletIdFromPublicKey request.senderPubkey)
  rejectIf (publicWalletId ≠ request.fromId) .invalidSignature
  let txId ← burnTxId C request
  let senderPubkey ← mapErr (fun _ => .invalidSignature) (normalizeBytesToHex request.senderPubkey 32)
  verifyUserSignature C security request.senderPubkey txId request.userSig
  rejectIf state.system.iterationLock .iterationInProgress
  let wallet ← okOr (state.getWallet request.fromId) .walletNotFound
  rejectIf (wallet.nonce ≠ request.nonce) .invalidNonce
  rejectIf (wallet.balance < request.amount) .insufficientBalance
  let iteration := state.system.currentIteration
  pure {
    wallet := (wallet.spend request.amount).touch iteration
    newlyActive := wallet.newlyActive iteration
    tx := { txId, fromId := request.fromId, amount := request.amount, nonce := request.nonce,
            timestamp := request.timestamp, senderPubkey, userSig := request.userSig } }

def burn (parameters : SystemParameters F) (request : BurnRequest) (now : Timestamp) (state : CoinState F) :
    Outcome TxAcceptedResponse × CoinState F :=
  match planBurn C parameters.security request state with
  | .error e => (.err e, state)
  | .ok plan =>
    let tick := state.system.currentTick + 1
    let state := state.putWallet plan.wallet
    let state := state.withSystem { state.system with
      totalSupply := Unsigned.saturatingSub state.system.totalSupply request.amount }
    match state.appendTxLocked C (.burn plan.tx) now with
    | (.error e, state) => (.err e, state)
    | (.ok _, state) =>
      let state := state.withSystem { state.system with
        nActiveWallets := state.system.nActiveWallets + plan.newlyActive }
      (.ok { txId := plan.tx.txId, tick }, state.storeState)

/-- The system state an iteration result is committed under, the lock released. -/
def commitSystem (system : SystemState F) (result : IterationResult F) : SystemState F :=
  { system with
    totalSupply := result.commit.postSupply
    nWallets := result.wallets.length
    nActiveWallets := result.commit.newWallets.length
    currentIteration := result.commit.iterationId
    iterationStartedAt := system.currentTick
    previousIterationStartSupply := result.commit.snapshotSupply
    previousIterationSupply := result.commit.postSupply
    lastInflation := result.commit.inflation
    lastGini := computeGini result.wallets
    iterationLock := false }

/-- A panic inside `execute_iteration` unwinds out of the call and leaves the state as it is. -/
def executeIterationNow (parameters : SystemParameters F) (now snapshotNow : Timestamp) (state : CoinState F) :
    Outcome (IterationCommit F) × CoinState F :=
  if state.system.iterationLock then (.err .iterationInProgress, state)
  else
    let state := (state.withSystem { state.system with iterationLock := true }).storeState
    match executeIteration C state.listWallets parameters state.system state.operatorId with
    | .panic => (.panic, state)
    | .err e => (.err e, state)
    | .ok result =>
      let state := state.writeAll (result.wallets.map .wallet)
      let state := state.withSystem (commitSystem state.system result)
      match state.appendTxLocked C (.iterationCommit result.commit) now with
      | (.error e, state) => (.err e, state)
      | (.ok _, state) =>
        let state := (state.writeAll [.iteration result.commit]).storeState
        let state :=
          if parameters.storage.snapshotPerIteration then
            state.writeAll [.snapshot {
              iterationId := result.commit.iterationId, tick := state.system.currentTick,
              timestamp := snapshotNow, parameters, systemState := state.system,
              wallets := result.wallets, pohAnchor := state.system.lastPohHash }]
          else state
        (.ok result.commit, state)

end Operations

end AggoraCoin
