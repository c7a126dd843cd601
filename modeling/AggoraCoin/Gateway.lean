import AggoraCoin.Lib.Interleaving
import AggoraCoin.OperatorRequests
import AggoraCoin.RateLimits
import AggoraCoin.Reports
import AggoraCoin.SimulationControl
import AggoraCoin.SnapshotCut
import AggoraCoin.WalletHistory

namespace AggoraCoin

variable {F : Type}

inductive Route
  | healthz
  | genesisOperator
  | createWallet
  | charge
  | transfer
  | burn
  | getWallet (id : WalletId)
  | walletTransactions (id : WalletId)
  | getTransaction (id : Hash)
  | currentIteration
  | getIteration (id : IterationId)
  | stats
  | giniHistory
  | supplyHistory
  | adminParameters
  | updateParameters
  | simulationStart
  | simulationStop
  | simulationStatus
  | adminSnapshot
  | adminOperator
  deriving DecidableEq

structure HttpRequest where
  route : Route
  ip : IpAddr
  headers : HeaderMap
  body : Bytes

/-- What a handler puts under `data`. -/
inductive ApiData (F : Type)
  | health
  | genesisOperator (operatorId : OperatorId) (publicKey : PublicKey)
  | walletCreated (response : WalletCreateResponse)
  | txAccepted (response : TxAcceptedResponse)
  | wallet (wallet : Wallet F)
  | transactions (transactions : List (Transaction F))
  | transaction (tx : Transaction F)
  | genesisIteration
  | iterationId (iterationId : IterationId)
  | iteration (commit : IterationCommit F)
  | stats (stats : StatsResponse F)
  | giniPoints (points : List (GiniPoint F))
  | supplyPoints (points : List SupplyPoint)
  | parameters (parameters : SystemParameters F)
  | simulation (status : SimulationStatus)
  | snapshot (snapshot : ManualSnapshot F)

structure ApiErrorBody where
  code : String
  message : String

/-- The envelope of every answer, with its HTTP status. -/
structure ApiResponse (F : Type) where
  status : Nat
  success : Bool
  data : Option (ApiData F)
  error : Option ApiErrorBody
  tick : Tick
  iteration : IterationId

/-- A handler that panics answers nothing. -/
abbrev Reply (F : Type) := Option (ApiResponse F)

namespace StateError

def code : StateError → String
  | invalidSignature => "INVALID_SIGNATURE"
  | invalidNonce => "INVALID_NONCE"
  | insufficientBalance => "INSUFFICIENT_BALANCE"
  | walletNotFound => "WALLET_NOT_FOUND"
  | operatorUnauthorized => "OPERATOR_UNAUTHORIZED"
  | walletAlreadyExists => "WALLET_ALREADY_EXISTS"
  | iterationInProgress => "ITERATION_IN_PROGRESS"
  | rateLimitExceeded => "RATE_LIMIT_EXCEEDED"
  | badRequest _ => "BAD_REQUEST"
  | internal _ => "INTERNAL_ERROR"

def text : StateError → String
  | invalidSignature => "invalid signature"
  | invalidNonce => "invalid nonce"
  | insufficientBalance => "insufficient balance"
  | walletNotFound => "wallet not found"
  | operatorUnauthorized => "operator unauthorized"
  | walletAlreadyExists => "wallet already exists"
  | iterationInProgress => "iteration in progress"
  | rateLimitExceeded => "rate limit exceeded"
  | badRequest message => "bad request: " ++ message
  | internal message => message

def status : StateError → Nat
  | invalidSignature => 401
  | operatorUnauthorized => 403
  | invalidNonce => 400
  | insufficientBalance => 400
  | badRequest _ => 400
  | walletAlreadyExists => 400
  | walletNotFound => 404
  | iterationInProgress => 409
  | rateLimitExceeded => 429
  | internal _ => 500

end StateError

/-- What the JSON parser makes of a body, or its complaint. `simulationStart` gives the iterations asked for. -/
structure Decoders (F : Type) where
  walletCreate : Bytes → Except String WalletCreateRequest
  charge : Bytes → Except String ChargeRequest
  transfer : Bytes → Except String TransferRequest
  burn : Bytes → Except String BurnRequest
  parameters : Bytes → Except String (SystemParameters F)
  simulationStart : Bytes → Except String Nat

/-- The node, the status of its simulation and the tables of its two limiters. -/
structure Service (F : Type) where
  node : CoinState F
  simulation : SimulationStatus
  walletRates : RateTable IpAddr
  transferRates : RateTable WalletId

/-- A node that has just been opened. -/
def Service.idle (node : CoinState F) : Service F := ⟨node, ⟨false, "idle", 0⟩, fun _ => [], fun _ => []⟩

/-- Each step has the readings of the clock that it takes. -/
abbrev Handler (F α : Type) := Process (Nat → Timestamp) (Service F) α

namespace Handler

variable {α : Type}

/-- A reading of the clock outside any lock. -/
def now : Handler F Timestamp := .atomic fun clock service => (clock 0, service)

def reading (read : CoinState F → α) : Handler F α := .atomic fun _ service => (read service.node, service)

/-- What is done to the node under one lock. -/
def locked (run : (Nat → Timestamp) → CoinState F → α × CoinState F) : Handler F α :=
  .atomic fun clock service => ((run clock service.node).1, { service with node := (run clock service.node).2 })

def setStatus (change : SimulationStatus → SimulationStatus) : Handler F SimulationStatus :=
  .atomic fun _ service => (change service.simulation, { service with simulation := change service.simulation })

end Handler

open Handler

namespace Async

variable (C : Crypto)

def checkWalletRateLimit (ip : IpAddr) : Handler F (Except StateError Unit) := do
  let parameters ← reading CoinState.parameters
  let now ← now
  .atomic fun _ service =>
    ((AggoraCoin.checkWalletRateLimit parameters.security (some ip) now service.walletRates).1,
      { service with
        walletRates := (AggoraCoin.checkWalletRateLimit parameters.security (some ip) now service.walletRates).2 })

def checkTransferRateLimit (walletId : WalletId) : Handler F (Except StateError Unit) := do
  let parameters ← reading CoinState.parameters
  let now ← now
  .atomic fun _ service =>
    ((AggoraCoin.checkTransferRateLimit parameters.security walletId now service.transferRates).1,
      { service with
        transferRates := (AggoraCoin.checkTransferRateLimit parameters.security walletId now service.transferRates).2 })

def verifyOperatorRequest (method path : String) (body : Bytes) (headers : OperatorHeaders) (adminOnly : Bool) :
    Handler F (Except StateError Operator) := do
  let parameters ← reading CoinState.parameters
  .atomic fun clock service =>
    (AggoraCoin.verifyOperatorRequest C parameters.security method path body headers adminOnly (clock 0) service.node,
      service)

def simulationStatus : Handler F SimulationStatus := .atomic fun _ service => (service.simulation, service)

/-- The storage write, then the swap in memory. -/
def updateParameters (parameters : SystemParameters F) : Handler F Unit := do
  locked fun _ node => ((), node.writeAll [.parameters parameters])
  locked fun _ node => ((), { node with parameters })

def createManualSnapshot : Handler F (ManualSnapshot F) := do
  let system ← reading CoinState.system
  let parameters ← reading CoinState.parameters
  let wallets ← reading CoinState.listWallets
  let now ← now
  pure { iterationId := system.currentIteration, tick := system.currentTick, timestamp := now, parameters,
         systemState := system, wallets }

variable [F64 F]

def createWallet (request : WalletCreateRequest) (operator : Operator) (operatorSig : String) :
    Handler F (Outcome WalletCreateResponse) := do
  let parameters ← reading CoinState.parameters
  locked fun clock => AggoraCoin.createWallet C parameters request operator operatorSig (clock 0)

/-- The replay guard is a lock of its own, before that of the system. -/
def charge (request : ChargeRequest) (operator : Operator) (operatorSig : String) :
    Handler F (Outcome TxAcceptedResponse) :=
  if request.amount = 0 then pure (.err (.badRequest "amount must be greater than zero"))
  else do
    let parameters ← reading CoinState.parameters
    let now ← now
    match ← locked fun _ => guardOperatorReplay parameters.security operatorSig request.timestamp now with
    | .error e => pure (.err e)
    | .ok _ => locked fun clock => chargeLocked C request operator operatorSig (clock 0)

def transfer (request : TransferRequest) : Handler F (Outcome TxAcceptedResponse) := do
  let parameters ← reading CoinState.parameters
  locked fun clock => AggoraCoin.transfer C parameters request (clock 0)

def burn (request : BurnRequest) : Handler F (Outcome TxAcceptedResponse) := do
  let parameters ← reading CoinState.parameters
  locked fun clock => AggoraCoin.burn C parameters request (clock 0)

def executeIterationNow : Handler F (Outcome (IterationCommit F)) := do
  let parameters ← reading CoinState.parameters
  locked fun clock => AggoraCoin.executeIterationNow C parameters (clock 0) (clock 1)

/-- The loop of `run_simulation_iterations`: an error or a panic leaves it at once. -/
def simulationLoop : Nat → Handler F (Outcome SimulationStatus)
  | 0 => do
    let status ← setStatus fun status => { status with running := false }
    pure (.ok status)
  | more + 1 => do
    match ← executeIterationNow C with
    | .ok _ =>
      let _ ← setStatus fun status =>
        { status with iterationsExecuted := Unsigned.wrappingAdd 64 status.iterationsExecuted 1 }
      simulationLoop more
    | .err e => pure (.err e)
    | .panic => pure .panic

def runSimulationIterations (iterations : Nat) : Handler F (Outcome SimulationStatus) := do
  let _ ← setStatus (setSimulationRunning true "manual")
  simulationLoop C iterations

end Async

namespace Rest

def ok (status : Nat) (data : ApiData F) : Handler F (Reply F) := do
  let system ← reading CoinState.system
  pure (some { status, success := true, data := some data, error := none, tick := system.currentTick,
               iteration := system.currentIteration })

def error (status : Nat) (code message : String) : Handler F (Reply F) := do
  let system ← reading CoinState.system
  pure (some { status, success := false, data := none, error := some { code, message },
               tick := system.currentTick, iteration := system.currentIteration })

def stateError (e : StateError) : Handler F (Reply F) := error e.status e.code e.text

/-- `match` on the result of a method. -/
def conclude {α : Type} (outcome : Outcome α) (accepted : α → Handler F (Reply F)) : Handler F (Reply F) :=
  match outcome with
  | .ok value => accepted value
  | .err e => stateError e
  | .panic => pure none

variable (C : Crypto) (decode : Decoders F) (request : HttpRequest)

/-- `operator_auth`, and what comes after it. -/
def operatorAuth (method path : String) (adminOnly : Bool) (admitted : Operator → String → Handler F (Reply F)) :
    Handler F (Reply F) := do
  let headers := operatorHeaders request.headers
  match ← Async.verifyOperatorRequest C method path request.body headers adminOnly with
  | .error e => stateError e
  | .ok operator => admitted operator (headers.signature.getD "")

/-- `serde_json::from_slice`, and what comes after it. -/
def parsed {α : Type} (body : Except String α) (rest : α → Handler F (Reply F)) : Handler F (Reply F) :=
  match body with
  | .error e => error 400 "BAD_REQUEST" e
  | .ok value => rest value

def healthz : Handler F (Reply F) := ok 200 .health

def genesisOperator : Handler F (Reply F) := do
  let (operatorId, publicKey) ← reading fun node => (node.operatorId, node.operatorPublicKey)
  ok 200 (.genesisOperator operatorId publicKey)

def getWallet (id : WalletId) : Handler F (Reply F) := do
  match ← reading fun node => node.getWallet id with
  | some wallet => ok 200 (.wallet wallet)
  | none => stateError .walletNotFound

variable [F64 F]

def walletTransactions (id : WalletId) : Handler F (Reply F) := do
  ok 200 (.transactions (← reading fun node => node.storage.listTransactionsForWallet id 100))

def getTransaction (id : Hash) : Handler F (Reply F) := do
  match ← reading fun node => node.storage.getTransaction id with
  | some tx => ok 200 (.transaction tx)
  | none => error 404 "TRANSACTION_NOT_FOUND" "transaction not found"

def currentIteration : Handler F (Reply F) := do
  let system ← reading CoinState.system
  if system.currentIteration = 0 then ok 200 .genesisIteration
  else
    match ← reading fun node => node.storage.getIteration system.currentIteration with
    | some commit => ok 200 (.iteration commit)
    | none => ok 200 (.iterationId system.currentIteration)

def getIteration (id : IterationId) : Handler F (Reply F) := do
  match ← reading fun node => node.storage.getIteration id with
  | some commit => ok 200 (.iteration commit)
  | none => error 404 "ITERATION_NOT_FOUND" "iteration not found"

def stats : Handler F (Reply F) := do ok 200 (.stats (← reading CoinState.stats))

def giniHistory : Handler F (Reply F) := do ok 200 (.giniPoints (← reading fun node => node.storage.giniHistory))

def supplyHistory : Handler F (Reply F) := do
  ok 200 (.supplyPoints (← reading fun node => node.storage.supplyHistory))

def adminParameters : Handler F (Reply F) :=
  operatorAuth C request "GET" "/admin/parameters" true fun _ _ => do
    ok 200 (.parameters (← reading CoinState.parameters))

def updateParameters : Handler F (Reply F) :=
  parsed (decode.parameters request.body) fun parameters =>
    operatorAuth C request "PUT" "/admin/parameters" true fun _ _ => do
      Async.updateParameters parameters
      ok 200 (.parameters (← reading CoinState.parameters))

def simulationStop : Handler F (Reply F) :=
  operatorAuth C request "POST" "/admin/simulation/stop" true fun _ _ => do
    ok 200 (.simulation (← setStatus (setSimulationRunning false "stopped")))

def simulationStatus : Handler F (Reply F) := do ok 200 (.simulation (← Async.simulationStatus))

def adminSnapshot : Handler F (Reply F) :=
  operatorAuth C request "POST" "/admin/snapshot" true fun _ _ => do
    ok 201 (.snapshot (← Async.createManualSnapshot))

def adminOperatorPlaceholder : Handler F (Reply F) :=
  operatorAuth C request "POST" "/admin/operator" true fun _ _ =>
    error 501 "OPERATOR_CHANGE_DISABLED" "operator changes are disabled in v1.0 single-operator prototype"

/-- The limiter stands before the signature check. -/
def createWallet : Handler F (Reply F) :=
  parsed (decode.walletCreate request.body) fun body => do
    match ← Async.checkWalletRateLimit request.ip with
    | .error e => stateError e
    | .ok _ =>
      operatorAuth C request "POST" "/api/v1/wallet" false fun operator sig => do
        conclude (← Async.createWallet C body operator sig) fun response => ok 201 (.walletCreated response)

def charge : Handler F (Reply F) :=
  parsed (decode.charge request.body) fun body =>
    operatorAuth C request "POST" "/api/v1/charge" false fun operator sig => do
      conclude (← Async.charge C body operator sig) fun response => ok 202 (.txAccepted response)

def transfer : Handler F (Reply F) :=
  parsed (decode.transfer request.body) fun body => do
    match ← Async.checkTransferRateLimit body.fromId with
    | .error e => stateError e
    | .ok _ => conclude (← Async.transfer C body) fun response => ok 202 (.txAccepted response)

def burn : Handler F (Reply F) :=
  parsed (decode.burn request.body) fun body => do
    conclude (← Async.burn C body) fun response => ok 202 (.txAccepted response)

/-- An empty body asks for one iteration, and so does a zero. -/
def simulationStart : Handler F (Reply F) :=
  parsed (if request.body.isEmpty then .ok 1 else decode.simulationStart request.body) fun iterations =>
    operatorAuth C request "POST" "/admin/simulation/start" true fun _ _ => do
      conclude (← Async.runSimulationIterations C (max iterations 1)) fun status => ok 202 (.simulation status)

/-- The router. -/
def router : Handler F (Reply F) :=
  match request.route with
  | .healthz => healthz
  | .genesisOperator => genesisOperator
  | .createWallet => createWallet C decode request
  | .charge => charge C decode request
  | .transfer => transfer C decode request
  | .burn => burn C decode request
  | .getWallet id => getWallet id
  | .walletTransactions id => walletTransactions id
  | .getTransaction id => getTransaction id
  | .currentIteration => currentIteration
  | .getIteration id => getIteration id
  | .stats => stats
  | .giniHistory => giniHistory
  | .supplyHistory => supplyHistory
  | .adminParameters => adminParameters C request
  | .updateParameters => updateParameters C decode request
  | .simulationStart => simulationStart C decode request
  | .simulationStop => simulationStop C request
  | .simulationStatus => simulationStatus
  | .adminSnapshot => adminSnapshot C request
  | .adminOperator => adminOperatorPlaceholder C request

end Rest

end AggoraCoin
