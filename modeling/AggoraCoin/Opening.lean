import AggoraCoin.CallSupply
import AggoraCoin.Concrete
import AggoraCoin.History

namespace AggoraCoin

variable {F : Type} [F64 F]

/-- The system state a node starts with, read from the record in the store. -/
def recoveredSystem (stored : Option (SystemState F)) : SystemState F :=
  let system := (stored.map SystemState.reread).getD .default
  if system.lastPohHash.isEmpty then { system with lastPohHash := zeroHashHex } else system

theorem recoveredSystem_of_named {system : SystemState F} (named : system.lastPohHash.isEmpty = false) :
    recoveredSystem (some system) = system.reread := by
  simp [recoveredSystem, SystemState.reread, named]

theorem recoveredSystem_named (stored : Option (SystemState F)) :
    (recoveredSystem stored).lastPohHash.isEmpty = false := by
  have full : zeroHashHex.isEmpty = false := by decide
  unfold recoveredSystem
  dsimp only
  split
  · exact full
  · rename_i named
    exact Bool.eq_false_iff.mpr named

@[simp] theorem recoveredSystem_totalSupply (stored : Option (SystemState F)) :
    (recoveredSystem stored).totalSupply = (stored.getD .default).totalSupply := by
  cases stored <;> (unfold recoveredSystem; dsimp only; split <;> rfl)

@[simp] theorem recoveredSystem_nWallets (stored : Option (SystemState F)) :
    (recoveredSystem stored).nWallets = (stored.getD .default).nWallets := by
  cases stored <;> (unfold recoveredSystem; dsimp only; split <;> rfl)

@[simp] theorem recoveredSystem_currentTick (stored : Option (SystemState F)) :
    (recoveredSystem stored).currentTick = (stored.getD .default).currentTick := by
  cases stored <;> (unfold recoveredSystem; dsimp only; split <;> rfl)

@[simp] theorem recoveredSystem_iterationLock (stored : Option (SystemState F)) :
    (recoveredSystem stored).iterationLock = (stored.getD .default).iterationLock := by
  cases stored <;> (unfold recoveredSystem; dsimp only; split <;> rfl)

structure Opened (C : Crypto) (config : NodeConfig F) (storage : Storage F) (state : CoinState F) : Prop where
  ledger : storage.trees.SameLedger state.trees
  system_eq : state.system = recoveredSystem storage.trees.state
  stored_eq : state.trees.state = some state.system
  operatorId_eq : C.walletIdFromPublicKey state.operatorPublicKey = .ok state.operatorId
  validatorId_eq : state.validatorId = state.operatorId
  secret_eq : ∀ secret, config.operatorSecret = some secret → state.operatorSecret = some secret
  seen_eq : state.seenOperatorSigs = fun _ => none

theorem openCoinState_opened {C : Crypto} {env : String → Option String} {config : NodeConfig F}
    {storage : Storage F} {state : CoinState F} (opened : (openCoinState C env config storage).1 = .ok state) :
    Opened C config storage state := by
  unfold openCoinState at opened
  dsimp only at opened
  split at opened
  · cases opened
  split at opened
  · cases opened
  split at opened
  · cases opened
  rename_i operatorId named
  cases opened
  have aside (parameters : SystemParameters F) :
      (storage.writeAll [.parameters parameters]).trees.state = storage.trees.state := by
    rw [Storage.trees_writeAll]
    rfl
  constructor
  case ledger =>
    rw [CoinState.trees, Storage.trees_writeAll, Storage.trees_writeAll]
    exact (Trees.sameLedger_applyAll (by simp [Write.aside]) _).trans
      (Trees.sameLedger_applyAll (by simp [Write.aside]) _)
  case system_eq => simp only [recoveredSystem, Storage.loadState, aside]
  case stored_eq =>
    rw [CoinState.trees, Storage.trees_writeAll]
    rfl
  case operatorId_eq => exact named
  case validatorId_eq => rfl
  case secret_eq =>
    intro secret configured
    simp [configured]
  case seen_eq => rfl

/-- A configured secret that decodes, without a configured key, opens any database. -/
theorem openCoinState_of_secret (C : Crypto) (env : String → Option String) {config : NodeConfig F} (storage : Storage F)
    {secret : String} {key : FixedBytes 32} (configured : config.operatorSecret = some secret)
    (read : fixed32 secret = .ok key) (keyless : config.operatorPublicKey = none) (unset : ∀ name, env name = none) :
    ∃ state, (openCoinState C env config storage).1 = .ok state ∧
      state.operatorPublicKey = Hex.encode (C.verifyingKey key).val := by
  have derived : C.publicKeyFromSecretHex secret = .ok (Hex.encode (C.verifyingKey key).val) := by
    simp only [Crypto.publicKeyFromSecretHex, read]
  have publicRead : fixed32 (Hex.encode (C.verifyingKey key).val) = .ok (C.verifyingKey key) :=
    fixedBytes_encode _ (by decide)
  have hex : normalizeBytesToHex (Hex.encode (C.verifyingKey key).val) 32 = .ok (Hex.encode (C.verifyingKey key).val) :=
    normalizeBytesToHex_eq_ok_iff.mpr ⟨_, publicRead, rfl⟩
  have named : C.walletIdFromPublicKey (Hex.encode (C.verifyingKey key).val) =
      .ok (C.blake3Hex (C.verifyingKey key).val) := C.walletIdFromPublicKey_eq_ok_iff.mpr ⟨_, publicRead, rfl⟩
  simp [openCoinState, configured, keyless, unset, derived, Except.toOption, hex, named]

/-- Opening adds nothing to the past. -/
theorem openCoinState_past {C : Crypto} {env : String → Option String} {config : NodeConfig F}
    {storage : Storage F} {state : CoinState F} (opened : (openCoinState C env config storage).1 = .ok state) :
    state.history = storage.journal.filterMap Write.archived ∧ state.log = storage.journal.filterMap Write.logged ∧
      state.indexed = storage.journal.filterMap Write.indexing := by
  unfold openCoinState at opened
  dsimp only at opened
  split at opened
  · cases opened
  split at opened
  · cases opened
  split at opened
  · cases opened
  cases opened
  simp [CoinState.history, CoinState.log, CoinState.indexed, Storage.writeAll, Write.archived, Write.logged,
    Write.indexing]

/-- The empty database opens on an empty ledger under the default system state. -/
structure OpenedEmpty (C : Crypto) (config : NodeConfig F) (state : CoinState F) : Prop
    extends Opened C config .empty state where
  wallets_eq : state.trees.wallets = .empty
  transactions_eq : state.trees.transactions = .empty
  pohLog_eq : state.trees.pohLog = .empty
  default_eq : state.system = .default

theorem openCoinState_empty {C : Crypto} {env : String → Option String} {config : NodeConfig F}
    {state : CoinState F} (opened : (openCoinState C env config .empty).1 = .ok state) :
    OpenedEmpty C config state := by
  have start := openCoinState_opened opened
  refine ⟨start, start.ledger.wallets_eq, start.ledger.transactions_eq, start.ledger.pohLog_eq, ?_⟩
  have full : zeroHashHex.isEmpty = false := by decide
  have tip : (SystemState.default : SystemState F).lastPohHash = zeroHashHex := rfl
  have fresh : recoveredSystem (none : Option (SystemState F)) = .default := by
    simp [recoveredSystem, tip, full]
  exact start.system_eq.trans fresh

section Empty

variable {C : Crypto} {config : NodeConfig F} {start : CoinState F}

theorem OpenedEmpty.storedSupply (opened : OpenedEmpty C config start) : start.storedSupply = 0 := by
  rw [CoinState.storedSupply, opened.wallets_eq]
  rfl

theorem OpenedEmpty.listWallets (opened : OpenedEmpty C config start) : start.listWallets = [] := by
  rw [CoinState.listWallets, opened.wallets_eq]
  rfl

theorem openCoinState_empty_past {env : String → Option String}
    (opened : (openCoinState C env config .empty).1 = .ok start) :
    start.history = [] ∧ start.log = [] ∧ start.indexed = [] := openCoinState_past opened

theorem OpenedEmpty.getWallet (opened : OpenedEmpty C config start) (id : WalletId) : start.getWallet id = none := by
  rw [CoinState.getWallet, opened.wallets_eq]
  rfl

/-- The record `create_wallet` makes for a key in a new database. -/
def firstWallet (C : Crypto) (parameters : SystemParameters F) (operator : Operator) (key : FixedBytes 32) :
    Wallet F :=
  .fresh (C.blake3Hex key.val) (Hex.encode key.val) (microSeed parameters) 1 0 operator.id

/-- What is hashed for it. -/
def firstPayload (C : Crypto) (parameters : SystemParameters F) (request : WalletCreateRequest) (operator : Operator)
    (key : FixedBytes 32) : MintPayload where
  toId := C.blake3Hex key.val
  amount := microSeed parameters
  eurAmount := 0
  operatorId := operator.id
  nonce := 1
  timestamp := request.timestamp
  category := "wallet_seed"

/-- A new node plans a wallet for any 32-byte key. -/
theorem OpenedEmpty.planCreateWallet (opened : OpenedEmpty C config start) (parameters : SystemParameters F)
    {request : WalletCreateRequest} {key : FixedBytes 32} (read : fixed32 request.publicKey = .ok key)
    (captcha : (trim request.captchaToken).isEmpty = false) (operator : Operator) (operatorSig : String) :
    ∃ plan, AggoraCoin.planCreateWallet C parameters request operator operatorSig start = .ok plan ∧
      plan.wallet = firstWallet C parameters operator key ∧
      plan.payload = firstPayload C parameters request operator key := by
  have unlocked : start.system.iterationLock = false := by
    rw [opened.default_eq]
    rfl
  obtain ⟨plan, planned, recorded, hashed⟩ :=
    planCreateWallet_of_checks parameters read captcha unlocked (opened.getWallet _) operator operatorSig
  rw [opened.default_eq] at recorded hashed
  exact ⟨plan, planned, recorded, hashed⟩

omit [F64 F] in
/-- A mint that is booked leaves the lock and the keys alone. -/
theorem CoinState.iterationLock_minted (state : CoinState F) (wallets : List (Wallet F)) (amount : MicroAgc)
    (tx : Transaction F) (entry : PohEntry) :
    (state.posted wallets (state.system.mint amount) tx entry).storeState.system.iterationLock =
      state.system.iterationLock := rfl

omit [F64 F] in
theorem CoinState.operatorSecret_minted (state : CoinState F) (wallets : List (Wallet F)) (amount : MicroAgc)
    (tx : Transaction F) (entry : PohEntry) :
    (state.posted wallets (state.system.mint amount) tx entry).storeState.operatorSecret = state.operatorSecret := rfl

/-- A node that can sign opens the wallet it has planned. -/
theorem createWallet_of_planned {state : CoinState F} {parameters : SystemParameters F} {request : WalletCreateRequest}
    {operator : Operator} {operatorSig : String} {plan : MintPlan F}
    (planned : AggoraCoin.planCreateWallet C parameters request operator operatorSig state = .ok plan)
    (formed : Crypto.WellFormedSecret state.operatorSecret) (now : Timestamp) :
    ∃ reply entry, createWallet C parameters request operator operatorSig now state =
      (.ok reply, (state.posted [plan.wallet] (state.system.mint plan.wallet.balance) (.mint plan.tx)
        entry).storeState) := by
  rcases createWallet_cases C state parameters request operator operatorSig now with
    ⟨e, failed, _⟩ | ⟨plan', reply, again, _, posts⟩
  · cases planned.symm.trans failed
  · cases Except.ok.inj (planned.symm.trans again)
    generalize AggoraCoin.createWallet C parameters request operator operatorSig now state = ran at *
    cases posts with
    | @accepted entry _ anchored => exact ⟨reply, entry, rfl⟩
    | stranded malformed => exact absurd formed malformed

/-- A new node accepts any 32-byte key. -/
theorem OpenedEmpty.createWallet (opened : OpenedEmpty C config start)
    (formed : Crypto.WellFormedSecret start.operatorSecret) (parameters : SystemParameters F)
    {request : WalletCreateRequest} {key : FixedBytes 32} (read : fixed32 request.publicKey = .ok key)
    (captcha : (trim request.captchaToken).isEmpty = false) (operator : Operator) (operatorSig : String)
    (now : Timestamp) :
    ∃ reply tx entry, createWallet C parameters request operator operatorSig now start =
      (.ok reply, (start.posted [firstWallet C parameters operator key]
        (start.system.mint (microSeed parameters)) tx entry).storeState) := by
  obtain ⟨plan, planned, recorded, -⟩ := opened.planCreateWallet parameters read captcha operator operatorSig
  obtain ⟨reply, entry, ran⟩ := createWallet_of_planned planned formed now
  have amount : plan.wallet.balance = microSeed parameters := congrArg Wallet.balance recorded
  rw [amount, recorded] at ran
  exact ⟨reply, _, entry, ran⟩

theorem OpenedEmpty.next_createWallet (opened : OpenedEmpty C config start)
    (formed : Crypto.WellFormedSecret start.operatorSecret) (parameters : SystemParameters F)
    {request : WalletCreateRequest} {key : FixedBytes 32} (read : fixed32 request.publicKey = .ok key)
    (captcha : (trim request.captchaToken).isEmpty = false) (operator : Operator) (operatorSig : String)
    (now : Timestamp) :
    ∃ tx entry, (Call.createWallet parameters request operator operatorSig now).next C start =
      (start.posted [firstWallet C parameters operator key] (start.system.mint (microSeed parameters)) tx
        entry).storeState := by
  obtain ⟨reply, tx, entry, ran⟩ := opened.createWallet formed parameters read captcha operator operatorSig now
  exact ⟨tx, entry, by simp only [Call.next, Call.run, ran]⟩

theorem OpenedEmpty.wallets_createWallet (opened : OpenedEmpty C config start)
    (formed : Crypto.WellFormedSecret start.operatorSecret) (parameters : SystemParameters F)
    {request : WalletCreateRequest} {key : FixedBytes 32} (read : fixed32 request.publicKey = .ok key)
    (captcha : (trim request.captchaToken).isEmpty = false) (operator : Operator) (operatorSig : String)
    (now : Timestamp) :
    ((Call.createWallet parameters request operator operatorSig now).next C start).trees.wallets =
      KeyedTree.empty.put (firstWallet C parameters operator key) := by
  obtain ⟨tx, entry, same⟩ := opened.next_createWallet formed parameters read captcha operator operatorSig now
  rw [same, (CoinState.sameLedger_storeState _).wallets_eq, CoinState.posted_wallets, opened.wallets_eq]
  rfl

end Empty

section Accepted

variable {C : Crypto} {state : CoinState F} {parameters : SystemParameters F}

/-- A node that can sign accepts a transfer that passes its checks. -/
theorem transfer_accepted {request : TransferRequest} {plan : TransferPlan F}
    (planned : planTransfer C parameters.security request state = .ok plan)
    (formed : Crypto.WellFormedSecret state.operatorSecret) (now : Timestamp) :
    (Call.transfer parameters request now).accepted C state = true := by
  simp only [Call.accepted, Call.run]
  rcases transfer_cases C state parameters request now with ⟨e, refused, _⟩ | ⟨_, _, _, _, _, _, _, posts⟩
  · cases planned.symm.trans refused
  · generalize transfer C parameters request now state = ran at *
    cases posts with
    | accepted => rfl
    | stranded malformed => exact absurd formed malformed

theorem burn_accepted {request : BurnRequest} {plan : BurnPlan F}
    (planned : planBurn C parameters.security request state = .ok plan)
    (formed : Crypto.WellFormedSecret state.operatorSecret) (now : Timestamp) :
    (Call.burn parameters request now).accepted C state = true := by
  simp only [Call.accepted, Call.run]
  rcases burn_cases C state parameters request now with ⟨e, refused, _⟩ | ⟨_, _, _, _, _, _, posts⟩
  · cases planned.symm.trans refused
  · generalize burn C parameters request now state = ran at *
    cases posts with
    | accepted => rfl
    | stranded malformed => exact absurd formed malformed

end Accepted

namespace Concrete

theorem node_opened : OpenedEmpty crypto config node := openCoinState_empty opened_node

theorem node_formed : Crypto.WellFormedSecret node.operatorSecret := by
  rw [node_opened.secret_eq devOperatorSecret rfl]
  exact ⟨_, eq_ok_get (by decide +kernel)⟩

/-- The first call on the worked node: a wallet for `key`. -/
def firstCall (key : FixedBytes 32) : Call ℚ := .createWallet parameters (walletRequest key) operator "" 0

def firstNode (key : FixedBytes 32) : CoinState ℚ := (firstCall key).next crypto node

theorem captcha_solved : (trim "captcha").isEmpty = false := by decide +kernel

theorem walletRequest_read (key : FixedBytes 32) : fixed32 (walletRequest key).publicKey = .ok key :=
  fixedBytes_encode key (by decide)

theorem firstNode_eq (key : FixedBytes 32) : ∃ tx entry, firstNode key =
    (node.posted [firstWallet crypto parameters operator key] (node.system.mint (microSeed parameters)) tx
      entry).storeState :=
  node_opened.next_createWallet node_formed parameters (walletRequest_read key) captcha_solved operator "" 0

theorem firstNode_wallets (key : FixedBytes 32) :
    (firstNode key).trees.wallets = KeyedTree.empty.put (firstWallet crypto parameters operator key) :=
  node_opened.wallets_createWallet node_formed parameters (walletRequest_read key) captcha_solved operator "" 0

theorem firstNode_listWallets (key : FixedBytes 32) :
    (firstNode key).listWallets = [firstWallet crypto parameters operator key] := by
  rw [CoinState.listWallets, firstNode_wallets]
  rfl

theorem microSeed_parameters : microSeed parameters = 10000000 := by decide

theorem firstNode_storedSupply (key : FixedBytes 32) : (firstNode key).storedSupply = 10000000 := by
  have balance : (firstWallet crypto parameters operator key).balance = microSeed parameters := rfl
  rw [CoinState.storedSupply, firstNode_wallets, KeyedTree.total_put_fresh _ rfl, KeyedTree.total_empty, balance,
    microSeed_parameters]

/-- What the first wallet leaves of the default system state. -/
theorem firstNode_system (key : FixedBytes 32) :
    (firstNode key).system.iterationLock = false ∧ (firstNode key).system.currentIteration = 0 ∧
      (firstNode key).system.previousIterationStartSupply = 0 ∧
      (firstNode key).operatorSecret = node.operatorSecret := by
  obtain ⟨tx, entry, same⟩ := firstNode_eq key
  have default_eq := node_opened.default_eq
  have secret : (firstNode key).operatorSecret = node.operatorSecret := by rw [same, CoinState.operatorSecret_minted]
  refine ⟨?_, ?_, ?_, secret⟩ <;> rw [same] <;>
    simp only [CoinState.storeState, CoinState.system_writeAll, CoinState.posted_system, CoinState.anchoredSystem,
      SystemState.mint, default_eq, SystemState.default]

theorem firstCall_fits (key : FixedBytes 32) : (firstCall key).Fits crypto node := by
  have stored := firstNode_storedSupply key
  unfold Call.Fits firstCall Call.exactSupply
  exact stored.trans_le (by decide)

def burnJson (amount : MicroAgc) : Json :=
  (BurnPayload.mk (walletId 7) amount 0 0 (Hex.encode (key 7).val)).toJson

/-- The holder of the first key burns some of it. -/
def ownBurn (amount : MicroAgc) : BurnRequest where
  fromId := walletId 7
  amount := amount
  nonce := 0
  timestamp := 0
  senderPubkey := Hex.encode (key 7).val
  userSig := Hex.encode (mark (key 7) (crypto.blake3 (crypto.toVec (burnJson amount))).val).val

theorem ownBurn_read (amount : MicroAgc) : fixed32 (ownBurn amount).senderPubkey = .ok (key 7) :=
  fixedBytes_encode _ (by decide)

def burnCall : Call ℚ := .burn parameters (ownBurn 1) 0

theorem firstNode_stored : (firstNode (key 7)).getWallet (walletId 7) =
    some (firstWallet crypto parameters operator (key 7)) := by
  rw [CoinState.getWallet, firstNode_wallets]
  exact KeyedTree.get_put_self _ _

/-- What a key below `0x40` signs verifies. -/
theorem verify_mark {key : FixedBytes 32} (low : key.val.headD 0 < 0x40) (message : Bytes) :
    crypto.verify key message (mark key message) = true := by
  simpa [crypto] using low

/-- So does what it signs for a payload. -/
theorem verifyUserSignature_mark {key : FixedBytes 32} (low : key.val.headD 0 < 0x40) (json : Json) :
    verifyUserSignature crypto parameters.security (Hex.encode key.val) (crypto.hashSerializable json)
      (Hex.encode (mark key (crypto.blake3 (crypto.toVec json)).val).val) = .ok () := by
  have checked : parameters.security.devAuthBypass = false := rfl
  have point : crypto.validKey key = true := by simpa [crypto] using low
  exact verifyUserSignature_of_verified checked (crypto.verifyEd25519_eq_ok_true_iff.mpr
    ⟨key, _, fixedBytes_encode _ (by decide), fixedBytes_encode _ (by decide), point, verify_mark low _⟩)

theorem burnCall_signed : verifyUserSignature crypto parameters.security (ownBurn 1).senderPubkey
    (crypto.hashSerializable (burnJson 1)) (ownBurn 1).userSig = .ok () :=
  verifyUserSignature_mark (by decide) (burnJson 1)

theorem burnCall_planned :
    ∃ plan, planBurn crypto parameters.security (ownBurn 1) (firstNode (key 7)) = .ok plan := by
  have covered : ¬ (firstWallet crypto parameters operator (key 7)).balance < (ownBurn 1).amount := by
    rw [show (firstWallet crypto parameters operator (key 7)).balance = microSeed parameters from rfl,
      microSeed_parameters]
    decide
  exact planBurn_of_checks (by decide) (ownBurn_read 1) rfl burnCall_signed (firstNode_system (key 7)).1 firstNode_stored
    rfl covered

/-- The node on which that burn has been booked too. -/
def burntNode : CoinState ℚ := burnCall.next crypto (firstNode (key 7))

theorem firstNode_formed : Crypto.WellFormedSecret (firstNode (key 7)).operatorSecret :=
  (firstNode_system (key 7)).2.2.2 ▸ node_formed

theorem burnCall_accepted : burnCall.accepted crypto (firstNode (key 7)) = true := by
  obtain ⟨plan, planned⟩ := burnCall_planned
  exact burn_accepted planned firstNode_formed 0

theorem firstNode_absent : (firstNode (key 7)).getWallet (walletId 8) = none := by
  rw [CoinState.getWallet, firstNode_wallets]
  exact KeyedTree.get_put_of_ne _ (walletId_ne (by decide))

/-- A second wallet beside the first. -/
def pairNode : CoinState ℚ := (firstCall (key 8)).next crypto (firstNode (key 7))

theorem pairNode_eq : ∃ (wallet : Wallet ℚ) (tx : Transaction ℚ) (entry : PohEntry),
    wallet.id = walletId 8 ∧ wallet.balance = 10000000 ∧
      pairNode = ((firstNode (key 7)).posted [wallet] ((firstNode (key 7)).system.mint wallet.balance) tx
        entry).storeState := by
  obtain ⟨plan, planned, recorded, -⟩ := planCreateWallet_of_checks parameters (walletRequest_read (key 8))
    captcha_solved (firstNode_system (key 7)).1 firstNode_absent operator ""
  obtain ⟨reply, entry, ran⟩ := createWallet_of_planned planned firstNode_formed 0
  refine ⟨plan.wallet, .mint plan.tx, entry, congrArg Wallet.id recorded, ?_, ?_⟩
  · exact (congrArg Wallet.balance recorded).trans microSeed_parameters
  · rw [pairNode, firstCall, Call.next, Call.run, ran]

theorem pairNode_wallets : ∃ wallet : Wallet ℚ, wallet.id = walletId 8 ∧ wallet.balance = 10000000 ∧
    pairNode.trees.wallets = (firstNode (key 7)).trees.wallets.put wallet := by
  obtain ⟨wallet, tx, entry, named, balance, same⟩ := pairNode_eq
  refine ⟨wallet, named, balance, ?_⟩
  rw [same, (CoinState.sameLedger_storeState _).wallets_eq, CoinState.posted_wallets]
  rfl

theorem pairNode_unlocked : pairNode.system.iterationLock = false := by
  obtain ⟨wallet, tx, entry, -, -, same⟩ := pairNode_eq
  rw [same, CoinState.iterationLock_minted]
  exact (firstNode_system (key 7)).1

theorem pairNode_formed : Crypto.WellFormedSecret pairNode.operatorSecret := by
  obtain ⟨wallet, tx, entry, -, -, same⟩ := pairNode_eq
  rw [same, CoinState.operatorSecret_minted]
  exact firstNode_formed

def payJson : Json := (TransferPayload.mk (walletId 7) (walletId 8) 1 0 0 (Hex.encode (key 7).val)).toJson

/-- The holder of the first key pays the holder of the second. -/
def ownTransfer : TransferRequest where
  fromId := walletId 7
  toId := walletId 8
  amount := 1
  nonce := 0
  timestamp := 0
  senderPubkey := Hex.encode (key 7).val
  userSig := Hex.encode (mark (key 7) (crypto.blake3 (crypto.toVec payJson)).val).val

def transferCall : Call ℚ := .transfer parameters ownTransfer 0

def paidNode : CoinState ℚ := transferCall.next crypto pairNode

theorem transferCall_accepted : transferCall.accepted crypto pairNode = true := by
  obtain ⟨wallet, named, -, wallets⟩ := pairNode_wallets
  have payer : pairNode.getWallet (walletId 7) = some (firstWallet crypto parameters operator (key 7)) := by
    have other : wallet.id ≠ walletId 7 := named ▸ walletId_ne (by decide)
    rw [CoinState.getWallet, wallets, KeyedTree.get_put_of_ne _ other]
    exact firstNode_stored
  have payee : pairNode.getWallet (walletId 8) = some wallet := by
    rw [CoinState.getWallet, wallets, ← named]
    exact KeyedTree.get_put_self _ _
  have covered : ¬ (firstWallet crypto parameters operator (key 7)).balance < ownTransfer.amount := by
    have balance : (firstWallet crypto parameters operator (key 7)).balance = microSeed parameters := rfl
    rw [balance, microSeed_parameters]
    decide
  have signed := verifyUserSignature_mark (show (key 7).val.headD 0 < 0x40 by decide) payJson
  obtain ⟨plan, planned⟩ : ∃ plan, planTransfer crypto parameters.security ownTransfer pairNode = .ok plan :=
    planTransfer_of_checks (walletId_ne (by decide)) (by decide) (fixedBytes_encode (key 7) (by decide)) rfl signed
      pairNode_unlocked payer payee rfl covered
  exact transfer_accepted planned pairNode_formed 0

end Concrete

end AggoraCoin
