import AggoraCoin.Iteration.Result
import AggoraCoin.Plans

namespace AggoraCoin

variable {F : Type}

namespace CoinState

variable (C : Crypto) (wallets : List (Wallet F)) (system : SystemState F) (tx : Transaction F)

def post (now : Timestamp) (state : CoinState F) : Except StateError Unit × CoinState F :=
  ((state.writeAll (wallets.map .wallet)).withSystem system).appendTxLocked C tx now

/-- The writes of a posting, in program order. -/
def postingWrites (entry : PohEntry) : List (Write F) :=
  wallets.map .wallet ++ (transactionWrites tx (system.currentTick + 1) ++ [.pohEntry entry])

/-- The system state once `entry` is anchored. -/
def anchoredSystem (entry : PohEntry) : SystemState F :=
  { system with currentTick := system.currentTick + 1, lastPohHash := entry.hash }

def posted (entry : PohEntry) (state : CoinState F) : CoinState F :=
  (state.withSystem (anchoredSystem system entry)).writeAll (postingWrites wallets system tx entry)

/-- What is left behind when the entry cannot be signed: the wallets are written and the tick
is bumped, but there is no transaction. -/
def stranded (state : CoinState F) : CoinState F :=
  (state.withSystem { system with currentTick := system.currentTick + 1 }).writeAll (wallets.map .wallet)

variable {C wallets system tx} {state : CoinState F} {entry : PohEntry}

theorem writeAll_append (ws vs : List (Write F)) :
    (state.writeAll ws).writeAll vs = state.writeAll (ws ++ vs) := by
  simp only [writeAll, Storage.writeAll, List.append_assoc]

variable (wallets system) in
theorem post_ok {bytes : Bytes} {now : Timestamp} (formed : Crypto.WellFormedSecret state.operatorSecret)
    (named : tx.txId = C.blake3Hex bytes) :
    ∃ entry, C.Anchors system.lastPohHash (system.currentTick + 1) bytes state.validatorId entry ∧
      state.post C wallets system tx now = (.ok (), state.posted wallets system tx entry) := by
  obtain ⟨entry, built, anchored⟩ : ∃ entry,
      C.buildEntry (system.currentTick + 1) system.lastPohHash [tx.txId] state.validatorId state.operatorSecret now =
        .ok entry ∧ C.Anchors system.lastPohHash (system.currentTick + 1) bytes state.validatorId entry :=
    named ▸ C.buildEntry_single formed
  refine ⟨entry, anchored, ?_⟩
  simp only [post, appendTxLocked, writeAll, withSystem, built, Storage.writeAll, posted,
    anchoredSystem, postingWrites, List.append_assoc]

variable (wallets system) in
theorem post_error {bytes : Bytes} {now : Timestamp} (malformed : ¬ Crypto.WellFormedSecret state.operatorSecret)
    (named : tx.txId = C.blake3Hex bytes) :
    ∃ e, state.post C wallets system tx now = (.error (.internal e), state.stranded wallets system) := by
  obtain ⟨e, failed⟩ : ∃ e, C.buildEntry (system.currentTick + 1) system.lastPohHash [tx.txId] state.validatorId
      state.operatorSecret now = .error e := named ▸ C.buildEntry_single_error malformed
  refine ⟨e, ?_⟩
  simp only [post, appendTxLocked, writeAll, withSystem, failed, Storage.writeAll, stranded]

theorem trees_posted : (state.posted wallets system tx entry).trees =
    { state.trees with
      wallets := state.trees.wallets.putAll wallets
      transactions := state.trees.transactions.put tx
      txByWallet := state.trees.txByWallet.putAll (indexEntries tx (system.currentTick + 1))
      pohLog := state.trees.pohLog.put entry } := by
  simp only [posted, postingWrites, trees_writeAll, trees_withSystem, Trees.applyAll_append,
    Trees.applyAll_wallets, Trees.applyAll_transactionWrites]
  rfl

theorem trees_stranded : (state.stranded wallets system).trees =
    { state.trees with wallets := state.trees.wallets.putAll wallets } := by
  simp only [stranded, trees_writeAll, trees_withSystem, Trees.applyAll_wallets]

@[simp] theorem posted_wallets :
    (state.posted wallets system tx entry).trees.wallets = state.trees.wallets.putAll wallets := by
  rw [trees_posted]

@[simp] theorem posted_transactions :
    (state.posted wallets system tx entry).trees.transactions = state.trees.transactions.put tx := by
  rw [trees_posted]

@[simp] theorem posted_pohLog :
    (state.posted wallets system tx entry).trees.pohLog = state.trees.pohLog.put entry := by
  rw [trees_posted]

@[simp] theorem posted_system : (state.posted wallets system tx entry).system = anchoredSystem system entry := rfl

@[simp] theorem stranded_wallets :
    (state.stranded wallets system).trees.wallets = state.trees.wallets.putAll wallets := by
  rw [trees_stranded]

@[simp] theorem stranded_system :
    (state.stranded wallets system).system = { system with currentTick := system.currentTick + 1 } := rfl

end CoinState

namespace SystemState

/-- A new wallet with its first balance. -/
def mint (amount : MicroAgc) (system : SystemState F) : SystemState F :=
  { system with
    totalSupply := Unsigned.saturatingAdd 64 system.totalSupply amount
    nWallets := system.nWallets + 1
    nActiveWallets := system.nActiveWallets + 1 }

def credit (amount : MicroAgc) (system : SystemState F) : SystemState F :=
  { system with totalSupply := Unsigned.saturatingAdd 64 system.totalSupply amount }

def debit (amount : MicroAgc) (system : SystemState F) : SystemState F :=
  { system with totalSupply := Unsigned.saturatingSub system.totalSupply amount }

def activate (count : Nat) (system : SystemState F) : SystemState F :=
  { system with nActiveWallets := system.nActiveWallets + count }

end SystemState

section Operations

variable (C : Crypto)

/-- How a call ends once its plan has passed: accepted, or stranded by a secret that cannot sign. -/
inductive Posts {α : Type} (state : CoinState F) (wallets : List (Wallet F)) (system : SystemState F)
    (tx : Transaction F) (bytes : Bytes) (after : SystemState F → SystemState F) (reply : α) :
    Outcome α × CoinState F → Prop
  | accepted {entry : PohEntry} (formed : Crypto.WellFormedSecret state.operatorSecret)
      (anchored : C.Anchors system.lastPohHash (system.currentTick + 1) bytes state.validatorId entry) :
      Posts state wallets system tx bytes after reply
        (.ok reply, ((state.posted wallets system tx entry).withSystem
          (after (CoinState.anchoredSystem system entry))).storeState)
  | stranded {e : String} (malformed : ¬ Crypto.WellFormedSecret state.operatorSecret) :
      Posts state wallets system tx bytes after reply (.err (.internal e), state.stranded wallets system)

variable {C} {state : CoinState F}

theorem posts {α : Type} {wallets : List (Wallet F)} {system : SystemState F} {tx : Transaction F} {bytes : Bytes}
    {after : SystemState F → SystemState F} {reply : α} {now : Timestamp} (named : tx.txId = C.blake3Hex bytes) :
    Posts C state wallets system tx bytes after reply
      (match state.post C wallets system tx now with
        | (.error e, state) => (.err e, state)
        | (.ok _, state) => (.ok reply, (state.withSystem (after state.system)).storeState)) := by
  by_cases formed : Crypto.WellFormedSecret state.operatorSecret
  · obtain ⟨entry, anchored, ran⟩ := CoinState.post_ok wallets system formed named
    rw [ran]
    exact .accepted formed anchored
  · obtain ⟨e, ran⟩ := CoinState.post_error wallets system formed named
    rw [ran]
    exact .stranded formed

theorem insertMinted_eq (plan : MintPlan F) (now : Timestamp) :
    insertMinted C plan now state =
      state.post C [plan.wallet] (state.system.mint plan.wallet.balance) (.mint plan.tx) now := rfl

variable [F64 F]

variable (C state) in
theorem createWallet_cases (parameters : SystemParameters F) (request : WalletCreateRequest) (operator : Operator)
    (operatorSig : String) (now : Timestamp) :
    (∃ e, planCreateWallet C parameters request operator operatorSig state = .error e ∧
      createWallet C parameters request operator operatorSig now state = (.err e, state)) ∨
    ∃ plan reply, planCreateWallet C parameters request operator operatorSig state = .ok plan ∧
      plan.Valid C operator.id state ∧
      Posts C state [plan.wallet] (state.system.mint plan.wallet.balance) (.mint plan.tx)
        ((Payload.mint plan.payload : Payload F).bytes C) (SystemState.activate 0) reply
        (createWallet C parameters request operator operatorSig now state) := by
  unfold createWallet
  cases planned : planCreateWallet C parameters request operator operatorSig state with
  | error e => exact Or.inl ⟨e, rfl, rfl⟩
  | ok plan =>
    have valid := (planCreateWallet_ok planned).2.1
    exact Or.inr ⟨plan, _, rfl, valid, posts valid.tx_txId⟩

variable (C state) in
theorem chargeLocked_cases (request : ChargeRequest) (operator : Operator) (operatorSig : String) (now : Timestamp) :
    (∃ e, planCharge C request operator operatorSig state = .error e ∧
      chargeLocked C request operator operatorSig now state = (.err e, state)) ∨
    ∃ plan wallet reply, planCharge C request operator operatorSig state = .ok plan ∧
      plan.Valid C request state wallet ∧
      Posts C state [plan.wallet] (state.system.credit request.amount) (.mint plan.tx)
        ((Payload.mint plan.payload : Payload F).bytes C) (SystemState.activate 0) reply
        (chargeLocked C request operator operatorSig now state) := by
  unfold chargeLocked
  cases planned : planCharge C request operator operatorSig state with
  | error e => exact Or.inl ⟨e, rfl, rfl⟩
  | ok plan =>
    obtain ⟨_, wallet, valid⟩ := planCharge_ok planned
    exact Or.inr ⟨plan, wallet, _, rfl, valid, posts valid.tx_txId⟩

variable (C state) in
theorem transfer_cases (parameters : SystemParameters F) (request : TransferRequest) (now : Timestamp) :
    (∃ e, planTransfer C parameters.security request state = .error e ∧
      transfer C parameters request now state = (.err e, state)) ∨
    ∃ plan key fromWallet toWallet reply, planTransfer C parameters.security request state = .ok plan ∧
      plan.Valid C parameters.security request state key fromWallet toWallet ∧
      Posts C state [plan.fromWallet, plan.toWallet] state.system (.transfer plan.tx)
        ((Payload.transfer (request.payload (Hex.encode key.val)) : Payload F).bytes C)
        (SystemState.activate plan.newlyActive) reply (transfer C parameters request now state) := by
  unfold transfer
  cases planned : planTransfer C parameters.security request state with
  | error e => exact Or.inl ⟨e, rfl, rfl⟩
  | ok plan =>
    obtain ⟨_, key, fromWallet, toWallet, valid⟩ := planTransfer_ok planned
    have pair : (state.putWallet plan.fromWallet).putWallet plan.toWallet =
        state.writeAll ([plan.fromWallet, plan.toWallet].map .wallet) := CoinState.writeAll_append _ _
    have named : (Transaction.transfer plan.tx : Transaction F).txId =
        C.blake3Hex ((Payload.transfer (request.payload (Hex.encode key.val)) : Payload F).bytes C) := by
      rw [valid.tx_eq]
      rfl
    simp only [pair]
    exact Or.inr ⟨plan, key, fromWallet, toWallet, _, rfl, valid, posts named⟩

variable (C state) in
theorem burn_cases (parameters : SystemParameters F) (request : BurnRequest) (now : Timestamp) :
    (∃ e, planBurn C parameters.security request state = .error e ∧
      burn C parameters request now state = (.err e, state)) ∨
    ∃ plan key wallet reply, planBurn C parameters.security request state = .ok plan ∧
      plan.Valid C parameters.security request state key wallet ∧
      Posts C state [plan.wallet] (state.system.debit request.amount) (.burn plan.tx)
        ((Payload.burn (request.payload (Hex.encode key.val)) : Payload F).bytes C)
        (SystemState.activate plan.newlyActive) reply (burn C parameters request now state) := by
  unfold burn
  cases planned : planBurn C parameters.security request state with
  | error e => exact Or.inl ⟨e, rfl, rfl⟩
  | ok plan =>
    obtain ⟨_, key, wallet, valid⟩ := planBurn_ok planned
    have named : (Transaction.burn plan.tx : Transaction F).txId =
        C.blake3Hex ((Payload.burn (request.payload (Hex.encode key.val)) : Payload F).bytes C) := by
      rw [valid.tx_eq]
      rfl
    exact Or.inr ⟨plan, key, wallet, _, rfl, valid, posts named⟩

end Operations

end AggoraCoin
