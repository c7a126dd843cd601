import AggoraCoin.Calls

namespace AggoraCoin

variable {F : Type} [F64 F]

/-- A posting of one of the four operations or of one seed entry, with its balances exact. -/
inductive Posting (C : Crypto) (state : CoinState F) :
    List (Wallet F) → SystemState F → Transaction F → Payload F → Prop
  | create {operatorId : OperatorId} {plan : MintPlan F} (valid : plan.Valid C operatorId state) :
      Posting C state [plan.wallet] (state.system.mint plan.wallet.balance) (.mint plan.tx) (.mint plan.payload)
  | charge {request : ChargeRequest} {wallet : Wallet F} {plan : ChargePlan F}
      (valid : plan.Valid C request state wallet) (fits : wallet.balance + request.amount ≤ u64Max) :
      Posting C state [plan.wallet] (state.system.credit request.amount) (.mint plan.tx) (.mint plan.payload)
  | transfer {security : SecurityParameters} {request : TransferRequest} {key : FixedBytes 32}
      {fromWallet toWallet : Wallet F} {plan : TransferPlan F}
      (valid : plan.Valid C security request state key fromWallet toWallet)
      (fits : toWallet.balance + request.amount ≤ u64Max) :
      Posting C state [plan.fromWallet, plan.toWallet] state.system (.transfer plan.tx)
        (.transfer (request.payload (Hex.encode key.val)))
  | burn {security : SecurityParameters} {request : BurnRequest} {key : FixedBytes 32} {wallet : Wallet F}
      {plan : BurnPlan F} (valid : plan.Valid C security request state key wallet) :
      Posting C state [plan.wallet] (state.system.debit request.amount) (.burn plan.tx)
        (.burn (request.payload (Hex.encode key.val)))

/-- The posting of an iteration commit. -/
inductive CommitPosting (C : Crypto) (state : CoinState F) :
    List (Wallet F) → SystemState F → Transaction F → Payload F → Prop
  | commit {parameters : SystemParameters F} {beta : F} {result : IterationResult F}
      (valid : result.Valid C parameters state.system state.operatorId state.listWallets beta)
      (fits : SettlementFits parameters beta state.listWallets) :
      CommitPosting C state result.wallets (commitSystem state.system result) (.iterationCommit result.commit)
        (.commit result.commit)

/-- Either kind. -/
inductive LedgerPosting (C : Crypto) (state : CoinState F) (wallets : List (Wallet F)) (system : SystemState F)
    (tx : Transaction F) (payload : Payload F) : Prop
  | operation (posting : Posting C state wallets system tx payload)
  | commit (posting : CommitPosting C state wallets system tx payload)

theorem Posting.named {C : Crypto} {state : CoinState F} {wallets : List (Wallet F)} {system : SystemState F}
    {tx : Transaction F} {payload : Payload F} (posting : Posting C state wallets system tx payload) :
    tx.txId = C.blake3Hex (payload.bytes C) := by
  cases posting with
  | create valid => exact valid.tx_txId
  | charge valid => exact valid.tx_txId
  | transfer valid => exact congrArg TransferTx.txId valid.tx_eq
  | burn valid => exact congrArg BurnTx.txId valid.tx_eq

theorem LedgerPosting.named {C : Crypto} {state : CoinState F} {wallets : List (Wallet F)} {system : SystemState F}
    {tx : Transaction F} {payload : Payload F} (posting : LedgerPosting C state wallets system tx payload) :
    tx.txId = C.blake3Hex (payload.bytes C) := by
  cases posting with
  | operation posting => exact posting.named
  | commit posting =>
    cases posting with
    | commit valid => exact valid.txId_eq

/-- A posting goes on the end of the log it found. -/
theorem LedgerPosting.tick {C : Crypto} {state : CoinState F} {wallets : List (Wallet F)} {system : SystemState F}
    {tx : Transaction F} {payload : Payload F} (posting : LedgerPosting C state wallets system tx payload) :
    system.currentTick = state.system.currentTick ∧ system.lastPohHash = state.system.lastPohHash := by
  cases posting with
  | operation posting => cases posting <;> exact ⟨rfl, rfl⟩
  | commit posting =>
    cases posting with
    | commit valid => exact ⟨rfl, rfl⟩

/-- Bookkeeping: the ledger, the chain tip and the node's keys stay as they were. -/
structure Keeps (state state' : CoinState F) : Prop where
  ledger : state.trees.SameLedger state'.trees
  operatorSecret_eq : state'.operatorSecret = state.operatorSecret
  operatorId_eq : state'.operatorId = state.operatorId
  validatorId_eq : state'.validatorId = state.validatorId
  currentTick_eq : state'.system.currentTick = state.system.currentTick
  lastPohHash_eq : state'.system.lastPohHash = state.system.lastPohHash
  totalSupply_eq : state'.system.totalSupply = state.system.totalSupply
  nWallets_eq : state'.system.nWallets = state.system.nWallets

/-- One move. `kind` says which postings may occur and `hashed` holds the payloads hashed. -/
inductive Move (C : Crypto)
    (kind : CoinState F → List (Wallet F) → SystemState F → Transaction F → Payload F → Prop)
    (hashed : Set (Payload F)) : CoinState F → CoinState F → Prop
  | post {state : CoinState F} {wallets : List (Wallet F)} {system : SystemState F} {tx : Transaction F}
      {payload : Payload F} {entry : PohEntry} (posting : kind state wallets system tx payload)
      (listed : payload ∈ hashed) (within : (state.trees.wallets.putAll wallets).total Wallet.balance ≤ u64Max)
      (formed : Crypto.WellFormedSecret state.operatorSecret)
      (anchored : C.Anchors system.lastPohHash (system.currentTick + 1) (payload.bytes C) state.validatorId entry) :
      Move C kind hashed state (state.posted wallets system tx entry)
  | strand {state : CoinState F} {wallets : List (Wallet F)} {system : SystemState F} {tx : Transaction F}
      {payload : Payload F} (posting : kind state wallets system tx payload)
      (within : (state.trees.wallets.putAll wallets).total Wallet.balance ≤ u64Max)
      (malformed : ¬ Crypto.WellFormedSecret state.operatorSecret) :
      Move C kind hashed state (state.stranded wallets system)
  | keep {state state' : CoinState F} (keeps : Keeps state state') : Move C kind hashed state state'

abbrev Moves (C : Crypto)
    (kind : CoinState F → List (Wallet F) → SystemState F → Transaction F → Payload F → Prop)
    (hashed : Set (Payload F)) : CoinState F → CoinState F → Prop :=
  Relation.ReflTransGen (Move C kind hashed)

namespace Moves

variable {C : Crypto} {kind kind' : CoinState F → List (Wallet F) → SystemState F → Transaction F → Payload F → Prop}
  {hashed hashed' : Set (Payload F)} {state state' : CoinState F}

theorem mono (moves : Moves C kind hashed state state')
    (more : ∀ state wallets system tx payload, kind state wallets system tx payload →
      kind' state wallets system tx payload) (larger : hashed ⊆ hashed') :
    Moves C kind' hashed' state state' := by
  refine Relation.ReflTransGen.mono (fun before after move => ?_) _ _ moves
  cases move with
  | post posting listed within formed anchored =>
    exact .post (more _ _ _ _ _ posting) (larger listed) within formed anchored
  | strand posting within malformed => exact .strand (more _ _ _ _ _ posting) within malformed
  | keep keeps => exact .keep keeps

/-- What every move preserves, a chain of moves preserves. -/
theorem invariant (inv : CoinState F → Prop) (moves : Moves C kind hashed state state') (initial : inv state)
    (preserved : ∀ before after, Move C kind hashed before after → inv before → inv after) : inv state' := by
  induction moves with
  | refl => exact initial
  | tail _ move ih => exact preserved _ _ move ih

/-- The stored supply stays within a `u64`. -/
theorem storedSupply_le (moves : Moves C kind hashed state state') (initial : state.storedSupply ≤ u64Max) :
    state'.storedSupply ≤ u64Max := by
  refine moves.invariant (fun s => s.storedSupply ≤ u64Max) initial fun before after move bound => ?_
  cases move with
  | post _ _ within _ _ => simpa [CoinState.storedSupply] using within
  | strand _ within _ => simpa [CoinState.storedSupply] using within
  | keep keeps => rwa [CoinState.storedSupply, keeps.ledger.wallets_eq]

theorem operatorSecret_eq (moves : Moves C kind hashed state state') :
    state'.operatorSecret = state.operatorSecret := by
  refine moves.invariant (fun s => s.operatorSecret = state.operatorSecret) rfl fun before after move same => ?_
  cases move with
  | post => exact same
  | strand => exact same
  | keep keeps => exact keeps.operatorSecret_eq.trans same

end Moves

end AggoraCoin
