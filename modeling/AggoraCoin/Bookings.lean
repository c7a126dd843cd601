import AggoraCoin.CallSupply
import AggoraCoin.History

namespace AggoraCoin

variable {F : Type} [F64 F]

/-- A request for one entry. -/
inductive Booking (F : Type)
  | create (parameters : SystemParameters F) (request : WalletCreateRequest) (operator : Operator)
      (operatorSig : String)
  | seed (parameters : SystemParameters F) (wallet : SeedWallet) (hashed stored : Timestamp)
  | charge (request : ChargeRequest) (operator : Operator) (operatorSig : String)
  | transfer (security : SecurityParameters) (request : TransferRequest)
  | burn (security : SecurityParameters) (request : BurnRequest)
  | commit (parameters : SystemParameters F)

/-- What one entry writes, and the number of wallets it makes active after its PoH entry. -/
structure Sheet (F : Type) where
  wallets : List (Wallet F)
  system : SystemState F
  tx : Transaction F
  payload : Payload F
  activated : Nat

/-- The requests a state admits and the sheets they lead to. -/
inductive Books (C : Crypto) (state : CoinState F) : Booking F → Sheet F → Prop
  | create {parameters : SystemParameters F} {request : WalletCreateRequest} {operator : Operator}
      {operatorSig : String} {plan : MintPlan F}
      (planned : planCreateWallet C parameters request operator operatorSig state = .ok plan) :
      Books C state (.create parameters request operator operatorSig)
        ⟨[plan.wallet], state.system.mint plan.wallet.balance, .mint plan.tx, .mint plan.payload, 0⟩
  | seed {parameters : SystemParameters F} {wallet : SeedWallet} {hashed stored : Timestamp} {plan : MintPlan F}
      (planned : planSeedWallet C parameters wallet hashed stored state = .ok (some plan)) :
      Books C state (.seed parameters wallet hashed stored)
        ⟨[plan.wallet], state.system.mint plan.wallet.balance, .mint plan.tx, .mint plan.payload, 0⟩
  | charge {request : ChargeRequest} {operator : Operator} {operatorSig : String} {plan : ChargePlan F}
      (planned : planCharge C request operator operatorSig state = .ok plan) :
      Books C state (.charge request operator operatorSig)
        ⟨[plan.wallet], state.system.credit request.amount, .mint plan.tx, .mint plan.payload, 0⟩
  | transfer {security : SecurityParameters} {request : TransferRequest} {key : FixedBytes 32}
      {fromWallet toWallet : Wallet F} {plan : TransferPlan F}
      (valid : plan.Valid C security request state key fromWallet toWallet) :
      Books C state (.transfer security request)
        ⟨[plan.fromWallet, plan.toWallet], state.system, .transfer plan.tx,
          .transfer (request.payload (Hex.encode key.val)), plan.newlyActive⟩
  | burn {security : SecurityParameters} {request : BurnRequest} {key : FixedBytes 32} {wallet : Wallet F}
      {plan : BurnPlan F} (valid : plan.Valid C security request state key wallet) :
      Books C state (.burn security request)
        ⟨[plan.wallet], state.system.debit request.amount, .burn plan.tx,
          .burn (request.payload (Hex.encode key.val)), plan.newlyActive⟩
  | commit {parameters : SystemParameters F} {beta : F} {result : IterationResult F}
      (valid : result.Valid C parameters state.system state.operatorId state.listWallets beta) :
      Books C state (.commit parameters)
        ⟨result.wallets, commitSystem state.system result, .iterationCommit result.commit, .commit result.commit, 0⟩

namespace Books

variable {C : Crypto} {state : CoinState F} {booking : Booking F} {sheet : Sheet F}

/-- The id of the transaction is the hash of the payload. -/
theorem named (books : Books C state booking sheet) : sheet.tx.txId = C.blake3Hex (sheet.payload.bytes C) := by
  cases books with
  | create planned => exact (planCreateWallet_ok planned).2.1.tx_txId
  | seed planned => exact (planSeedWallet_ok planned).1.tx_txId
  | charge planned =>
    obtain ⟨_, wallet, valid⟩ := planCharge_ok planned
    exact valid.tx_txId
  | transfer valid => exact congrArg TransferTx.txId valid.tx_eq
  | burn valid => exact congrArg BurnTx.txId valid.tx_eq
  | commit valid => exact valid.txId_eq

/-- An entry goes on the end of the log it found. -/
theorem currentTick_eq (books : Books C state booking sheet) :
    sheet.system.currentTick = state.system.currentTick := by
  cases books <;> rfl

theorem lastPohHash_eq (books : Books C state booking sheet) :
    sheet.system.lastPohHash = state.system.lastPohHash := by
  cases books <;> rfl

end Books

namespace CoinState

/-- The state after one entry. -/
def enter (sheet : Sheet F) (entry : PohEntry) (state : CoinState F) : CoinState F :=
  (state.posted sheet.wallets sheet.system sheet.tx entry).withSystem
    (SystemState.activate sheet.activated (anchoredSystem sheet.system entry))

variable {sheet : Sheet F} {entry : PohEntry} {state : CoinState F}

omit [F64 F] in
@[simp] theorem enter_wallets : (state.enter sheet entry).trees.wallets = state.trees.wallets.putAll sheet.wallets :=
  posted_wallets

omit [F64 F] in
@[simp] theorem enter_system : (state.enter sheet entry).system =
    SystemState.activate sheet.activated (anchoredSystem sheet.system entry) := rfl

omit [F64 F] in
@[simp] theorem enter_history : (state.enter sheet entry).history = state.history ++ [sheet.tx] := history_posted

omit [F64 F] in
@[simp] theorem enter_log : (state.enter sheet entry).log = state.log ++ [entry] := log_posted

omit [F64 F] in
@[simp] theorem enter_indexed : (state.enter sheet entry).indexed =
    state.indexed ++ indexEntries sheet.tx (sheet.system.currentTick + 1) := indexed_posted

omit [F64 F] in
@[simp] theorem enter_validatorId : (state.enter sheet entry).validatorId = state.validatorId := rfl

omit [F64 F] in
@[simp] theorem enter_operatorSecret : (state.enter sheet entry).operatorSecret = state.operatorSecret := rfl

end CoinState

/-- Bookkeeping between entries: writes aside, and at most the iteration lock is turned. -/
structure Quiet (state state' : CoinState F) : Prop where
  writes : ∃ writes : List (Write F), (∀ write ∈ writes, write.aside = true) ∧
    state'.storage = state.storage.writeAll writes
  system : ∃ lock, state'.system = { state.system with iterationLock := lock }
  operatorSecret_eq : state'.operatorSecret = state.operatorSecret
  operatorId_eq : state'.operatorId = state.operatorId
  validatorId_eq : state'.validatorId = state.validatorId

namespace Quiet

variable {state state' : CoinState F}

omit [F64 F] in
theorem ledger (quiet : Quiet state state') : state.trees.SameLedger state'.trees := by
  obtain ⟨writes, aside, same⟩ := quiet.writes
  rw [CoinState.trees, CoinState.trees, same, Storage.trees_writeAll]
  exact Trees.sameLedger_applyAll aside _

omit [F64 F] in
theorem past (quiet : Quiet state state') :
    state'.history = state.history ∧ state'.log = state.log ∧ state'.indexed = state.indexed := by
  obtain ⟨writes, aside, same⟩ := quiet.writes
  have left := CoinState.past_writeAside state aside
  simp only [CoinState.history, CoinState.log, CoinState.indexed, CoinState.writeAll] at left ⊢
  rw [same]
  exact left

omit [F64 F] in
theorem refl (state : CoinState F) : Quiet state state :=
  ⟨⟨[], by simp, by simp [Storage.writeAll]⟩, ⟨_, rfl⟩, rfl, rfl, rfl⟩

omit [F64 F] in
theorem trans {s t u : CoinState F} (first : Quiet s t) (second : Quiet t u) : Quiet s u := by
  obtain ⟨ws, asideFirst, firstSame⟩ := first.writes
  obtain ⟨vs, asideSecond, secondSame⟩ := second.writes
  obtain ⟨_, firstSystem⟩ := first.system
  obtain ⟨lock, secondSystem⟩ := second.system
  refine ⟨⟨ws ++ vs, ?_, ?_⟩, ⟨lock, ?_⟩, second.operatorSecret_eq.trans first.operatorSecret_eq,
    second.operatorId_eq.trans first.operatorId_eq, second.validatorId_eq.trans first.validatorId_eq⟩
  · intro write member
    exact (List.mem_append.mp member).elim (asideFirst write) (asideSecond write)
  · rw [secondSame, firstSame]
    simp only [Storage.writeAll, List.append_assoc]
  · rw [secondSystem, firstSystem]

omit [F64 F] in
theorem writeAll {writes : List (Write F)} (aside : ∀ write ∈ writes, write.aside = true) (state : CoinState F) :
    Quiet state (state.writeAll writes) :=
  ⟨⟨writes, aside, rfl⟩, ⟨_, rfl⟩, rfl, rfl, rfl⟩

omit [F64 F] in
theorem storeState (state : CoinState F) : Quiet state state.storeState :=
  writeAll (by simp [Write.aside]) state

omit [F64 F] in
theorem locked (state : CoinState F) : Quiet state state.locked := by
  refine ⟨⟨[.state { state.system with iterationLock := true }], ?_, rfl⟩, ⟨true, rfl⟩, rfl, rfl, rfl⟩
  simp [Write.aside]

end Quiet

/-- One step of a node. `admits` says which entries may occur. -/
inductive Step (C : Crypto) (admits : CoinState F → Booking F → Sheet F → Prop) : CoinState F → CoinState F → Prop
  | enter {state : CoinState F} {booking : Booking F} {sheet : Sheet F} {entry : PohEntry}
      (books : Books C state booking sheet) (admitted : admits state booking sheet)
      (formed : Crypto.WellFormedSecret state.operatorSecret)
      (anchored : C.Anchors sheet.system.lastPohHash (sheet.system.currentTick + 1) (sheet.payload.bytes C)
        state.validatorId entry) :
      Step C admits state (state.enter sheet entry)
  | strand {state : CoinState F} {booking : Booking F} {sheet : Sheet F} (books : Books C state booking sheet)
      (admitted : admits state booking sheet) (malformed : ¬ Crypto.WellFormedSecret state.operatorSecret) :
      Step C admits state (state.stranded sheet.wallets sheet.system)
  | quiet {state state' : CoinState F} (quiet : Quiet state state') : Step C admits state state'

abbrev Steps (C : Crypto) (admits : CoinState F → Booking F → Sheet F → Prop) : CoinState F → CoinState F → Prop :=
  Relation.ReflTransGen (Step C admits)

namespace Steps

variable {C : Crypto} {admits weaker : CoinState F → Booking F → Sheet F → Prop} {state state' : CoinState F}

theorem mono (steps : Steps C admits state state')
    (implied : ∀ state booking sheet, admits state booking sheet → weaker state booking sheet) :
    Steps C weaker state state' := by
  refine Relation.ReflTransGen.mono (fun before after step => ?_) _ _ steps
  cases step with
  | enter books admitted formed anchored => exact .enter books (implied _ _ _ admitted) formed anchored
  | strand books admitted malformed => exact .strand books (implied _ _ _ admitted) malformed
  | quiet quiet => exact .quiet quiet

/-- What every step preserves, a chain of steps preserves. -/
theorem invariant (inv : CoinState F → Prop) (steps : Steps C admits state state') (initial : inv state)
    (preserved : ∀ before after, Step C admits before after → inv before → inv after) : inv state' := by
  induction steps with
  | refl => exact initial
  | tail _ step ih => exact preserved _ _ step ih

theorem operatorSecret_eq (steps : Steps C admits state state') : state'.operatorSecret = state.operatorSecret := by
  refine steps.invariant (fun s => s.operatorSecret = state.operatorSecret) rfl fun before after step same => ?_
  cases step with
  | enter => exact same
  | strand => exact same
  | quiet quiet => exact quiet.operatorSecret_eq.trans same

/-- With a secret that can sign nothing is ever stranded. -/
theorem invariant_of_formed (inv : CoinState F → Prop) (steps : Steps C admits state state')
    (formed : Crypto.WellFormedSecret state.operatorSecret) (initial : inv state)
    (entered : ∀ before booking sheet entry, Books C before booking sheet → admits before booking sheet →
      C.Anchors sheet.system.lastPohHash (sheet.system.currentTick + 1) (sheet.payload.bytes C) before.validatorId
        entry → inv before → inv (before.enter sheet entry))
    (quieted : ∀ before after, Quiet before after → inv before → inv after) : inv state' := by
  suffices both : state'.operatorSecret = state.operatorSecret ∧ inv state' from both.2
  refine steps.invariant (fun s => s.operatorSecret = state.operatorSecret ∧ inv s) ⟨rfl, initial⟩ ?_
  rintro before after step ⟨secret, holds⟩
  cases step with
  | enter books admitted _ anchored => exact ⟨secret, entered _ _ _ _ books admitted anchored holds⟩
  | strand _ _ malformed => exact absurd (secret ▸ formed) malformed
  | quiet quiet => exact ⟨quiet.operatorSecret_eq.trans secret, quieted _ _ quiet holds⟩

end Steps

end AggoraCoin
