import AggoraCoin.Iteration.Settlement
import AggoraCoin.Postings

namespace AggoraCoin

variable {F : Type}

inductive Call (F : Type)
  | createWallet (parameters : SystemParameters F) (request : WalletCreateRequest) (operator : Operator)
      (operatorSig : String) (now : Timestamp)
  | charge (parameters : SystemParameters F) (request : ChargeRequest) (operator : Operator)
      (operatorSig : String) (guardNow now : Timestamp)
  | transfer (parameters : SystemParameters F) (request : TransferRequest) (now : Timestamp)
  | burn (parameters : SystemParameters F) (request : BurnRequest) (now : Timestamp)
  | installSeed (parameters : SystemParameters F) (seed : SeedFile) (clock : Nat → Timestamp)
  | executeIterationNow (parameters : SystemParameters F) (now snapshotNow : Timestamp)
  | updateParameters (parameters : SystemParameters F)

namespace Call

variable [F64 F] (C : Crypto)

/-- Whether the call is answered with `Ok`, and the state it leaves. -/
def run : Call F → CoinState F → Bool × CoinState F
  | createWallet parameters request operator operatorSig now, state =>
    let ran := AggoraCoin.createWallet C parameters request operator operatorSig now state
    (ran.1.isOk, ran.2)
  | charge parameters request operator operatorSig guardNow now, state =>
    let ran := AggoraCoin.charge C parameters request operator operatorSig guardNow now state
    (ran.1.isOk, ran.2)
  | transfer parameters request now, state =>
    let ran := AggoraCoin.transfer C parameters request now state
    (ran.1.isOk, ran.2)
  | burn parameters request now, state =>
    let ran := AggoraCoin.burn C parameters request now state
    (ran.1.isOk, ran.2)
  | installSeed parameters seed clock, state =>
    let ran := AggoraCoin.installSeed C parameters seed clock state
    (ran.1.isOk, ran.2)
  | executeIterationNow parameters now snapshotNow, state =>
    let ran := AggoraCoin.executeIterationNow C parameters now snapshotNow state
    (ran.1.isOk, ran.2)
  | updateParameters parameters, state => (true, AggoraCoin.updateParameters parameters state)

def accepted (call : Call F) (state : CoinState F) : Bool := (call.run C state).1

def next (call : Call F) (state : CoinState F) : CoinState F := (call.run C state).2

end Call

/-- A write that touches neither a wallet nor the transaction log. -/
def Write.aside : Write F → Bool
  | .operator _ => true
  | .validator _ => true
  | .iteration _ => true
  | .state _ => true
  | .parameters _ => true
  | .snapshot _ => true
  | .wallet _ => false
  | .transaction _ => false
  | .txByWallet _ _ => false
  | .pohEntry _ => false

/-- What writes aside leave alone. -/
structure Trees.SameLedger (t u : Trees F) : Prop where
  wallets_eq : u.wallets = t.wallets
  transactions_eq : u.transactions = t.transactions
  txByWallet_eq : u.txByWallet = t.txByWallet
  pohLog_eq : u.pohLog = t.pohLog

theorem Trees.SameLedger.refl (t : Trees F) : t.SameLedger t := ⟨rfl, rfl, rfl, rfl⟩

theorem Trees.SameLedger.trans {t u v : Trees F} (first : t.SameLedger u) (second : u.SameLedger v) :
    t.SameLedger v :=
  ⟨second.wallets_eq.trans first.wallets_eq, second.transactions_eq.trans first.transactions_eq,
    second.txByWallet_eq.trans first.txByWallet_eq, second.pohLog_eq.trans first.pohLog_eq⟩

theorem Trees.sameLedger_applyAll {writes : List (Write F)} (aside : ∀ write ∈ writes, write.aside = true)
    (t : Trees F) : t.SameLedger (t.applyAll writes) := by
  induction writes generalizing t with
  | nil => exact .refl t
  | cons write rest ih =>
    have one : t.SameLedger (t.apply write) := by
      have here := aside write (List.mem_cons_self ..)
      cases write <;> first | exact ⟨rfl, rfl, rfl, rfl⟩ | cases here
    exact one.trans (ih (fun w member => aside w (List.mem_cons_of_mem _ member)) (t.apply write))

namespace CoinState

/-- The state an iteration works on: the lock is set and persisted. -/
def locked (state : CoinState F) : CoinState F :=
  (state.withSystem { state.system with iterationLock := true }).storeState

theorem sameLedger_storeState (state : CoinState F) : state.trees.SameLedger state.storeState.trees := by
  rw [storeState, trees_writeAll]
  exact Trees.sameLedger_applyAll (by simp [Write.aside]) _

theorem sameLedger_locked (state : CoinState F) : state.trees.SameLedger state.locked.trees :=
  sameLedger_storeState (state.withSystem { state.system with iterationLock := true })

@[simp] theorem listWallets_locked (state : CoinState F) : state.locked.listWallets = state.listWallets :=
  congrArg KeyedTree.entries (sameLedger_locked state).wallets_eq

end CoinState

section Iteration

variable [F64 F] (C : Crypto)

/-- What a committed iteration writes last: its snapshot, or nothing. -/
def Closing (closing : List (Write F)) : Prop := closing = [] ∨ ∃ taken, closing = [.snapshot taken]

omit [F64 F] in
theorem Closing.aside {closing : List (Write F)} (closes : Closing closing) :
    ∀ write ∈ closing, write.aside = true := by
  rcases closes with rfl | ⟨taken, rfl⟩
  · simp
  · simp [Write.aside]

/-- How an iteration that found the lock free ends. -/
inductive Iterates (parameters : SystemParameters F) (state : CoinState F) :
    Outcome (IterationCommit F) × CoinState F → Prop
  | panicked (unordered : F64.le parameters.economy.burnMin parameters.economy.burnMax = false) :
      Iterates parameters state (.panic, state.locked)
  | committed {beta : F} {result : IterationResult F} {entry : PohEntry} {closing : List (Write F)}
      (ran : executeIteration C state.listWallets parameters state.locked.system state.operatorId = .ok result)
      (valid : result.Valid C parameters state.locked.system state.operatorId state.listWallets beta)
      (formed : Crypto.WellFormedSecret state.operatorSecret)
      (anchored : C.Anchors state.system.lastPohHash (state.system.currentTick + 1)
        ((Payload.commit result.commit).bytes C) state.validatorId entry)
      (closes : Closing closing) :
      Iterates parameters state (.ok result.commit,
        (state.locked.posted result.wallets (commitSystem state.locked.system result)
          (.iterationCommit result.commit) entry).writeAll
            (.iteration result.commit ::
              .state (CoinState.anchoredSystem (commitSystem state.locked.system result) entry) :: closing))
  | stranded {beta : F} {result : IterationResult F} {e : String}
      (ran : executeIteration C state.listWallets parameters state.locked.system state.operatorId = .ok result)
      (valid : result.Valid C parameters state.locked.system state.operatorId state.listWallets beta)
      (malformed : ¬ Crypto.WellFormedSecret state.operatorSecret) :
      Iterates parameters state (.err (.internal e),
        state.locked.stranded result.wallets (commitSystem state.locked.system result))

variable {C} {state : CoinState F}

variable (C state) in
theorem executeIterationNow_cases (parameters : SystemParameters F) (now snapshotNow : Timestamp) :
    (state.system.iterationLock = true ∧
      executeIterationNow C parameters now snapshotNow state = (.err .iterationInProgress, state)) ∨
    (state.system.iterationLock = false ∧
      Iterates C parameters state (executeIterationNow C parameters now snapshotNow state)) := by
  unfold executeIterationNow
  by_cases busy : state.system.iterationLock = true
  · exact Or.inl ⟨busy, if_pos busy⟩
  refine Or.inr ⟨Bool.eq_false_iff.mpr busy, ?_⟩
  rw [if_neg busy]
  dsimp only
  have locking : (state.withSystem { state.system with iterationLock := true }).storeState = state.locked := rfl
  rw [locking, CoinState.listWallets_locked]
  rcases executeIteration_cases C parameters state.locked.system state.locked.operatorId state.listWallets with
    ⟨clamped, ran⟩ | ⟨beta, result, ran, valid⟩
  · rw [ran]
    refine .panicked (Bool.eq_false_iff.mpr fun ordered => ?_)
    have rate := (isSome_burnRate_iff parameters.economy (measuredInflation state.locked.system)).mpr ordered
    rw [clamped] at rate
    cases rate
  · have returned : executeIteration C state.listWallets parameters state.locked.system state.locked.operatorId =
        .ok result := ran
    rw [returned]
    dsimp only
    have named : (Transaction.iterationCommit result.commit).txId =
        C.blake3Hex ((Payload.commit result.commit).bytes C) := valid.txId_eq
    have posting : ((state.locked.writeAll (result.wallets.map .wallet)).withSystem
        (commitSystem (state.locked.writeAll (result.wallets.map .wallet)).system result)).appendTxLocked C
          (.iterationCommit result.commit) now =
        state.locked.post C result.wallets (commitSystem state.locked.system result) (.iterationCommit result.commit)
          now := rfl
    rw [posting]
    by_cases formed : Crypto.WellFormedSecret state.locked.operatorSecret
    · obtain ⟨entry, anchored, posted⟩ := CoinState.post_ok result.wallets (commitSystem state.locked.system result) formed named
      rw [posted]
      by_cases snapshot : parameters.storage.snapshotPerIteration = true
      · simp only [snapshot, if_true, CoinState.storeState, CoinState.writeAll_append]
        exact .committed ran valid formed anchored (Or.inr ⟨_, rfl⟩)
      · have nothing : Closing ([] : List (Write F)) := Or.inl rfl
        simp only [snapshot, CoinState.storeState, CoinState.writeAll_append]
        exact .committed ran valid formed anchored nothing
    · obtain ⟨e, posted⟩ := CoinState.post_error result.wallets (commitSystem state.locked.system result) formed named
      rw [posted]
      exact .stranded ran valid formed

end Iteration

end AggoraCoin
