import AggoraCoin.CrashPoints
import AggoraCoin.ParameterSwaps

namespace AggoraCoin

variable {F : Type} {C : Crypto}

namespace CoinState

/-- The node over another database, with another memory of signatures. -/
def on (storage : Storage F) (seen : String → Option Timestamp) (state : CoinState F) : CoinState F :=
  { state with storage, seenOperatorSigs := seen }

variable {state : CoinState F} {storage : Storage F} {seen : String → Option Timestamp}

theorem getWallet_on (same : storage.trees.wallets = state.trees.wallets) (id : WalletId) :
    (state.on storage seen).getWallet id = state.getWallet id :=
  congrArg (fun tree => tree.get id) same

theorem listWallets_on (same : storage.trees.wallets = state.trees.wallets) :
    (state.on storage seen).listWallets = state.listWallets := congrArg KeyedTree.entries same

end CoinState

/-- Over another database with the same wallets the outcome is the same, and so are the writes. -/
def Carries {α : Type} (f : CoinState F → α × CoinState F) (state : CoinState F) : Prop :=
  ∀ storage seen, storage.trees.wallets = state.trees.wallets → ∃ writes : List (Write F),
    (f state).2.storage = state.storage.writeAll writes ∧
      (f state).2.seenOperatorSigs = state.seenOperatorSigs ∧
      f (state.on storage seen) = ((f state).1, (f state).2.on (storage.writeAll writes) seen)

namespace Carries

variable {α : Type} {state : CoinState F}

variable (state) in
theorem unchanged (answer : α) : Carries (fun state => (answer, state)) state := by
  intro storage seen _
  have nothing (storage : Storage F) : storage.writeAll [] = storage := congrArg Storage.mk (List.append_nil _)
  refine ⟨[], ?_, rfl, ?_⟩
  · rw [nothing]
  · rw [nothing]

variable (state) in
/-- A posting reads nothing of the database. -/
theorem post (wallets : List (Wallet F)) (system : SystemState F) (tx : Transaction F) (now : Timestamp) :
    Carries (CoinState.post C wallets system tx now) state := by
  intro storage seen _
  cases built : C.buildEntry (system.currentTick + 1) system.lastPohHash [tx.txId] state.validatorId
      state.operatorSecret now with
  | error e =>
    refine ⟨wallets.map .wallet, ?_⟩
    simp only [CoinState.post, CoinState.appendTxLocked, CoinState.withSystem, CoinState.writeAll, CoinState.on, built]
    exact ⟨trivial, trivial, trivial⟩
  | ok entry =>
    refine ⟨wallets.map .wallet ++ (transactionWrites tx (system.currentTick + 1) ++ [.pohEntry entry]), ?_⟩
    simp only [CoinState.post, CoinState.appendTxLocked, CoinState.withSystem, CoinState.writeAll, CoinState.on, built,
      Storage.writeAll, List.append_assoc]
    exact ⟨trivial, trivial, trivial⟩

variable (state) in
/-- And neither does the bookkeeping after it. -/
theorem posting (wallets : List (Wallet F)) (system : SystemState F) (tx : Transaction F)
    (after : SystemState F → SystemState F) (reply : α) (now : Timestamp) :
    Carries (fun state => match state.post C wallets system tx now with
      | (.error e, state) => (Outcome.err e, state)
      | (.ok _, state) => (.ok reply, (state.withSystem (after state.system)).storeState)) state := by
  intro storage seen same
  obtain ⟨writes, grown, kept, carried⟩ := post (C := C) state wallets system tx now storage seen same
  simp only [carried]
  cases ran : state.post C wallets system tx now with
  | mk verdict left =>
    rw [ran] at grown kept
    replace grown : left.storage = state.storage.writeAll writes := grown
    replace kept : left.seenOperatorSigs = state.seenOperatorSigs := kept
    cases verdict with
    | error e => exact ⟨writes, grown, kept, rfl⟩
    | ok _ =>
      refine ⟨writes ++ [.state (after left.system)], ?_, kept, ?_⟩
      · rw [← Storage.writeAll_append, ← grown]
        rfl
      · rw [← Storage.writeAll_append]
        rfl

end Carries

section Calls

variable [F64 F] {state : CoinState F} {parameters : SystemParameters F}

section Posted

-- stays folded while the body of a call is compared with that of a posting
seal CoinState.appendTxLocked

theorem createWallet_carries (request : WalletCreateRequest) (operator : Operator) (operatorSig : String)
    (now : Timestamp) : Carries (createWallet C parameters request operator operatorSig now) state := by
  intro storage seen same
  have plan : planCreateWallet C parameters request operator operatorSig (state.on storage seen) =
      planCreateWallet C parameters request operator operatorSig state := by
    simp only [planCreateWallet, CoinState.getWallet_on same]
    rfl
  unfold createWallet
  rw [plan]
  cases planCreateWallet C parameters request operator operatorSig state with
  | error e => exact Carries.unchanged state (Outcome.err e) storage seen same
  | ok found =>
    exact Carries.posting state [found.wallet] (state.system.mint found.wallet.balance) (.mint found.tx) id _ now
      storage seen same

omit [F64 F] in
theorem chargeLocked_carries (request : ChargeRequest) (operator : Operator) (operatorSig : String)
    (now : Timestamp) : Carries (chargeLocked C request operator operatorSig now) state := by
  intro storage seen same
  have plan : planCharge C request operator operatorSig (state.on storage seen) =
      planCharge C request operator operatorSig state := by
    simp only [planCharge, CoinState.getWallet_on same]
    rfl
  unfold chargeLocked
  rw [plan]
  cases planCharge C request operator operatorSig state with
  | error e => exact Carries.unchanged state (Outcome.err e) storage seen same
  | ok found =>
    exact Carries.posting state [found.wallet] (state.system.credit request.amount) (.mint found.tx) id _ now
      storage seen same

omit [F64 F] in
theorem transfer_carries (request : TransferRequest) (now : Timestamp) :
    Carries (transfer C parameters request now) state := by
  intro storage seen same
  have plan : planTransfer C parameters.security request (state.on storage seen) =
      planTransfer C parameters.security request state := by
    simp only [planTransfer, CoinState.getWallet_on same]
    rfl
  unfold transfer
  rw [plan]
  cases planTransfer C parameters.security request state with
  | error e => exact Carries.unchanged state (Outcome.err e) storage seen same
  | ok found =>
    have pair (state : CoinState F) : (state.putWallet found.fromWallet).putWallet found.toWallet =
        state.writeAll ([found.fromWallet, found.toWallet].map .wallet) := CoinState.writeAll_append _ _
    simp only [pair]
    exact Carries.posting state [found.fromWallet, found.toWallet] state.system (.transfer found.tx)
      (SystemState.activate found.newlyActive) _ now storage seen same

omit [F64 F] in
theorem burn_carries (request : BurnRequest) (now : Timestamp) : Carries (burn C parameters request now) state := by
  intro storage seen same
  have plan : planBurn C parameters.security request (state.on storage seen) =
      planBurn C parameters.security request state := by
    simp only [planBurn, CoinState.getWallet_on same]
    rfl
  unfold burn
  rw [plan]
  cases planBurn C parameters.security request state with
  | error e => exact Carries.unchanged state (Outcome.err e) storage seen same
  | ok found =>
    exact Carries.posting state [found.wallet] (state.system.debit request.amount) (.burn found.tx)
      (SystemState.activate found.newlyActive) _ now storage seen same

end Posted

omit [F64 F] in
/-- Equal writes keep the wallets equal. -/
theorem wallets_writeAll_congr {storage other : Storage F} (same : other.trees.wallets = storage.trees.wallets)
    (writes : List (Write F)) : (other.writeAll writes).trees.wallets = (storage.writeAll writes).trees.wallets := by
  rw [Storage.trees_writeAll, Storage.trees_writeAll, Trees.applyAll_walletOf, Trees.applyAll_walletOf, same]

theorem installEntries_carries {clock : Nat → Timestamp} (entries : List SeedWallet) (installed : Nat) :
    Carries (installEntries C parameters clock entries installed) state := by
  induction entries generalizing installed state with
  | nil => exact .unchanged state _
  | cons entry rest ih =>
    intro storage seen same
    have plan : planSeedWallet C parameters entry (clock (3 * installed)) (clock (3 * installed + 1))
        (state.on storage seen) =
          planSeedWallet C parameters entry (clock (3 * installed)) (clock (3 * installed + 1)) state := by
      simp only [planSeedWallet, CoinState.getWallet_on same]
      rfl
    unfold installEntries
    rw [plan]
    cases planSeedWallet C parameters entry (clock (3 * installed)) (clock (3 * installed + 1)) state with
    | error e => exact Carries.unchanged state (Outcome.err e) storage seen same
    | ok found =>
      cases found with
      | none => exact ih installed storage seen same
      | some plan =>
        obtain ⟨writes, grown, kept, carried⟩ := Carries.post (C := C) state [plan.wallet]
          (state.system.mint plan.wallet.balance) (.mint plan.tx) (clock (3 * installed + 2)) storage seen same
        have minted : insertMinted C plan (clock (3 * installed + 2)) (state.on storage seen) =
            ((insertMinted C plan (clock (3 * installed + 2)) state).1,
              (insertMinted C plan (clock (3 * installed + 2)) state).2.on (storage.writeAll writes) seen) := carried
        dsimp only
        rw [minted]
        cases ran : insertMinted C plan (clock (3 * installed + 2)) state with
        | mk verdict left =>
          have left_eq : (insertMinted C plan (clock (3 * installed + 2)) state).2 = left := congrArg Prod.snd ran
          replace grown : left.storage = state.storage.writeAll writes := left_eq ▸ grown
          replace kept : left.seenOperatorSigs = state.seenOperatorSigs := left_eq ▸ kept
          cases verdict with
          | error e => exact ⟨writes, grown, kept, rfl⟩
          | ok _ =>
            have wallets : (storage.writeAll writes).trees.wallets = left.trees.wallets := by
              rw [CoinState.trees, grown]
              exact wallets_writeAll_congr same writes
            have onward : Carries (installEntries C parameters clock rest (installed + 1)) left := ih (installed + 1)
            obtain ⟨more, grownMore, keptMore, carriedMore⟩ := onward _ seen wallets
            refine ⟨writes ++ more, ?_, keptMore.trans kept, ?_⟩
            · rw [← Storage.writeAll_append, ← grown]
              exact grownMore
            · rw [← Storage.writeAll_append]
              exact carriedMore

theorem installSeed_carries (seed : SeedFile) (clock : Nat → Timestamp) :
    Carries (installSeed C parameters seed clock) state := by
  intro storage seen same
  have entries : Carries (installEntries C parameters clock seed.initialWallets 0) state :=
    installEntries_carries seed.initialWallets 0
  obtain ⟨writes, grown, kept, carried⟩ := entries storage seen same
  unfold installSeed
  by_cases busy : state.system.iterationLock = true
  · have busy' : (state.on storage seen).system.iterationLock = true := busy
    rw [if_pos busy, if_pos busy']
    exact Carries.unchanged state _ storage seen same
  have free : ¬ (state.on storage seen).system.iterationLock = true := busy
  rw [if_neg busy, if_neg free, carried]
  cases ran : installEntries C parameters clock seed.initialWallets 0 state with
  | mk outcome left =>
    rw [ran] at grown kept
    replace grown : left.storage = state.storage.writeAll writes := grown
    replace kept : left.seenOperatorSigs = state.seenOperatorSigs := kept
    cases outcome with
    | ok installed =>
      refine ⟨writes ++ [.state left.system], ?_, kept, ?_⟩
      · rw [← Storage.writeAll_append, ← grown]
        rfl
      · rw [← Storage.writeAll_append]
        rfl
    | err e => exact ⟨writes, grown, kept, rfl⟩
    | panic => exact ⟨writes, grown, kept, rfl⟩

theorem executeIterationNow_carries (now snapshotNow : Timestamp) :
    Carries (executeIterationNow C parameters now snapshotNow) state := by
  intro storage seen same
  have locking (state : CoinState F) :
      (state.withSystem { state.system with iterationLock := true }).storeState = state.locked := rfl
  have wallets : (storage.writeAll [.state state.locked.system]).trees.wallets = state.locked.trees.wallets :=
    wallets_writeAll_congr same _
  have lockedOn : (state.on storage seen).locked =
      state.locked.on (storage.writeAll [.state state.locked.system]) seen := rfl
  have lockedGrown : state.locked.storage = state.storage.writeAll [.state state.locked.system] := rfl
  unfold executeIterationNow
  by_cases busy : state.system.iterationLock = true
  · have busy' : (state.on storage seen).system.iterationLock = true := busy
    rw [if_pos busy, if_pos busy']
    exact Carries.unchanged state _ storage seen same
  have free : ¬ (state.on storage seen).system.iterationLock = true := busy
  rw [if_neg busy, if_neg free]
  dsimp only
  rw [locking, locking, lockedOn, CoinState.listWallets_on wallets]
  have computed : executeIteration C state.locked.listWallets parameters
      (state.locked.on (storage.writeAll [.state state.locked.system]) seen).system
        (state.locked.on (storage.writeAll [.state state.locked.system]) seen).operatorId =
      executeIteration C state.locked.listWallets parameters state.locked.system state.locked.operatorId := rfl
  rw [computed]
  cases executeIteration C state.locked.listWallets parameters state.locked.system state.locked.operatorId with
  | panic => exact ⟨_, lockedGrown, rfl, rfl⟩
  | err e => exact ⟨_, lockedGrown, rfl, rfl⟩
  | ok result =>
    obtain ⟨writes, grown, kept, carried⟩ := Carries.post (C := C) state.locked result.wallets
      (commitSystem state.locked.system result) (.iterationCommit result.commit) now _ seen wallets
    have posting (state : CoinState F) :
        ((state.writeAll (result.wallets.map .wallet)).withSystem
          (commitSystem (state.writeAll (result.wallets.map .wallet)).system result)).appendTxLocked C
            (.iterationCommit result.commit) now =
        state.post C result.wallets (commitSystem state.system result) (.iterationCommit result.commit) now := rfl
    have posted : (state.locked.on (storage.writeAll [.state state.locked.system]) seen).post C result.wallets
        (commitSystem (state.locked.on (storage.writeAll [.state state.locked.system]) seen).system result)
          (.iterationCommit result.commit) now = _ := carried
    simp only [posting, posted]
    cases ran : state.locked.post C result.wallets (commitSystem state.locked.system result)
        (.iterationCommit result.commit) now with
    | mk verdict left =>
      rw [ran] at grown kept
      replace grown : left.storage = state.storage.writeAll (.state state.locked.system :: writes) := by
        rw [← List.singleton_append, ← Storage.writeAll_append]
        exact grown
      replace kept : left.seenOperatorSigs = state.seenOperatorSigs := kept
      cases verdict with
      | error e =>
        refine ⟨_, grown, kept, ?_⟩
        rw [Storage.writeAll_append]
        rfl
      | ok _ =>
        by_cases taking : parameters.storage.snapshotPerIteration = true
        · refine ⟨.state state.locked.system :: writes ++ [.iteration result.commit, .state left.system, .snapshot {
              iterationId := result.commit.iterationId, tick := left.system.currentTick,
              timestamp := snapshotNow, parameters, systemState := left.system,
              wallets := result.wallets, pohAnchor := left.system.lastPohHash }], ?_, ?_, ?_⟩
          · rw [← Storage.writeAll_append, ← grown]
            simp only [taking, if_true, CoinState.storeState, CoinState.writeAll_append]
            rfl
          · simp only [taking, if_true]
            exact kept
          · rw [← Storage.writeAll_append]
            simp only [taking, if_true, CoinState.storeState, CoinState.writeAll_append]
            simp [Storage.writeAll, CoinState.on, CoinState.writeAll]
        · refine ⟨.state state.locked.system :: writes ++ [.iteration result.commit, .state left.system], ?_, ?_, ?_⟩
          · rw [← Storage.writeAll_append, ← grown]
            simp only [taking, CoinState.storeState, CoinState.writeAll_append]
            rfl
          · simp only [taking]
            exact kept
          · rw [← Storage.writeAll_append]
            simp only [taking, CoinState.storeState, CoinState.writeAll_append]
            simp [Storage.writeAll, CoinState.on, CoinState.writeAll]

end Calls

/-- The answer of a call, with all it carries. -/
inductive CallOutcome (F : Type)
  | created (outcome : Outcome WalletCreateResponse)
  | accepted (outcome : Outcome TxAcceptedResponse)
  | installed (outcome : Outcome Nat)
  | iterated (outcome : Outcome (IterationCommit F))
  | updated

namespace Call

variable [F64 F] (C : Crypto)

def outcome : Call F → CoinState F → CallOutcome F
  | createWallet parameters request operator operatorSig now, state =>
    .created (AggoraCoin.createWallet C parameters request operator operatorSig now state).1
  | charge parameters request operator operatorSig guardNow now, state =>
    .accepted (AggoraCoin.charge C parameters request operator operatorSig guardNow now state).1
  | transfer parameters request now, state => .accepted (AggoraCoin.transfer C parameters request now state).1
  | burn parameters request now, state => .accepted (AggoraCoin.burn C parameters request now state).1
  | installSeed parameters seed clock, state => .installed (AggoraCoin.installSeed C parameters seed clock state).1
  | executeIterationNow parameters now snapshotNow, state =>
    .iterated (AggoraCoin.executeIterationNow C parameters now snapshotNow state).1
  | updateParameters _, _ => .updated

end Call

/-- The charge carries a signature the node remembers, and is refused for it. -/
def Call.Replayed (state : CoinState F) : Call F → Prop
  | .charge parameters request _ operatorSig guardNow _ => request.amount ≠ 0 ∧
      (guardOperatorReplay parameters.security operatorSig request.timestamp guardNow state).1 ≠ .ok ()
  | _ => False

/-- The two nodes differ in the record `open` stores of the validator, and the twin may have
forgotten signatures. -/
structure Twins (node twin : CoinState F) : Prop where
  trees_eq : ∃ validators, twin.trees = { node.trees with validators }
  fields_eq : twin = node.on twin.storage twin.seenOperatorSigs
  remembered : ∀ text time, twin.seenOperatorSigs text = some time → node.seenOperatorSigs text = some time

theorem Trees.applyAll_besides {t u : Trees F} (same : ∃ validators, u = { t with validators })
    (writes : List (Write F)) : ∃ validators, u.applyAll writes = { t.applyAll writes with validators } := by
  induction writes generalizing t u with
  | nil => exact same
  | cons write rest ih =>
    refine ih ?_
    obtain ⟨validators, rfl⟩ := same
    cases write <;> exact ⟨_, rfl⟩

namespace Twins

variable {node twin : CoinState F}

theorem refl (node : CoinState F) : Twins node node := ⟨⟨_, rfl⟩, rfl, fun _ _ => id⟩

theorem wallets_eq (twins : Twins node twin) : twin.trees.wallets = node.trees.wallets := by
  obtain ⟨validators, same⟩ := twins.trees_eq
  rw [same]

/-- What carries over to another database carries over to the twin. -/
theorem carries {α : Type} {f : CoinState F → α × CoinState F} (twins : Twins node twin) (carries : Carries f node) :
    (f twin).1 = (f node).1 ∧ Twins (f node).2 (f twin).2 := by
  obtain ⟨writes, grown, kept, carried⟩ := carries twin.storage twin.seenOperatorSigs twins.wallets_eq
  have ran : f twin = _ := (congrArg f twins.fields_eq).trans carried
  refine ⟨by rw [ran], ?_, ?_, ?_⟩
  · rw [ran, CoinState.trees, CoinState.trees, grown, Storage.trees_writeAll]
    change ∃ validators, (twin.storage.writeAll writes).trees = _
    rw [Storage.trees_writeAll]
    exact Trees.applyAll_besides twins.trees_eq writes
  · rw [ran]
    rfl
  · rw [ran, kept]
    exact twins.remembered

/-- A signature the node lets pass, its twin lets pass. -/
theorem guarded (twins : Twins node twin) {security : SecurityParameters} {signature : String}
    {timestamp now : Timestamp} (passed : (guardOperatorReplay security signature timestamp now node).1 = .ok ()) :
    (guardOperatorReplay security signature timestamp now twin).1 = .ok () ∧
      Twins (guardOperatorReplay security signature timestamp now node).2
        (guardOperatorReplay security signature timestamp now twin).2 := by
  have pruned (text : String) (time : Timestamp) (kept : (twin.seenOperatorSigs text).filter
      (fun ts => i64Distance now ts ≤ max security.timestampDriftMs 0) = some time) :
      (node.seenOperatorSigs text).filter (fun ts => i64Distance now ts ≤ max security.timestampDriftMs 0) =
        some time := by
    rw [Option.filter_eq_some_iff] at kept ⊢
    exact ⟨twins.remembered text time kept.1, kept.2⟩
  unfold guardOperatorReplay at passed ⊢
  dsimp only at passed ⊢
  split at passed
  · cases passed
  rename_i fresh
  have forgotten : ¬ ((twin.seenOperatorSigs signature).filter
      fun ts => i64Distance now ts ≤ max security.timestampDriftMs 0).isSome = true := by
    intro held
    obtain ⟨time, found⟩ := Option.isSome_iff_exists.mp held
    exact fresh (Option.isSome_iff_exists.mpr ⟨time, pruned signature time found⟩)
  rw [if_neg fresh, if_neg forgotten]
  refine ⟨rfl, twins.trees_eq, ?_, fun text time => ?_⟩
  · have fields := twins.fields_eq
    generalize twin.storage = storage at fields
    generalize twin.seenOperatorSigs = seen at fields ⊢
    rw [fields]
    rfl
  · by_cases here : text = signature
    · subst here
      simp only [Function.update_self]
      exact id
    · simp only [Function.update_of_ne here]
      exact pruned text time

end Twins

section Calls

variable [F64 F] {node twin : CoinState F}

/-- A call that is not refused as a replay ends on both nodes the same way. -/
theorem Call.twins (call : Call F) (twins : Twins node twin) (fresh : ¬ call.Replayed node) :
    call.outcome C twin = call.outcome C node ∧ Twins (call.next C node) (call.next C twin) := by
  cases call with
  | createWallet parameters request operator operatorSig now =>
    have carrying : Carries (AggoraCoin.createWallet C parameters request operator operatorSig now) node :=
      createWallet_carries request operator operatorSig now
    obtain ⟨same, after⟩ := twins.carries carrying
    exact ⟨congrArg CallOutcome.created same, after⟩
  | charge parameters request operator operatorSig guardNow now =>
    change CallOutcome.accepted (AggoraCoin.charge C parameters request operator operatorSig guardNow now twin).1 =
        .accepted (AggoraCoin.charge C parameters request operator operatorSig guardNow now node).1 ∧
      Twins (AggoraCoin.charge C parameters request operator operatorSig guardNow now node).2
        (AggoraCoin.charge C parameters request operator operatorSig guardNow now twin).2
    unfold AggoraCoin.charge
    by_cases zero : request.amount = 0
    · rw [if_pos zero, if_pos zero]
      exact ⟨rfl, twins⟩
    rw [if_neg zero, if_neg zero]
    have passed : (guardOperatorReplay parameters.security operatorSig request.timestamp guardNow node).1 = .ok () := by
      by_contra refused
      exact fresh ⟨zero, refused⟩
    obtain ⟨passedToo, after⟩ := twins.guarded passed
    generalize guardOperatorReplay parameters.security operatorSig request.timestamp guardNow node = ran at *
    generalize guardOperatorReplay parameters.security operatorSig request.timestamp guardNow twin = ranToo at *
    obtain ⟨verdict, left⟩ := ran
    obtain ⟨verdictToo, leftToo⟩ := ranToo
    cases passed
    cases passedToo
    obtain ⟨same, ended⟩ := after.carries (chargeLocked_carries (C := C) request operator operatorSig now)
    exact ⟨congrArg CallOutcome.accepted same, ended⟩
  | transfer parameters request now =>
    have carrying : Carries (AggoraCoin.transfer C parameters request now) node := transfer_carries request now
    obtain ⟨same, after⟩ := twins.carries carrying
    exact ⟨congrArg CallOutcome.accepted same, after⟩
  | burn parameters request now =>
    have carrying : Carries (AggoraCoin.burn C parameters request now) node := burn_carries request now
    obtain ⟨same, after⟩ := twins.carries carrying
    exact ⟨congrArg CallOutcome.accepted same, after⟩
  | installSeed parameters seed clock =>
    have carrying : Carries (AggoraCoin.installSeed C parameters seed clock) node := installSeed_carries seed clock
    obtain ⟨same, after⟩ := twins.carries carrying
    exact ⟨congrArg CallOutcome.installed same, after⟩
  | executeIterationNow parameters now snapshotNow =>
    have carrying : Carries (AggoraCoin.executeIterationNow C parameters now snapshotNow) node :=
      executeIterationNow_carries now snapshotNow
    obtain ⟨same, after⟩ := twins.carries carrying
    exact ⟨congrArg CallOutcome.iterated same, after⟩
  | updateParameters parameters =>
    have writing : Carries (fun state => ((), AggoraCoin.updateParameters parameters state)) node :=
      fun _ _ _ => ⟨[.parameters parameters], rfl, rfl, rfl⟩
    exact ⟨rfl, (twins.carries writing).2⟩

end Calls

section Restarting

variable [F64 F] {node twin reopened : CoinState F}

/-- All that opening changes of the trees. -/
theorem openCoinState_trees {env : String → Option String} {config : NodeConfig F} {storage : Storage F}
    (opened : (openCoinState C env config storage).1 = .ok node) :
    ∃ validators, node.trees = { storage.trees with
      parameters := some node.parameters
      state := some node.system
      operators := storage.trees.operators.put (genesisRecord node.operatorId node.operatorPublicKey)
      validators } := by
  unfold openCoinState at opened
  dsimp only at opened
  split at opened
  · cases opened
  split at opened
  · cases opened
  split at opened
  · cases opened
  cases opened
  rw [CoinState.trees, Storage.trees_writeAll, Storage.trees_writeAll]
  exact ⟨_, rfl⟩

variable (C) in
/-- What a node has on disk of itself. -/
structure CoinState.Settled (node : CoinState F) : Prop where
  stored : node.trees.state = some node.system
  named : node.system.lastPohHash.isEmpty = false
  written : node.trees.parameters = some node.parameters
  registered : node.trees.operators.get node.operatorId = some (genesisRecord node.operatorId node.operatorPublicKey)
  identified : C.walletIdFromPublicKey node.operatorPublicKey = .ok node.operatorId
  validating : node.validatorId = node.operatorId
  formed : Crypto.WellFormedSecret node.operatorSecret

/-- The figures a node keeps survive their text. -/
structure CoinState.Reread (node : CoinState F) : Prop where
  system : node.system.reread = node.system
  parameters : node.parameters.reread = node.parameters

/-- Opened with a secret that can sign. -/
theorem CoinState.Settled.opened {env : String → Option String} {config : NodeConfig F} {storage : Storage F}
    (opened : (openCoinState C env config storage).1 = .ok node)
    (formed : Crypto.WellFormedSecret node.operatorSecret) : node.Settled C := by
  have start := openCoinState_opened opened
  obtain ⟨validators, trees⟩ := openCoinState_trees opened
  have operators := congrArg Trees.operators trees
  refine ⟨start.stored_eq, ?_, (openCoinState_parameters opened).1, ?_, start.operatorId_eq, start.validatorId_eq, formed⟩
  · rw [start.system_eq]
    exact recoveredSystem_named _
  · rw [operators]
    exact KeyedTree.get_put_self _ _

/-- A node opened on the disk of a twin, with the keys of the node, is the twin but for the
signatures it remembers, if the stored figures survive their text. -/
theorem Twins.of_reopened (twins : Twins node twin) (settled : node.Settled C) {env : String → Option String}
    {config : NodeConfig F} (opened : (openCoinState C env config twin.storage).1 = .ok reopened)
    (secret : reopened.operatorSecret = node.operatorSecret)
    (publicKey : reopened.operatorPublicKey = node.operatorPublicKey) (kept : node.Reread) : Twins node reopened := by
  have start := openCoinState_opened opened
  obtain ⟨others, disk⟩ := twins.trees_eq
  obtain ⟨validators, trees⟩ := openCoinState_trees opened
  replace disk : twin.storage.trees = { node.trees with validators := others } := disk
  have operatorId : reopened.operatorId = node.operatorId := by
    have named := start.operatorId_eq
    rw [publicKey, settled.identified] at named
    exact (Except.ok.inj named).symm
  have validatorId : reopened.validatorId = node.validatorId := by
    rw [start.validatorId_eq, operatorId, settled.validating]
  have system : reopened.system = node.system := by
    have stored : twin.storage.trees.state = some node.system := by
      rw [disk]
      exact settled.stored
    rw [start.system_eq, stored, recoveredSystem_of_named settled.named, kept.system]
  have parameters : reopened.parameters = node.parameters := by
    have stored : twin.storage.trees.parameters = some node.parameters := by
      rw [disk]
      exact settled.written
    rw [(openCoinState_parameters opened).2, Storage.loadParameters, stored, Option.map_some, Option.getD_some,
      kept.parameters]
  have operators : node.trees.operators.put (genesisRecord node.operatorId node.operatorPublicKey) =
      node.trees.operators := KeyedTree.put_of_get settled.registered
  refine ⟨⟨validators, ?_⟩, ?_, ?_⟩
  · rw [trees, disk, parameters, system, operatorId, publicKey]
    simp only [operators]
    rw [← settled.stored, ← settled.written]
  · obtain ⟨storage, ownParameters, ownSystem, ownSecret, ownKey, ownId, ownValidator, seen⟩ := reopened
    cases parameters
    cases system
    cases secret
    cases publicKey
    cases operatorId
    cases validatorId
    rfl
  · rw [start.seen_eq]
    intro text time found
    cases found

omit [F64 F] in
theorem CoinState.parameters_enter {sheet : Sheet F} {entry : PohEntry} :
    (node.enter sheet entry).trees.parameters = node.trees.parameters := by
  rw [CoinState.trees, CoinState.storage_enter, Storage.trees_writeAll]
  simp only [CoinState.entryWrites, CoinState.postingWrites, Trees.applyAll_append, Trees.applyAll_wallets,
    Trees.applyAll_transactionWrites]
  rfl

theorem Installs.written {bookings : Set (Booking F)} {writes : List (Write F)} {after : CoinState F}
    (installs : Installs C bookings node writes after) (written : node.trees.parameters = some node.parameters) :
    after.trees.parameters = some after.parameters := by
  induction installs with
  | none => exact written
  | entry _ _ _ _ _ ih => exact ih (CoinState.parameters_enter.trans written)

/-- The stored parameters are those in memory. -/
theorem Script.written {bookings : Set (Booking F)} {writes : List (Write F)} {after : CoinState F}
    (script : Script C bookings node writes after) (formed : Crypto.WellFormedSecret node.operatorSecret)
    (written : node.trees.parameters = some node.parameters) : after.trees.parameters = some after.parameters := by
  have storing (state : CoinState F) : state.storeState.trees.parameters = state.trees.parameters := by
    rw [CoinState.storeState, CoinState.trees_writeAll]
    rfl
  have locking : node.locked.trees.parameters = node.trees.parameters := storing _
  cases script with
  | refused => exact written
  | parameters parameters =>
    exact SwapState.trees_store node parameters
  | accepted => exact (storing _).trans (CoinState.parameters_enter.trans written)
  | stranded _ _ _ malformed => exact absurd formed malformed
  | seeded installs => exact (storing _).trans (installs.written written)
  | seedRefused installs => exact installs.written written
  | panicked => exact locking.trans written
  | @committed _ sheet entry _ _ _ _ _ _ _ _ closes =>
    have entered : (node.locked.enter sheet entry).trees.parameters = some node.parameters :=
      CoinState.parameters_enter.trans (locking.trans written)
    rcases closes with rfl | ⟨taken, rfl⟩
    · rw [CoinState.trees_writeAll]
      exact entered
    · rw [CoinState.trees_writeAll]
      exact entered
  | commitStranded _ _ malformed => exact absurd formed malformed

variable (C) in
/-- A seed file that is refused has installed nothing. -/
def Call.Settles (node : CoinState F) : Call F → Prop
  | .installSeed _ seed _ => SeedSafe C node seed
  | _ => True

/-- The system state is on disk after every call that settles. -/
theorem Call.Settles.stored {call : Call F} (settles : call.Settles C node)
    (formed : Crypto.WellFormedSecret node.operatorSecret) (stored : node.trees.state = some node.system) :
    (call.next C node).trees.state = some (call.next C node).system := by
  have script := call.script_writes C node
  cases call with
  | installSeed parameters seed clock =>
    change (AggoraCoin.installSeed C parameters seed clock node).2.trees.state =
      some (AggoraCoin.installSeed C parameters seed clock node).2.system
    rcases installSeed_cases C node parameters clock seed with ⟨_, left⟩ | ⟨_, _, _, left⟩ | ⟨_, stopped, outcome, _⟩
    · rw [left]
      exact stored
    · rw [left]
      exact CoinState.stored_storeState _
    · rw [installSeed_unchanged (outcome ▸ stopped) settles]
      exact stored
  | updateParameters =>
    refine script.stored formed ?_ stored
    rintro booking ⟨⟩
  | _ =>
    refine script.stored formed ?_ stored
    rintro booking booked _ _ _ _ rfl
    cases Set.mem_singleton_iff.mp booked

theorem CoinState.Settled.next {call : Call F} (settled : node.Settled C) (settles : call.Settles C node) :
    (call.next C node).Settled C := by
  have keys := Call.sameKeys (C := C) node call
  refine ⟨settles.stored settled.formed settled.stored, ?_, ?_, ?_, ?_, ?_, ?_⟩
  · refine call.steps.invariant_of_formed (fun s => s.system.lastPohHash.isEmpty = false) settled.formed settled.named
      ?_ ?_
    · intro before booking sheet entry _ _ anchored _
      have moved : (before.enter sheet entry).system.lastPohHash = entry.hash := rfl
      rw [moved, anchored.hash_eq]
      exact C.blake3Hex_named _
    · intro before after quiet named
      obtain ⟨lock, same⟩ := quiet.system
      rw [same]
      exact named
  · exact (call.script_writes C node).written settled.formed settled.written
  · rw [Call.registry_eq node call, keys.operatorId_eq, keys.operatorPublicKey_eq]
    exact settled.registered
  · rw [keys.operatorId_eq, keys.operatorPublicKey_eq]
    exact settled.identified
  · rw [keys.validatorId_eq, keys.operatorId_eq]
    exact settled.validating
  · rw [keys.operatorSecret_eq]
    exact settled.formed

/-- One node that never stops, and one that is restarted now and then; both are sent the same calls. -/
structure Watched (F : Type) where
  steady : CoinState F
  restarted : CoinState F

def Watched.next (C : Crypto) (watched : Watched F) : Event F → Watched F
  | .call call => ⟨call.next C watched.steady, call.next C watched.restarted⟩
  | .restart env config =>
    match (openCoinState C env config watched.restarted.storage).1 with
    | .ok reopened => { watched with restarted := reopened }
    | .error _ => watched

theorem Watched.next_restart {watched : Watched F} {env : String → Option String} {config : NodeConfig F}
    (opened : (openCoinState C env config watched.restarted.storage).1 = .ok reopened) :
    watched.next C (.restart env config) = { watched with restarted := reopened } := by
  simp only [Watched.next, opened]

/-- A restart finds the keys again and reads back the figures that were written, and no call is
refused for a signature that only one of the two remembers. -/
def Watched.Unnoticed (C : Crypto) (watched : Watched F) : Event F → Prop
  | .call call => call.Settles C watched.steady ∧ ¬ call.Replayed watched.steady
  | .restart env config => watched.steady.Reread ∧
      ∃ reopened, (openCoinState C env config watched.restarted.storage).1 = .ok reopened ∧
        reopened.operatorSecret = watched.steady.operatorSecret ∧
        reopened.operatorPublicKey = watched.steady.operatorPublicKey

variable {watched : Watched F}

theorem Watched.twins_next {event : Event F} (settled : watched.steady.Settled C)
    (twins : Twins watched.steady watched.restarted) (unnoticed : watched.Unnoticed C event) :
    (watched.next C event).steady.Settled C ∧ Twins (watched.next C event).steady (watched.next C event).restarted := by
  cases event with
  | call call =>
    obtain ⟨settles, fresh⟩ := unnoticed
    exact ⟨settled.next settles, (call.twins twins fresh).2⟩
  | restart env config =>
    obtain ⟨kept, reopened, opened, secret, publicKey⟩ := unnoticed
    rw [Watched.next_restart opened]
    exact ⟨settled, twins.of_reopened settled opened secret publicKey kept⟩

/-- A node restarted any number of times between calls, each time under the same keys, gives every
caller the answer that a node that never stopped gives, and the databases agree but for the record of
the validator. Left out are restarts that read back a figure other than was written, charges refused
for a signature remembered, since a restart forgets signatures, and seed files that stop half way,
since they leave a system state in memory alone. -/
theorem restarts_unnoticed {env : String → Option String} {config : NodeConfig F} {storage : Storage F}
    {start : CoinState F} (opened : (openCoinState C env config storage).1 = .ok start)
    (formed : Crypto.WellFormedSecret start.operatorSecret)
    (reach : Reach (Watched.next C) (Watched.Unnoticed C) ⟨start, start⟩ watched) :
    (∀ call : Call F, ¬ call.Replayed watched.steady →
      call.outcome C watched.restarted = call.outcome C watched.steady) ∧
    watched.restarted.system = watched.steady.system ∧ watched.restarted.parameters = watched.steady.parameters ∧
    ∃ validators, watched.restarted.trees = { watched.steady.trees with validators } := by
  obtain ⟨_, twins⟩ : watched.steady.Settled C ∧ Twins watched.steady watched.restarted := by
    refine reach.invariant (fun watched => watched.steady.Settled C ∧ Twins watched.steady watched.restarted)
      ⟨.opened opened formed, .refl start⟩ ?_
    rintro watched event ⟨settled, twins⟩ unnoticed
    exact watched.twins_next settled twins unnoticed
  have fields := twins.fields_eq
  refine ⟨fun call fresh => (call.twins twins fresh).1, ?_, ?_, twins.trees_eq⟩
  · rw [fields]
    rfl
  · rw [fields]
    rfl

end Restarting

/-- Any database opens under the worked configuration, with the worked node's keys. -/
theorem Concrete.opens_same (storage : Storage ℚ) :
    ∃ state, (openCoinState crypto (fun _ => none) config storage).1 = .ok state ∧
      state.operatorSecret = node.operatorSecret ∧ state.operatorPublicKey = node.operatorPublicKey := by
  obtain ⟨key, read⟩ : ∃ key, fixed32 devOperatorSecret = .ok key := ⟨_, eq_ok_get (by decide +kernel)⟩
  have configured : config.operatorSecret = some devOperatorSecret := rfl
  obtain ⟨state, opened, named⟩ :=
    openCoinState_of_secret crypto (fun _ => none) storage configured read rfl fun _ => rfl
  obtain ⟨first, openedFirst, namedFirst⟩ :=
    openCoinState_of_secret crypto (fun _ => none) .empty configured read rfl fun _ => rfl
  have same : first = node := Except.ok.inj (openedFirst.symm.trans opened_node)
  rw [same] at namedFirst
  refine ⟨state, opened, ?_, named.trans namedFirst.symm⟩
  rw [(openCoinState_opened opened).secret_eq _ configured, node_opened.secret_eq _ configured]

/-- Rationals are read back exactly. -/
theorem Concrete.all_reread (state : CoinState ℚ) : state.Reread := ⟨rfl, rfl⟩

/-- A wallet is created and the node restarts; the next wallet is answered as if it had not. -/
theorem restarts_unnoticed_create : ∃ reopened : CoinState ℚ,
    (openCoinState Concrete.crypto (fun _ => none) Concrete.config (Concrete.firstNode (Concrete.key 1)).storage).1 =
      .ok reopened ∧
    (Concrete.firstCall (Concrete.key 2)).outcome Concrete.crypto reopened =
      (Concrete.firstCall (Concrete.key 2)).outcome Concrete.crypto (Concrete.firstNode (Concrete.key 1)) := by
  obtain ⟨reopened, opened, secret, publicKey⟩ := Concrete.opens_same (Concrete.firstNode (Concrete.key 1)).storage
  have keys := Call.sameKeys (C := Concrete.crypto) Concrete.node (Concrete.firstCall (Concrete.key 1))
  have called : Watched.Unnoticed Concrete.crypto ⟨Concrete.node, Concrete.node⟩
      (.call (Concrete.firstCall (Concrete.key 1))) := ⟨trivial, id⟩
  have found : Watched.Unnoticed Concrete.crypto
      (Watched.next Concrete.crypto ⟨Concrete.node, Concrete.node⟩ (.call (Concrete.firstCall (Concrete.key 1))))
      (.restart (fun _ => none) Concrete.config) :=
    ⟨Concrete.all_reread _, reopened, opened, secret.trans keys.operatorSecret_eq.symm,
      publicKey.trans keys.operatorPublicKey_eq.symm⟩
  have ended : Watched.next Concrete.crypto
      (Watched.next Concrete.crypto ⟨Concrete.node, Concrete.node⟩ (.call (Concrete.firstCall (Concrete.key 1))))
      (.restart (fun _ => none) Concrete.config) = ⟨Concrete.firstNode (Concrete.key 1), reopened⟩ :=
    Watched.next_restart opened
  have same := (restarts_unnoticed Concrete.opened_node Concrete.node_formed (.next (.next .start called) found)).1
    (Concrete.firstCall (Concrete.key 2)) id
  rw [ended] at same
  exact ⟨reopened, opened, same⟩

end AggoraCoin
