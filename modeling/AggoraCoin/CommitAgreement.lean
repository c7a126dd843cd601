import AggoraCoin.Iteration.Stored
import AggoraCoin.Concrete
import AggoraCoin.Lib.Reach
import AggoraCoin.Opening

namespace AggoraCoin

variable {F : Type} [F64 F] {C : Crypto} {state : CoinState F} {parameters : SystemParameters F}

/-- The ids of the wallets an iteration over `nWallets` wallets opens. -/
def faucetIds (C : Crypto) (parameters : SystemParameters F) (iterationId : IterationId) (nWallets : Nat) :
    List WalletId :=
  (List.range (plannedNewWallets parameters.growth nWallets)).map fun idx =>
    C.blake3Hex (faucetKey C iterationId idx).val

theorem plannedWallets_ids (C : Crypto) (parameters : SystemParameters F) (system : SystemState F)
    (operatorId : OperatorId) (nWallets : Nat) :
    (plannedWallets C parameters system operatorId nWallets).map Wallet.id =
      faucetIds C parameters (system.currentIteration + 1) nWallets := by
  simp [plannedWallets, faucetIds, Function.comp_def, plannedWallet, Wallet.fresh]

/-- The faucet's ids for the next iteration are pairwise distinct and none of them is stored. -/
structure FaucetIdsFree (C : Crypto) (parameters : SystemParameters F) (state : CoinState F) : Prop where
  distinct : (faucetIds C parameters (state.system.currentIteration + 1) state.listWallets.length).Nodup
  absent : ∀ id ∈ faucetIds C parameters (state.system.currentIteration + 1) state.listWallets.length,
    state.getWallet id = none

/-- The fields an iteration may not touch. -/
structure Wallet.SameOrigin (old new : Wallet F) : Prop where
  id_eq : new.id = old.id
  pubkey_eq : new.pubkey = old.pubkey
  nonce_eq : new.nonce = old.nonce
  createdAtTick_eq : new.createdAtTick = old.createdAtTick
  createdAtIteration_eq : new.createdAtIteration = old.createdAtIteration
  createdByOperator_eq : new.createdByOperator = old.createdByOperator

/-- The commit tells the truth about the ledger before and after it. -/
structure CommitAgrees (before : CoinState F) (commit : IterationCommit F) (after : CoinState F) : Prop where
  supply : after.system.totalSupply = commit.postSupply
  stored : commit.postSupply = after.storedSupply
  count : after.system.nWallets = after.trees.wallets.size
  kept : ∀ wallet : Wallet F, before.getWallet wallet.id = some wallet →
    ∃ (penalty reward : MicroAgc) (settled : Wallet F),
      (wallet.id, penalty) ∈ commit.penalties ∧ (wallet.id, reward) ∈ commit.rewards ∧
      after.getWallet wallet.id = some settled ∧ wallet.SameOrigin settled ∧
      penalty ≤ wallet.balance ∧ settled.balance = wallet.balance - penalty + reward
  added : ∀ id, (after.getWallet id).isSome ↔ (before.getWallet id).isSome ∨ id ∈ commit.newWallets
  fresh : ∀ id ∈ commit.newWallets, before.getWallet id = none

section Committed

variable {beta : F} {result : IterationResult F}

theorem SettledAt.sameOrigin {wallets : List (Wallet F)} {i : Nat} {wallet settled : Wallet F}
    {penalty reward : MicroAgc} (place : SettledAt parameters beta wallets i wallet penalty reward settled) :
    wallet.SameOrigin settled := by
  rw [place.settled_eq]
  exact ⟨rfl, rfl, rfl, rfl, rfl, rfl⟩

theorem size_putAll_settled (state : CoinState F) (parameters : SystemParameters F) (beta : F) :
    (state.trees.wallets.putAll (settleIteration parameters beta state.listWallets).wallets).size =
      state.listWallets.length := by
  rw [KeyedTree.size, entries_putAll_settled, settleIteration_wallets_length]

variable (C parameters state beta result) in
/-- What an iteration that commits `result` writes over `state`. -/
structure Committed (commit : IterationCommit F) (after : CoinState F) : Prop where
  valid : result.Valid C parameters state.locked.system state.operatorId state.listWallets beta
  fits : SettlementFits parameters beta state.listWallets
  small : (result.wallets.map Wallet.balance).sum ≤ u64Max
  wallets : after.trees.wallets = state.trees.wallets.putAll result.wallets
  counted : after.system.nWallets = result.wallets.length
  supplied : after.system.totalSupply = result.commit.postSupply
  commit_eq : result.commit = commit

namespace Committed

variable {commit : IterationCommit F} {after : CoinState F}

/-- The counters of a commit are those of its result list. -/
theorem faucetIdsFree (committed : Committed C state parameters beta result commit after)
    (agrees : CommitAgrees state commit after) : FaucetIdsFree C parameters state := by
  have ids := plannedWallets_ids C parameters state.locked.system state.operatorId state.listWallets.length
  have count := agrees.count
  rw [committed.counted, committed.wallets, committed.valid.wallets_eq, KeyedTree.putAll_append, List.length_append,
    settleIteration_wallets_length] at count
  constructor
  · have old := size_putAll_settled state parameters beta
    exact ids ▸ (KeyedTree.size_putAll_eq_iff.mp (count.symm.trans (congrArg (· + _) old.symm))).1
  · intro id member
    refine agrees.fresh id ?_
    rw [← committed.commit_eq, committed.valid.newWallets_eq, ids]
    exact member

theorem agrees (committed : Committed C state parameters beta result commit after)
    (free : FaucetIdsFree C parameters state) : CommitAgrees state commit after := by
  obtain ⟨valid, fits, small, wallets, counted, supplied, rfl⟩ := committed
  have ids := plannedWallets_ids C parameters state.locked.system state.operatorId state.listWallets.length
  have newIds : result.commit.newWallets =
      faucetIds C parameters (state.system.currentIteration + 1) state.listWallets.length :=
    valid.newWallets_eq.trans ids
  rw [valid.wallets_eq, KeyedTree.putAll_append] at wallets
  have absent : ∀ wallet ∈ plannedWallets C parameters state.locked.system state.operatorId state.listWallets.length,
      (state.trees.wallets.putAll (settleIteration parameters beta state.listWallets).wallets).get wallet.id = none := by
    intro wallet member
    refine (get_putAll_settled_eq_none_iff state parameters beta wallet.id).mpr (free.absent wallet.id ?_)
    exact ids ▸ List.mem_map_of_mem member
  have distinct : ((plannedWallets C parameters state.locked.system state.operatorId
      state.listWallets.length).map Wallet.id).Nodup := by
    rw [ids]
    exact free.distinct
  constructor
  case supply => exact supplied
  case stored =>
    rw [valid.postSupply_eq, Unsigned.wrappingSum_of_le small, CoinState.storedSupply, wallets,
      KeyedTree.total_putAll_fresh _ distinct absent, KeyedTree.total, entries_putAll_settled, valid.wallets_eq,
      List.map_append, List.sum_append]
  case count =>
    rw [counted, wallets, KeyedTree.size_putAll_eq_iff.mpr ⟨distinct, absent⟩, size_putAll_settled, valid.wallets_eq,
      List.length_append, settleIteration_wallets_length]
  case kept =>
    intro wallet stored
    obtain ⟨i, penalty, reward, found, place, settled⟩ := get_putAll_settled parameters beta stored
    have named : (state.listWallets.map Wallet.id)[i]? = some wallet.id := by
      rw [List.getElem?_map, found]
      rfl
    refine ⟨penalty, reward, _, ?_, ?_, ?_, place.sameOrigin, place.penalty_le, place.balance found fits⟩
    · rw [valid.penalties_eq]
      exact List.mem_of_getElem? (List.getElem?_zip_eq_some.mpr ⟨named, place.penalty_eq⟩)
    · rw [valid.rewards_eq]
      exact List.mem_of_getElem? (List.getElem?_zip_eq_some.mpr ⟨named, place.reward_eq⟩)
    · have old : wallet.id ∉ (plannedWallets C parameters state.locked.system state.operatorId
          state.listWallets.length).map Wallet.id := by
        intro member
        have missing := free.absent wallet.id (ids ▸ member)
        rw [stored] at missing
        cases missing
      rw [CoinState.getWallet, wallets, KeyedTree.get_putAll_of_notMem old]
      exact settled
  case added =>
    intro id
    have scan := get_putAll_settled_eq_none_iff state parameters beta id
    rw [CoinState.getWallet, wallets, KeyedTree.isSome_get_putAll, ids, newIds]
    refine or_congr_left ?_
    simp only [Option.isSome_iff_ne_none, ne_eq, scan]
  case fresh =>
    intro id member
    exact free.absent id (newIds ▸ member)

end Committed

variable {now snapshotNow : Timestamp} {commit : IterationCommit F}

theorem committed_of_returned (fits : (Call.executeIterationNow parameters now snapshotNow).Fits C state)
    (returned : (executeIterationNow C parameters now snapshotNow state).1 = .ok commit) :
    ∃ beta result, Committed C state parameters beta result commit
      (executeIterationNow C parameters now snapshotNow state).2 := by
  rcases executeIterationNow_cases C state parameters now snapshotNow with ⟨_, ran⟩ | ⟨unlocked, iterates⟩
  · rw [ran] at returned
    cases returned
  generalize executeIterationNow C parameters now snapshotNow state = finished at *
  cases iterates with
  | panicked => cases returned
  | stranded => cases returned
  | @committed beta result entry closing ran valid formed anchored closes =>
    cases returned
    obtain ⟨settlement, small⟩ := valid.fits now snapshotNow unlocked ran fits
    refine ⟨beta, result, valid, settlement, small, ?_, rfl, rfl, rfl⟩
    rw [CoinState.trees_writeAll, (Trees.sameLedger_applyAll (by simpa [Write.aside] using closes.aside) _).wallets_eq,
      CoinState.posted_wallets, (CoinState.sameLedger_locked state).wallets_eq]

/-- A commit that comes back agrees with the ledger where the faucet's ids were free. -/
theorem executeIterationNow_agrees (fits : (Call.executeIterationNow parameters now snapshotNow).Fits C state)
    (returned : (executeIterationNow C parameters now snapshotNow state).1 = .ok commit)
    (free : FaucetIdsFree C parameters state) :
    CommitAgrees state commit (executeIterationNow C parameters now snapshotNow state).2 := by
  obtain ⟨beta, result, committed⟩ := committed_of_returned fits returned
  exact committed.agrees free

end Committed

/-- In any state, whatever calls led to it, a commit that comes back agrees with the stored ledger exactly
when the faucet's ids were free. -/
theorem commitAgrees_iff {now snapshotNow : Timestamp} {commit : IterationCommit F}
    (fits : (Call.executeIterationNow parameters now snapshotNow).Fits C state)
    (returned : (executeIterationNow C parameters now snapshotNow state).1 = .ok commit) :
    CommitAgrees state commit (executeIterationNow C parameters now snapshotNow state).2 ↔
      FaucetIdsFree C parameters state := by
  obtain ⟨beta, result, committed⟩ := committed_of_returned fits returned
  exact ⟨committed.faucetIdsFree, committed.agrees⟩

namespace Concrete

/-- The first iteration of a node with one wallet always commits. -/
theorem firstCommit (key : FixedBytes 32) :
    ∃ beta result, (executeIterationNow crypto Concrete.parameters 0 0 (firstNode key)).1 = .ok result.commit ∧
      executeIteration crypto (firstNode key).listWallets Concrete.parameters (firstNode key).locked.system
        (firstNode key).operatorId = .ok result ∧
      result.Valid crypto Concrete.parameters (firstNode key).locked.system (firstNode key).operatorId
        (firstNode key).listWallets beta := by
  obtain ⟨unlocked, _, _, secret⟩ := firstNode_system key
  have ordered : F64.le Concrete.parameters.economy.burnMin Concrete.parameters.economy.burnMax = true := by decide +kernel
  rcases executeIterationNow_cases crypto (firstNode key) Concrete.parameters 0 0 with ⟨busy, _⟩ | ⟨_, iterates⟩
  · rw [unlocked] at busy
    cases busy
  generalize executeIterationNow crypto Concrete.parameters 0 0 (firstNode key) = finished at *
  cases iterates with
  | panicked unordered =>
    rw [ordered] at unordered
    cases unordered
  | stranded _ _ malformed => exact absurd (secret ▸ node_formed) malformed
  | committed ran valid _ _ _ => exact ⟨_, _, rfl, ran, valid⟩

theorem firstNode_reach (key : FixedBytes 32) :
    Reach (fun state call => Call.next crypto call state) (fun state call => call.Fits crypto state) node
      (firstNode key) :=
  .next .start (firstCall_fits key)

theorem firstIteration_fits (key : FixedBytes 32)
    (small : 10000000 + (settleIteration Concrete.parameters (9 / 100)
        [firstWallet crypto Concrete.parameters operator key]).rewards.sum +
      plannedNewWallets Concrete.parameters.growth 1 * microSeed Concrete.parameters ≤ u64Max) :
    (Call.executeIterationNow Concrete.parameters 0 0).Fits crypto (firstNode key) := by
  obtain ⟨unlocked, _, previous, _⟩ := firstNode_system key
  obtain ⟨beta, result, _, ran, valid⟩ := firstCommit key
  have still : measuredInflation (firstNode key).locked.system = 0 := by
    simp only [measuredInflation, CoinState.locked, CoinState.storeState, CoinState.system_writeAll,
      CoinState.system_withSystem, previous, gt_iff_lt, lt_irrefl, if_false]
    rfl
  have nine : burnRate Concrete.parameters.economy (0 : ℚ) = some (9 / 100) := by decide +kernel
  have rate := valid.rate
  rw [still, nine] at rate
  cases rate
  unfold Call.Fits
  rw [valid.exactSupply 0 0 unlocked ran, firstNode_storedSupply, firstNode_listWallets]
  exact (Nat.sub_le _ _).trans small

end Concrete

/-- A wallet registered under the faucet's next key is overwritten: the commit lists its id as
new, though it was stored. -/
theorem commitAgrees_overwritten :
    ∃ (config : NodeConfig ℚ) (start state : CoinState ℚ) (commit : IterationCommit ℚ),
      (openCoinState Concrete.crypto (fun _ => none) config .empty).1 = .ok start ∧
      Reach (fun state call => Call.next Concrete.crypto call state)
        (fun state call => call.Fits Concrete.crypto state) start state ∧
      (Call.executeIterationNow Concrete.parameters 0 0).Fits Concrete.crypto state ∧
      (executeIterationNow Concrete.crypto Concrete.parameters 0 0 state).1 = .ok commit ∧
      ¬ CommitAgrees state commit (executeIterationNow Concrete.crypto Concrete.parameters 0 0 state).2 := by
  obtain ⟨beta, result, returned, _, valid⟩ := Concrete.firstCommit (faucetKey Concrete.crypto 1 0)
  refine ⟨Concrete.config, Concrete.node, Concrete.firstNode (faucetKey Concrete.crypto 1 0), result.commit,
    Concrete.opened_node, Concrete.firstNode_reach _, Concrete.firstIteration_fits _ (by decide +kernel), returned, ?_⟩
  intro agrees
  have listed : Concrete.crypto.blake3Hex (faucetKey Concrete.crypto 1 0).val ∈ result.commit.newWallets := by
    have iteration := (Concrete.firstNode_system (faucetKey Concrete.crypto 1 0)).2.1
    have one : plannedNewWallets Concrete.parameters.growth 1 = 1 := by decide +kernel
    rw [valid.newWallets_eq, plannedWallets_ids, Concrete.firstNode_listWallets, faucetIds]
    simp only [CoinState.locked, CoinState.storeState, CoinState.system_writeAll, CoinState.system_withSystem,
      iteration, List.length_singleton, one]
    exact List.mem_singleton.mpr rfl
  have missing := agrees.fresh _ listed
  rw [CoinState.getWallet, Concrete.firstNode_wallets] at missing
  rw [show Concrete.crypto.blake3Hex (faucetKey Concrete.crypto 1 0).val = (firstWallet Concrete.crypto
    Concrete.parameters Concrete.operator (faucetKey Concrete.crypto 1 0)).id from rfl, KeyedTree.get_put_self] at missing
  cases missing

/-- A wallet under an ordinary key is kept, and the commit agrees with the ledger it leaves. -/
theorem commitAgrees_iff_ordinary :
    ∃ commit, (executeIterationNow Concrete.crypto Concrete.parameters 0 0
        (Concrete.firstNode (Concrete.key 1))).1 = .ok commit ∧
      CommitAgrees (Concrete.firstNode (Concrete.key 1)) commit
        (executeIterationNow Concrete.crypto Concrete.parameters 0 0 (Concrete.firstNode (Concrete.key 1))).2 := by
  obtain ⟨beta, result, returned, _, valid⟩ := Concrete.firstCommit (Concrete.key 1)
  refine ⟨result.commit, returned, (commitAgrees_iff (Concrete.firstIteration_fits _ (by decide +kernel))
    returned).mpr ⟨?_, ?_⟩⟩
  · rw [Concrete.firstNode_listWallets, (Concrete.firstNode_system _).2.1]
    decide +kernel
  · rw [Concrete.firstNode_listWallets, (Concrete.firstNode_system _).2.1]
    intro id member
    have one : plannedNewWallets Concrete.parameters.growth 1 = 1 := by decide +kernel
    have apart : Concrete.crypto.blake3 (Concrete.key 1).val ≠
        Concrete.crypto.blake3 (faucetKey Concrete.crypto 1 0).val := by decide +kernel
    rw [faucetIds, List.length_singleton, one] at member
    rw [List.mem_singleton.mp member, CoinState.getWallet, Concrete.firstNode_wallets, KeyedTree.get_put_of_ne]
    · rfl
    · exact fun same => apart (Concrete.crypto.blake3Hex_inj.mp same)

end AggoraCoin
