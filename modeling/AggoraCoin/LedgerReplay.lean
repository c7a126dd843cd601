import AggoraCoin.Archive
import AggoraCoin.Lib.Accounts

namespace AggoraCoin

variable {F : Type}

/-- What a transaction says of the accounts; a change of operators says nothing. -/
def Transaction.entry : Transaction F → Option (LedgerEntry WalletId)
  | mint tx => some (.mint tx.toId tx.amount)
  | transfer tx => some (.transfer tx.fromId tx.toId tx.amount)
  | burn tx => some (.burn tx.fromId tx.amount)
  | iterationCommit tx => some (.settle tx.penalties tx.rewards tx.newWallets
      ((tx.faucetFromPenalty + tx.faucetFromMint) / tx.newWallets.length))
  | operatorChange _ => none

/-- The archived transactions, in the order of the log. -/
def Trees.loggedEntries (t : Trees F) : List (LedgerEntry WalletId) :=
  (t.pohLog.entries.flatMap PohEntry.txIds).filterMap fun txId => (t.transactions.get txId).bind Transaction.entry

def CoinState.replayed (state : CoinState F) : Accounts WalletId := .replay state.trees.loggedEntries

def Wallet.account (wallet : Wallet F) : Account := ⟨wallet.balance, wallet.nonce⟩

def accountsOf (wallets : KeyedTree (Wallet.id (F := F))) : Accounts WalletId := fun id =>
  (wallets.get id).map Wallet.account

/-- The stored wallets, their balances and nonces. -/
def CoinState.accounts (state : CoinState F) : Accounts WalletId := accountsOf state.trees.wallets

/-- What a payload says of the accounts. -/
def Payload.entry : Payload F → LedgerEntry WalletId
  | mint p => .mint p.toId p.amount
  | transfer p => .transfer p.fromId p.toId p.amount
  | burn p => .burn p.fromId p.amount
  | commit c => .settle c.penalties c.rewards c.newWallets
      ((c.faucetFromPenalty + c.faucetFromMint) / c.newWallets.length)

variable [F64 F] {C : Crypto} {state : CoinState F} {inputs : Set Bytes} {values : Set Json}

/-- Two payloads that serialise alike say the same. -/
theorem Payload.entry_eq {p q : Payload F} (same : p.toJson = q.toJson) : p.entry = q.entry := by
  have listed := List.map_injective_iff.mpr pairJson_injective
  have named := List.map_injective_iff.mpr fun (a b : WalletId) (alike : Json.str a = Json.str b) => Json.str.inj alike
  cases p <;> cases q <;>
    simp [Payload.toJson, MintPayload.toJson, TransferPayload.toJson, BurnPayload.toJson, IterationCommit.toJson,
      listed.eq_iff, named.eq_iff] at same
  all_goals simp [Payload.entry, same]

theorem Hashed.entry_eq {txId : Hash} {p q : Payload F} (free : CollisionFree C inputs values)
    (first : Hashed C inputs values txId p) (second : Hashed C inputs values txId q) : p.entry = q.entry := by
  have hashes := C.blake3Hex_inj.mp (first.named.symm.trans second.named)
  have bytes := free.blake3 first.input second.input hashes
  exact Payload.entry_eq (free.toVec first.value second.value bytes)

/-- A posting of an operation, or of a commit whose wallets hold a `u64` together. -/
inductive FundedPosting (C : Crypto) (state : CoinState F) :
    List (Wallet F) → SystemState F → Transaction F → Payload F → Prop
  | operation {wallets : List (Wallet F)} {system : SystemState F} {tx : Transaction F} {payload : Payload F}
      (posting : Posting C state wallets system tx payload) : FundedPosting C state wallets system tx payload
  | commit {parameters : SystemParameters F} {beta : F} {result : IterationResult F}
      (valid : result.Valid C parameters state.system state.operatorId state.listWallets beta)
      (fits : SettlementFits parameters beta state.listWallets)
      (small : (result.wallets.map Wallet.balance).sum ≤ u64Max) :
      FundedPosting C state result.wallets (commitSystem state.system result) (.iterationCommit result.commit)
        (.commit result.commit)

section Posting

variable {wallets : List (Wallet F)} {system : SystemState F} {tx : Transaction F} {payload : Payload F}

theorem FundedPosting.named (posting : FundedPosting C state wallets system tx payload) :
    tx.txId = C.blake3Hex (payload.bytes C) ∧ system.currentTick = state.system.currentTick := by
  cases posting with
  | operation posting => exact ⟨posting.named, (LedgerPosting.operation posting).tick.1⟩
  | commit valid => exact ⟨valid.txId_eq, rfl⟩

/-- The transaction says what its payload says. -/
theorem FundedPosting.entry_eq (posting : FundedPosting C state wallets system tx payload) :
    tx.entry = some payload.entry := by
  cases posting with
  | operation posting =>
    cases posting with
    | create valid =>
      simp only [Transaction.entry, Payload.entry, valid.tx_toId, valid.tx_amount, valid.payload_toId,
        valid.payload_amount]
    | charge valid =>
      simp only [Transaction.entry, Payload.entry, valid.tx_toId, valid.tx_amount, valid.payload_toId,
        valid.payload_amount]
    | transfer valid => simp only [Transaction.entry, Payload.entry, valid.tx_eq, TransferRequest.payload]
    | burn valid => simp only [Transaction.entry, Payload.entry, valid.tx_eq, BurnRequest.payload]
  | commit => rfl

omit [F64 F] in
theorem accountsOf_put (tree : KeyedTree (Wallet.id (F := F))) (wallet : Wallet F) :
    accountsOf (tree.put wallet) = Function.update (accountsOf tree) wallet.id (some wallet.account) := by
  funext id
  by_cases same : id = wallet.id
  · rw [same, Function.update_self, accountsOf, KeyedTree.get_put_self]
    rfl
  · rw [Function.update_of_ne same, accountsOf, KeyedTree.get_put_of_ne _ (Ne.symm same), accountsOf]

omit [F64 F] in
/-- A stored wallet that is written back is an account that changed. -/
theorem accountsOf_put_change {tree : KeyedTree (Wallet.id (F := F))} {before after : Wallet F}
    {f : Account → Account} (stored : tree.get after.id = some before) (changed : after.account = f before.account) :
    accountsOf (tree.put after) = (accountsOf tree).change after.id f := by
  rw [accountsOf_put, Accounts.change, accountsOf, stored, changed]
  rfl

theorem Posting.accounts (posting : Posting C state wallets system tx payload) :
    accountsOf (state.trees.wallets.putAll wallets) = state.accounts.apply payload.entry := by
  cases posting with
  | @create operatorId plan valid =>
    have missing : state.accounts plan.wallet.id = none := congrArg (Option.map Wallet.account) valid.absent
    have fresh : plan.wallet.account = ⟨plan.wallet.balance, 0⟩ := by
      obtain ⟨key, opened⟩ := valid.wallet_eq
      rw [opened]
      rfl
    rw [KeyedTree.putAll_cons, KeyedTree.putAll_nil, accountsOf_put, fresh]
    simp only [Payload.entry, valid.payload_toId, valid.payload_amount, Accounts.apply]
    rw [Accounts.deposit_of_none missing]
    rfl
  | @charge request wallet plan valid fits =>
    have named : plan.wallet.id = request.toId := by
      have own : wallet.id = request.toId := KeyedTree.key_of_get valid.stored
      rw [valid.wallet_eq]
      exact own
    have found : state.accounts request.toId = some wallet.account := congrArg (Option.map Wallet.account) valid.stored
    have credited : plan.wallet.account = Account.credit request.amount wallet.account := by
      simp only [Wallet.account, Account.credit, valid.wallet_eq, Unsigned.saturatingAdd_of_le fits]
    rw [KeyedTree.putAll_cons, KeyedTree.putAll_nil, accountsOf_put_change valid.key credited, named]
    simp only [Payload.entry, valid.payload_toId, valid.payload_amount, Accounts.apply]
    rw [Accounts.deposit_of_some found]
    rfl
  | @transfer security request key fromWallet toWallet plan valid fits =>
    have spent : plan.fromWallet.account = Account.spend request.amount fromWallet.account := by
      rw [valid.fromWallet_eq]
      rfl
    have received : plan.toWallet.account = Account.credit request.amount toWallet.account := by
      have sum := Unsigned.saturatingAdd_of_le fits
      rw [valid.toWallet_eq]
      exact congrArg (Account.mk · toWallet.nonce) sum
    rw [KeyedTree.putAll_cons, KeyedTree.putAll_cons, KeyedTree.putAll_nil,
      accountsOf_put_change valid.receiver received, accountsOf_put_change valid.sender spent, valid.fromKey, valid.toKey]
    rfl
  | @burn security request key wallet plan valid =>
    have spent : plan.wallet.account = Account.spend request.amount wallet.account := by
      rw [valid.wallet_eq]
      rfl
    rw [KeyedTree.putAll_cons, KeyedTree.putAll_nil, accountsOf_put_change valid.sender spent, valid.key_eq]
    rfl

/-- The pool of an iteration opens each new account with the seed. -/
theorem IterationResult.Valid.opening {parameters : SystemParameters F} {beta : F} {result : IterationResult F}
    (valid : result.Valid C parameters state.system state.operatorId state.listWallets beta)
    (small : (result.wallets.map Wallet.balance).sum ≤ u64Max) (opens : result.commit.newWallets ≠ []) :
    (result.commit.faucetFromPenalty + result.commit.faucetFromMint) / result.commit.newWallets.length =
      microSeed parameters := by
  have planned : result.commit.newWallets.length = plannedNewWallets parameters.growth state.listWallets.length := by
    rw [valid.newWallets_eq]
    simp [plannedWallets]
  have positive := List.length_pos_iff.mpr opens
  have seeded : plannedNewWallets parameters.growth state.listWallets.length * microSeed parameters ≤ u64Max := by
    rw [valid.wallets_eq, List.map_append, List.sum_append, plannedWallets_supply] at small
    exact (Nat.le_add_left _ _).trans small
  have pool := (settleIteration_cuts parameters beta state.listWallets).faucet_eq
  rw [Unsigned.saturatingMul_of_le seeded] at pool
  rw [valid.faucetFromPenalty_eq, valid.faucetFromMint_eq, pool, ← planned, Nat.mul_div_cancel_left _ positive]

theorem IterationResult.Valid.settles {parameters : SystemParameters F} {beta : F} {result : IterationResult F}
    (valid : result.Valid C parameters state.system state.operatorId state.listWallets beta)
    (fits : SettlementFits parameters beta state.listWallets)
    (small : (result.wallets.map Wallet.balance).sum ≤ u64Max) :
    accountsOf (state.trees.wallets.putAll result.wallets) =
      state.accounts.apply (Payload.commit result.commit).entry := by
  have distinct : (state.listWallets.map Wallet.id).Nodup := state.trees.wallets.keys_nodup
  have penalties := settleIteration_penalties_length parameters beta state.listWallets
  have rewards := settleIteration_rewards_length parameters beta state.listWallets
  have charged : (result.commit.penalties.map Prod.fst).Nodup := by
    rw [valid.penalties_eq, List.map_fst_zip (by simp [penalties])]
    exact distinct
  have rewarded : (result.commit.rewards.map Prod.fst).Nodup := by
    rw [valid.rewards_eq, List.map_fst_zip (by simp [rewards])]
    exact distinct
  funext id
  simp only [Payload.entry, Accounts.apply]
  rw [valid.wallets_eq, KeyedTree.putAll_append, accountsOf]
  rcases KeyedTree.get_putAll_cases (state.trees.wallets.putAll
      (settleIteration parameters beta state.listWallets).wallets)
      (plannedWallets C parameters state.system state.operatorId state.listWallets.length) id with
    ⟨wallet, member, named, found⟩ | ⟨absent, same⟩
  · have listed : id ∈ result.commit.newWallets := by
      rw [valid.newWallets_eq]
      exact List.mem_map.mpr ⟨wallet, member, named⟩
    obtain ⟨idx, _, rfl⟩ := List.mem_map.mp member
    rw [found, Accounts.openAll_of_mem listed, valid.opening small (List.ne_nil_of_mem listed)]
    rfl
  · have unlisted : id ∉ result.commit.newWallets := by
      rw [valid.newWallets_eq]
      exact absent
    rw [same, Accounts.openAll_of_notMem unlisted]
    cases stored : state.getWallet id with
    | none =>
      have missing : state.accounts id = none := congrArg (Option.map Wallet.account) stored
      rw [(get_putAll_settled_eq_none_iff state parameters beta id).mpr stored,
        Accounts.changeAll_of_none (Accounts.changeAll_of_none missing)]
      rfl
    | some wallet =>
      obtain ⟨i, penalty, reward, found, place, settled⟩ := get_putAll_settled parameters beta stored
      have own : (state.listWallets.map Wallet.id)[i]? = some id := by
        have key : wallet.id = id := KeyedTree.key_of_get stored
        rw [List.getElem?_map, found, Option.map_some, key]
      have penalised : (id, penalty) ∈ result.commit.penalties := by
        rw [valid.penalties_eq]
        exact List.mem_of_getElem? (List.getElem?_zip_eq_some.mpr ⟨own, place.penalty_eq⟩)
      have paid : (id, reward) ∈ result.commit.rewards := by
        rw [valid.rewards_eq]
        exact List.mem_of_getElem? (List.getElem?_zip_eq_some.mpr ⟨own, place.reward_eq⟩)
      have before : state.accounts id = some wallet.account := congrArg (Option.map Wallet.account) stored
      have balance := place.balance found fits
      rw [settled, Accounts.changeAll_of_mem rewarded paid, Accounts.changeAll_of_mem charged penalised, before]
      exact congrArg (fun balance => some (Account.mk balance wallet.nonce)) balance

theorem FundedPosting.accounts (posting : FundedPosting C state wallets system tx payload) :
    accountsOf (state.trees.wallets.putAll wallets) = state.accounts.apply payload.entry := by
  cases posting with
  | operation posting => exact posting.accounts
  | commit valid fits small => exact valid.settles fits small

end Posting

/-- The log goes up to the current tick, every id it lists is archived, and what is archived leads to
the wallets stored. -/
structure CoinState.Replays (C : Crypto) (inputs : Set Bytes) (values : Set Json) (state : CoinState F) : Prop where
  ticked : ∀ entry ∈ state.trees.pohLog.entries, entry.tick ≤ state.system.currentTick
  archived : ∀ entry ∈ state.trees.pohLog.entries, ∀ txId ∈ entry.txIds,
    (state.trees.transactions.get txId).isSome
  hashed : ∀ txId tx, state.trees.transactions.get txId = some tx → ∃ payload : Payload F,
    tx.entry = some payload.entry ∧ Hashed C inputs values txId payload
  replayed : state.replayed = state.accounts

section Run

variable {wallets : List (Wallet F)} {system : SystemState F} {tx : Transaction F} {payload : Payload F}
  {entry : PohEntry}

/-- A posting adds one entry: another record under its id would say the same. -/
theorem CoinState.Replays.loggedEntries_posted (replays : state.Replays C inputs values)
    (free : CollisionFree C inputs values) (posting : FundedPosting C state wallets system tx payload)
    (own : Hashed C inputs values tx.txId payload)
    (anchored : C.Anchors system.lastPohHash (system.currentTick + 1) (payload.bytes C) state.validatorId entry) :
    (state.posted wallets system tx entry).trees.loggedEntries = state.trees.loggedEntries ++ [payload.entry] := by
  have last : (state.trees.pohLog.put entry).entries = state.trees.pohLog.entries ++ [entry] := by
    refine KeyedTree.entries_put_last fun other member => ?_
    have before := replays.ticked other member
    rw [anchored.tick_eq, posting.named.2]
    exact Nat.lt_succ_of_le before
  have listed : entry.txIds = [tx.txId] := by rw [anchored.txIds_eq, posting.named.1]
  rw [Trees.loggedEntries, CoinState.posted_pohLog, CoinState.posted_transactions, last, List.flatMap_append,
    List.filterMap_append, List.flatMap_singleton, listed]
  congr 1
  · refine List.filterMap_congr fun txId member => ?_
    obtain ⟨other, inLog, inEntry⟩ := List.mem_flatMap.mp member
    obtain ⟨old, found⟩ := Option.isSome_iff_exists.mp (replays.archived other inLog txId inEntry)
    by_cases same : tx.txId = txId
    · subst same
      obtain ⟨payload', agrees, hashed⟩ := replays.hashed _ old found
      rw [KeyedTree.get_put_self, found, Option.bind_some, Option.bind_some, posting.entry_eq, agrees,
        hashed.entry_eq free own]
    · rw [KeyedTree.get_put_of_ne _ same]
  · rw [List.filterMap_cons, KeyedTree.get_put_self, Option.bind_some, posting.entry_eq]
    rfl

theorem Move.replays {hashed : Set (Payload F)} {before after : CoinState F}
    (move : Move C (FundedPosting C) hashed before after) (free : CollisionFree C inputs values)
    (collected : ∀ payload ∈ hashed, payload.toJson ∈ values ∧ payload.bytes C ∈ inputs)
    (formed : Crypto.WellFormedSecret before.operatorSecret) (replays : before.Replays C inputs values) :
    after.Replays C inputs values := by
  cases move with
  | @post wallets system tx payload entry posting listed within _ anchored =>
    have own : Hashed C inputs values tx.txId payload :=
      ⟨posting.named.1, (collected payload listed).1, (collected payload listed).2⟩
    constructor
    case ticked =>
      intro other member
      rw [CoinState.posted_pohLog] at member
      rcases KeyedTree.mem_insertEntry member with rfl | old
      · exact anchored.tick_eq.le
      · exact (replays.ticked other old).trans (posting.named.2 ▸ Nat.le_succ _)
    case archived =>
      intro other member txId inEntry
      rw [CoinState.posted_pohLog] at member
      rw [CoinState.posted_transactions]
      by_cases same : tx.txId = txId
      · rw [← same, KeyedTree.get_put_self]
        rfl
      · rw [KeyedTree.get_put_of_ne _ same]
        rcases KeyedTree.mem_insertEntry member with rfl | old
        · rw [anchored.txIds_eq, ← posting.named.1, List.mem_singleton] at inEntry
          exact absurd inEntry.symm same
        · exact replays.archived other old txId inEntry
    case hashed =>
      intro txId found here
      rw [CoinState.posted_transactions] at here
      by_cases same : tx.txId = txId
      · rw [← same, KeyedTree.get_put_self] at here
        cases here
        exact ⟨payload, posting.entry_eq, same ▸ own⟩
      · rw [KeyedTree.get_put_of_ne _ same] at here
        exact replays.hashed txId found here
    case replayed =>
      rw [CoinState.replayed, replays.loggedEntries_posted free posting own anchored, Accounts.replay_concat,
        CoinState.accounts, CoinState.posted_wallets, posting.accounts]
      exact congrArg (Accounts.apply · payload.entry) replays.replayed
  | strand _ _ malformed => exact absurd formed malformed
  | keep keeps =>
    obtain ⟨walletsSame, archiveSame, _, logSame⟩ := keeps.ledger
    constructor
    · rw [logSame, keeps.currentTick_eq]
      exact replays.ticked
    · rw [logSame, archiveSame]
      exact replays.archived
    · rw [archiveSame]
      exact replays.hashed
    · rw [CoinState.replayed, Trees.loggedEntries, logSame, archiveSame, CoinState.accounts, walletsSame]
      exact replays.replayed

theorem Call.fundedMoves {call : Call F} (fits : call.Fits C state) (bound : state.storedSupply ≤ u64Max) :
    Moves C (FundedPosting C) {payload | payload ∈ call.payloads C state} state (call.next C state) := by
  by_cases operation : call.Operation
  · exact (call.moves_of_operation operation fits bound).mono (fun _ _ _ _ _ => .operation) subset_rfl
  · cases call with
    | executeIterationNow =>
      refine executeIterationNow_moves_of (fun beta result valid settlement small => ?_) fits
      rw [← CoinState.listWallets_locked state] at valid settlement
      exact .commit valid settlement small
    | _ => exact absurd trivial operation

theorem Moves.replays {hashed : Set (Payload F)} {before after : CoinState F}
    (moves : Moves C (FundedPosting C) hashed before after) (free : CollisionFree C inputs values)
    (collected : ∀ payload ∈ hashed, payload.toJson ∈ values ∧ payload.bytes C ∈ inputs)
    (formed : Crypto.WellFormedSecret before.operatorSecret) (replays : before.Replays C inputs values) :
    after.Replays C inputs values := by
  induction moves with
  | refl => exact replays
  | tail first move ih =>
    rw [← Moves.operatorSecret_eq first] at formed
    exact move.replays free collected formed ih

theorem OpenedEmpty.replays {config : NodeConfig F} {start : CoinState F} (empty : OpenedEmpty C config start) :
    start.Replays C inputs values := by
  constructor
  · rw [empty.pohLog_eq]
    rintro entry ⟨⟩
  · rw [empty.pohLog_eq]
    rintro entry ⟨⟩
  · rw [empty.transactions_eq]
    rintro txId tx ⟨⟩
  · rw [CoinState.replayed, Trees.loggedEntries, empty.pohLog_eq, CoinState.accounts, empty.wallets_eq]
    rfl

/-- In every run the log and the archive alone lead to the stored wallets, with their balances and
nonces. -/
theorem ledger_replays {env : String → Option String} {config : NodeConfig F} {start : CoinState F}
    (free : CollisionFree C inputs values) (opened : (openCoinState C env config .empty).1 = .ok start)
    (formed : Crypto.WellFormedSecret start.operatorSecret)
    (reach : Reach (fun state call => Call.next C call state)
      (fun state call => call.Fits C state ∧
        ∀ payload ∈ call.payloads C state, payload.toJson ∈ values ∧ payload.bytes C ∈ inputs) start state) :
    state.replayed = state.accounts := by
  have empty := openCoinState_empty opened
  have none_stored : start.storedSupply ≤ u64Max := empty.storedSupply.trans_le (Nat.zero_le _)
  suffices all : state.Replays C inputs values ∧ state.storedSupply ≤ u64Max ∧
      state.operatorSecret = start.operatorSecret from all.1.replayed
  refine reach.invariant (fun s => s.Replays C inputs values ∧ s.storedSupply ≤ u64Max ∧
    s.operatorSecret = start.operatorSecret) ⟨empty.replays, none_stored, rfl⟩ ?_
  rintro before call ⟨replays, bound, secret⟩ ⟨fits, collected⟩
  have moves := call.fundedMoves fits bound
  exact ⟨moves.replays free collected (secret ▸ formed) replays, moves.storedSupply_le bound,
    moves.operatorSecret_eq.trans secret⟩

/-- A burn mints nothing that could fail to fit. -/
theorem Call.burn_fits (C : Crypto) (parameters : SystemParameters F) (request : BurnRequest) (now : Timestamp)
    {state : CoinState F} (bound : state.storedSupply ≤ u64Max) : (Call.burn parameters request now).Fits C state := by
  have next : (Call.burn parameters request now).exactSupply C state =
      (AggoraCoin.burn C parameters request now state).2.storedSupply := rfl
  rw [Call.Fits, next]
  rcases burn_cases C state parameters request now with ⟨e, _, ran⟩ | ⟨plan, _, wallet, reply, _, valid, posts⟩
  · rw [ran]
    exact bound
  · rw [CoinState.storedSupply, posts.wallets_eq]
    exact (Nat.le.intro valid.total).trans bound

open Concrete in
theorem burnCall_fits : burnCall.Fits crypto (firstNode (key 7)) :=
  Call.burn_fits crypto parameters (ownBurn 1) 0 ((firstNode_storedSupply (key 7)).trans_le (by decide))

open Concrete in
/-- The log of a mint and a burn. -/
theorem ledger_replays_burn : burntNode.replayed = burntNode.accounts :=
  ledger_replays ledger_free opened_node node_formed
    (.next (.next .start ⟨firstCall_fits (key 7), firstCall_collected.listed⟩)
      ⟨burnCall_fits, (burnCall_collected (firstNode (key 7))).listed⟩)

end Run

end AggoraCoin
