import AggoraCoin.SeedFiles
import AggoraCoin.TamperEvidence

namespace AggoraCoin

variable {F : Type} [F64 F] {C : Crypto} {state : CoinState F}

omit [F64 F] in
def Write.walletOf : Write F → Option (Wallet F)
  | .wallet w => some w
  | _ => none

omit [F64 F] in
theorem Trees.applyAll_walletOf (t : Trees F) (writes : List (Write F)) :
    (t.applyAll writes).wallets = t.wallets.putAll (writes.filterMap Write.walletOf) := by
  induction writes generalizing t with
  | nil => rfl
  | cons write rest ih =>
    rw [applyAll_cons, ih]
    cases write <;> rfl

/-- A first part of a list either stops before a given place or holds it. -/
theorem prefix_or_mem {α : Type} {kept before after : List α} {a : α} (cut : kept <+: before ++ a :: after) :
    kept <+: before ∨ before ++ [a] <+: kept := by
  have place : before ++ [a] <+: before ++ a :: after := by simp
  rcases List.prefix_or_prefix_of_prefix cut place with short | long
  · rcases List.prefix_concat_iff.mp short with rfl | short
    · exact Or.inr List.prefix_rfl
    · exact Or.inl short
  · exact Or.inr long

theorem prefix_of_filterMap_eq_nil {α β : Type} {f : α → Option β} {kept before after : List α} {a : α}
    (cut : kept <+: before ++ a :: after) (none : kept.filterMap f = []) (found : (f a).isSome) : kept <+: before := by
  rcases prefix_or_mem cut with short | long
  · exact short
  · have member : a ∈ kept := long.subset (by simp)
    rw [List.filterMap_eq_nil_iff.mp none a member] at found
    cases found

omit [F64 F] in
theorem walletOf_walletWrites (sheet : Sheet F) :
    (sheet.wallets.map Write.wallet ++ transactionWrites sheet.tx (sheet.system.currentTick + 1)).filterMap
      Write.walletOf = sheet.wallets := by
  have wallets : (sheet.wallets.map Write.wallet).filterMap Write.walletOf = sheet.wallets := by
    simp only [List.filterMap_map]
    exact List.filterMap_some
  have nothing : (transactionWrites sheet.tx (sheet.system.currentTick + 1)).filterMap Write.walletOf = [] := by
    refine List.filterMap_eq_nil_iff.mpr fun write member => ?_
    rcases List.mem_cons.mp member with rfl | indexing
    · rfl
    · obtain ⟨key, _, rfl⟩ := List.mem_map.mp indexing
      rfl
  rw [List.filterMap_append, wallets, nothing, List.append_nil]

omit [F64 F] in
/-- As long as the PoH entry is not there, the wallets are those the sheet writes first. -/
theorem walletOf_cut {sheet : Sheet F} {entry : PohEntry} {kept rest : List (Write F)}
    (cut : kept <+: CoinState.entryWrites sheet entry ++ rest) (unlogged : kept.filterMap Write.logged = []) :
    kept.filterMap Write.walletOf <+: sheet.wallets := by
  have split : CoinState.entryWrites sheet entry ++ rest = (sheet.wallets.map Write.wallet ++
      transactionWrites sheet.tx (sheet.system.currentTick + 1)) ++ .pohEntry entry :: rest := by
    simp [CoinState.entryWrites, CoinState.postingWrites]
  rw [split] at cut
  have short := (prefix_of_filterMap_eq_nil cut unlogged rfl).filterMap Write.walletOf
  rwa [walletOf_walletWrites] at short

variable (C) in
/-- The writes of a call that are durable when it crashes. -/
def Call.durable (call : Call F) (state : CoinState F) (count : Nat) : List (Write F) :=
  (call.writes C state).take count

variable (C) in
/-- The disk after a crash inside a call. -/
def Call.crashed (call : Call F) (state : CoinState F) (count : Nat) : Storage F :=
  (call.next C state).storage.crash (state.storage.journal.length + count)

theorem Call.crashed_eq (call : Call F) (count : Nat) :
    call.crashed C state count = state.storage.writeAll (call.durable C state count) := by
  rw [crashed, call.storage_eq, Storage.crash, Storage.journal_writeAll, List.take_length_add_append]
  rfl

theorem Call.durable_first (call : Call F) (count : Nat) : call.durable C state count <+: call.writes C state :=
  List.take_prefix _ _

/-- What a node that was just opened must show: its supply is what the wallets hold, the lock is
free, and the log has the ticks up to the current one and ends at the tip. -/
structure CoinState.Consistent (state : CoinState F) : Prop where
  supply : state.system.totalSupply = state.storedSupply
  unlocked : state.system.iterationLock = false
  ticks : state.trees.pohLog.entries.map PohEntry.tick = List.range' 1 state.system.currentTick
  tip : state.system.lastPohHash = HashChain.tipOf PohEntry.hash zeroHashHex state.trees.pohLog.entries

variable (C) in
/-- The balance of the first wallet that a seed file opens. -/
def firstSeeded (parameters : SystemParameters F) (state : CoinState F) : List SeedWallet → Option MicroAgc
  | [] => none
  | entry :: rest =>
    match fixed32 entry.publicKey with
    | .error _ => none
    | .ok key =>
      if (state.getWallet (C.blake3Hex key.val)).isSome then firstSeeded parameters state rest
      else some (entry.initialBalance.getD (microSeed parameters))

variable (C) in
/-- The first wallet that the call opens is opened empty. -/
def Call.OpensEmpty (state : CoinState F) : Call F → Prop
  | .createWallet parameters _ _ _ _ => microSeed parameters = 0
  | .installSeed parameters seed _ => firstSeeded C parameters state seed.initialWallets = some 0
  | _ => False

/-- How often a call that completes stores the system state. -/
def Call.stores : Call F → Nat
  | .executeIterationNow _ _ _ => 2
  | _ => 1

variable (C) in
/-- The lock was free before the call, and either the call had stored its system state, or it had
written no PoH entry and of the wallets none, both of a transfer, or one that holds nothing. -/
structure Recoverable (call : Call F) (state : CoinState F) (durable : List (Write F)) : Prop where
  unlocked : state.system.iterationLock = false
  whole : (durable.filterMap Write.stateOf).length = call.stores ∨
    durable.filterMap Write.stateOf = [] ∧ durable.filterMap Write.logged = [] ∧
      (durable.filterMap Write.walletOf = [] ∨ (durable.filterMap Write.walletOf).length = 2 ∨
        call.OpensEmpty C state)

/-- What `open` reads off the disk fits together, but for the lock. -/
structure Storage.Steady (storage : Storage F) : Prop where
  supply : (recoveredSystem storage.trees.state).totalSupply = storage.trees.wallets.total Wallet.balance
  bound : storage.trees.wallets.total Wallet.balance ≤ u64Max
  ticks : (storage.journal.filterMap Write.logged).map PohEntry.tick =
    List.range' 1 (recoveredSystem storage.trees.state).currentTick
  tip : (recoveredSystem storage.trees.state).lastPohHash =
    HashChain.tipOf PohEntry.hash zeroHashHex (storage.journal.filterMap Write.logged)

/-- A node whose disk is in step and holds its system state. -/
structure CoinState.Steady (state : CoinState F) : Prop where
  disk : state.storage.Steady
  stored : state.trees.state = some state.system
  named : state.system.lastPohHash.isEmpty = false
  formed : Crypto.WellFormedSecret state.operatorSecret

namespace CoinState.Steady

theorem recovered (steady : state.Steady) : recoveredSystem state.storage.trees.state = state.system.reread := by
  rw [show state.storage.trees.state = some state.system from steady.stored]
  exact recoveredSystem_of_named steady.named

theorem supply (steady : state.Steady) : state.system.totalSupply = state.storedSupply := by
  have disk := steady.disk.supply
  rwa [steady.recovered] at disk

theorem bound (steady : state.Steady) : state.storedSupply ≤ u64Max := steady.disk.bound

theorem ticks (steady : state.Steady) :
    state.log.map PohEntry.tick = List.range' 1 state.system.currentTick := by
  have disk := steady.disk.ticks
  rwa [steady.recovered] at disk

theorem tip (steady : state.Steady) :
    state.system.lastPohHash = HashChain.tipOf PohEntry.hash zeroHashHex state.log := by
  have disk := steady.disk.tip
  rwa [steady.recovered] at disk

/-- A node that is in step with its disk, read field by field. -/
theorem of_fields (supply : state.system.totalSupply = state.storedSupply) (bound : state.storedSupply ≤ u64Max)
    (ticks : state.log.map PohEntry.tick = List.range' 1 state.system.currentTick)
    (tip : state.system.lastPohHash = HashChain.tipOf PohEntry.hash zeroHashHex state.log)
    (stored : state.trees.state = some state.system) (named : state.system.lastPohHash.isEmpty = false)
    (formed : Crypto.WellFormedSecret state.operatorSecret) : state.Steady := by
  have recovered : recoveredSystem state.storage.trees.state = state.system.reread := by
    rw [show state.storage.trees.state = some state.system from stored]
    exact recoveredSystem_of_named named
  refine ⟨⟨?_, bound, ?_, ?_⟩, stored, named, formed⟩
  · rw [recovered]
    exact supply
  · rw [recovered]
    exact ticks
  · rw [recovered]
    exact tip

end CoinState.Steady

/-- The cached supply follows the wallets of a posting. -/
theorem Posting.cachedSupply {wallets : List (Wallet F)} {system : SystemState F} {tx : Transaction F}
    {payload : Payload F} (posting : Posting C state wallets system tx payload)
    (supply : state.system.totalSupply = state.storedSupply)
    (within : (state.trees.wallets.putAll wallets).total Wallet.balance ≤ u64Max) :
    system.totalSupply = (state.trees.wallets.putAll wallets).total Wallet.balance := by
  cases posting with
  | create valid =>
    simp only [KeyedTree.putAll_cons, KeyedTree.putAll_nil, valid.total, ← supply] at within ⊢
    exact Unsigned.saturatingAdd_of_le within
  | charge valid fits =>
    simp only [KeyedTree.putAll_cons, KeyedTree.putAll_nil, valid.total fits, ← supply] at within ⊢
    exact Unsigned.saturatingAdd_of_le within
  | transfer valid fits =>
    simp only [KeyedTree.putAll_cons, KeyedTree.putAll_nil, valid.total fits]
    exact supply
  | @burn security request key wallet plan valid =>
    have total := valid.total
    simp only [KeyedTree.putAll_cons, KeyedTree.putAll_nil]
    change state.system.totalSupply - request.amount = _
    rw [supply]
    lia

theorem Move.cachedSupply {hashed : Set (Payload F)} {before after : CoinState F}
    (move : Move C (Posting C) hashed before after) (supply : before.system.totalSupply = before.storedSupply) :
    after.system.totalSupply = after.storedSupply := by
  cases move with
  | post posting _ within _ _ =>
    have fitting := posting.cachedSupply supply within
    rwa [← CoinState.posted_wallets] at fitting
  | strand posting within _ =>
    have fitting := posting.cachedSupply supply within
    rwa [← CoinState.stranded_wallets] at fitting
  | keep keeps =>
    rw [keeps.totalSupply_eq, CoinState.storedSupply, keeps.ledger.wallets_eq]
    exact supply

variable (C) in
/-- The supply a call leads to fits, and the ids of its faucet are free. -/
def Call.Exact (call : Call F) (state : CoinState F) : Prop :=
  call.Fits C state ∧
    match call with
    | .executeIterationNow parameters _ _ => FaucetIdsFree C parameters state
    | _ => True

/-- An iteration that can sign leaves the cached supply exact where the faucet's ids are free. -/
theorem executeIterationNow_cachedSupply {parameters : SystemParameters F} {now snapshotNow : Timestamp}
    (supply : state.system.totalSupply = state.storedSupply) (formed : Crypto.WellFormedSecret state.operatorSecret)
    (fits : (Call.executeIterationNow parameters now snapshotNow).Fits C state)
    (free : FaucetIdsFree C parameters state) :
    (executeIterationNow C parameters now snapshotNow state).2.system.totalSupply =
      (executeIterationNow C parameters now snapshotNow state).2.storedSupply := by
  have agreed {commit : IterationCommit F}
      (returned : (executeIterationNow C parameters now snapshotNow state).1 = .ok commit) :
      (executeIterationNow C parameters now snapshotNow state).2.system.totalSupply =
        (executeIterationNow C parameters now snapshotNow state).2.storedSupply := by
    have agrees := executeIterationNow_agrees fits returned free
    exact agrees.supply.trans agrees.stored
  rcases executeIterationNow_cases C state parameters now snapshotNow with ⟨_, ran⟩ | ⟨_, iterates⟩
  · rw [ran]
    exact supply
  generalize executeIterationNow C parameters now snapshotNow state = finished at *
  cases iterates with
  | panicked =>
    rw [CoinState.storedSupply, (CoinState.sameLedger_locked state).wallets_eq]
    exact supply
  | committed => exact agreed rfl
  | stranded _ _ malformed => exact absurd formed malformed

theorem Call.cachedSupply {call : Call F} (fitting : call.Exact C state) (steady : state.Steady) :
    (call.next C state).system.totalSupply = (call.next C state).storedSupply := by
  obtain ⟨fits, condition⟩ := fitting
  have operated (operation : call.Operation) :
      (call.next C state).system.totalSupply = (call.next C state).storedSupply :=
    (call.moves_of_operation operation fits steady.bound).invariant
      (fun s => s.system.totalSupply = s.storedSupply) steady.supply fun _ _ move => move.cachedSupply
  cases call with
  | executeIterationNow => exact executeIterationNow_cachedSupply steady.supply steady.formed fits condition
  | _ => exact operated trivial

/-- Every entry moves the tip to its own hash. -/
theorem Call.tip (call : Call F) (steady : state.Steady) :
    (call.next C state).system.lastPohHash =
        HashChain.tipOf PohEntry.hash zeroHashHex (call.next C state).log ∧
      (call.next C state).system.lastPohHash.isEmpty = false := by
  refine call.steps.invariant_of_formed
    (fun s => s.system.lastPohHash = HashChain.tipOf PohEntry.hash zeroHashHex s.log ∧
      s.system.lastPohHash.isEmpty = false) steady.formed ⟨steady.tip, steady.named⟩ ?_ ?_
  · intro before booking sheet entry _ _ anchored _
    have moved : (before.enter sheet entry).system.lastPohHash = entry.hash := rfl
    rw [CoinState.enter_log, HashChain.tipOf_snoc, moved, anchored.hash_eq]
    exact ⟨rfl, C.blake3Hex_named _⟩
  · rintro before after quiet ⟨tip, named⟩
    obtain ⟨lock, same⟩ := quiet.system
    rw [same, quiet.past.2.1]
    exact ⟨tip, named⟩

/-- A call that stores the system state it leaves keeps the disk in step. -/
theorem Call.steady {call : Call F} (fitting : call.Exact C state) (steady : state.Steady)
    (stored : (call.next C state).trees.state = some (call.next C state).system) : (call.next C state).Steady := by
  obtain ⟨tip, named⟩ := call.tip (C := C) steady
  have script := call.script_writes C state
  refine .of_fields (call.cachedSupply fitting steady) ?_ (script.ticks steady.formed steady.ticks) tip stored named ?_
  · exact (call.moves fitting.1 steady.bound).storedSupply_le steady.bound
  · rw [(Call.sameKeys (C := C) state call).operatorSecret_eq]
    exact steady.formed

theorem Call.Careful.exact {call : Call F} (careful : call.Careful C state) : call.Exact C state := by
  obtain ⟨fits, condition⟩ := careful
  refine ⟨fits, ?_⟩
  cases call with
  | executeIterationNow => exact condition
  | _ => trivial

theorem Call.Careful.steady {call : Call F} (careful : call.Careful C state) (steady : state.Steady) :
    (call.next C state).Steady := by
  refine Call.steady careful.exact steady ?_
  have script := call.script_writes C state
  cases call with
  | installSeed parameters seed clock =>
    change (AggoraCoin.installSeed C parameters seed clock state).2.trees.state =
      some (AggoraCoin.installSeed C parameters seed clock state).2.system
    rcases installSeed_cases C state parameters clock seed with ⟨_, left⟩ | ⟨_, _, _, left⟩ | ⟨_, stopped, outcome, _⟩
    · rw [left]
      exact steady.stored
    · rw [left]
      exact CoinState.stored_storeState _
    · rw [installSeed_unchanged (outcome ▸ stopped) careful.2]
      exact steady.stored
  | updateParameters =>
    refine script.stored steady.formed ?_ steady.stored
    rintro booking ⟨⟩
  | _ =>
    refine script.stored steady.formed ?_ steady.stored
    rintro booking booked _ _ _ _ rfl
    cases Set.mem_singleton_iff.mp booked

/-- What `open` is asked for, as it stands on the disk. -/
structure Storage.Recovers (storage : Storage F) : Prop where
  supply : (recoveredSystem storage.trees.state).totalSupply = storage.trees.wallets.total Wallet.balance
  unlocked : (recoveredSystem storage.trees.state).iterationLock = false
  ticks : storage.trees.pohLog.entries.map PohEntry.tick =
    List.range' 1 (recoveredSystem storage.trees.state).currentTick
  tip : (recoveredSystem storage.trees.state).lastPohHash =
    HashChain.tipOf PohEntry.hash zeroHashHex storage.trees.pohLog.entries

theorem Opened.consistent_iff {config : NodeConfig F} {storage : Storage F} (opened : Opened C config storage state) :
    state.Consistent ↔ storage.Recovers := by
  constructor
  · rintro ⟨supply, unlocked, ticks, tip⟩
    rw [opened.ledger.pohLog_eq, opened.system_eq] at ticks tip
    rw [CoinState.storedSupply, opened.ledger.wallets_eq, opened.system_eq] at supply
    exact ⟨supply, opened.system_eq ▸ unlocked, ticks, tip⟩
  · rintro ⟨supply, unlocked, ticks, tip⟩
    constructor
    · rw [CoinState.storedSupply, opened.ledger.wallets_eq, opened.system_eq]
      exact supply
    · rw [opened.system_eq]
      exact unlocked
    · rw [opened.ledger.pohLog_eq, opened.system_eq]
      exact ticks
    · rw [opened.ledger.pohLog_eq, opened.system_eq]
      exact tip

omit [F64 F] in
theorem Storage.pohLog_entries {storage : Storage F} {n : Nat}
    (ticks : (storage.journal.filterMap Write.logged).map PohEntry.tick = List.range' 1 n) :
    storage.trees.pohLog.entries = storage.journal.filterMap Write.logged := by
  have ascending : ((storage.journal.filterMap Write.logged).map PohEntry.tick).Pairwise (· < ·) := by
    rw [ticks]
    exact List.pairwise_lt_range'
  rw [Storage.trees, Trees.applyAll_pohLog, KeyedTree.entries_putAll_ascending (List.pairwise_map.mp ascending)]
  rfl

theorem Storage.Steady.recovers {storage : Storage F} (steady : storage.Steady)
    (unlocked : (recoveredSystem storage.trees.state).iterationLock = false) : storage.Recovers := by
  have entries := Storage.pohLog_entries steady.ticks
  refine ⟨steady.supply, unlocked, ?_, ?_⟩
  · rw [entries]
    exact steady.ticks
  · rw [entries]
    exact steady.tip

theorem eq_range'_of_first {ticks : List Tick} {n : Nat} (first : ticks <+: List.range' 1 n) :
    ticks = List.range' 1 ticks.length := by
  obtain ⟨rest, split⟩ := first
  obtain ⟨k, _, rfl, _⟩ := List.range'_eq_append_iff.mp split.symm
  rw [List.length_range']

/-- Wherever a call is cut, the log has the ticks up to its length. -/
theorem Call.ticks_of_cut (call : Call F) (steady : state.Steady) {kept : List (Write F)}
    (cut : kept <+: call.writes C state) :
    ((state.storage.writeAll kept).journal.filterMap Write.logged).map PohEntry.tick =
      List.range' 1 (state.system.currentTick + (kept.filterMap Write.logged).length) := by
  have whole := (call.script_writes C state).ticks steady.formed steady.ticks
  rw [CoinState.log, call.storage_eq, Storage.journal_writeAll] at whole
  have longer : (state.storage.writeAll kept).journal <+: state.storage.journal ++ call.writes C state :=
    (List.prefix_append_right_inj _).mpr cut
  have first := (longer.filterMap Write.logged).map PohEntry.tick
  rw [whole] at first
  have length : (((state.storage.writeAll kept).journal.filterMap Write.logged).map PohEntry.tick).length =
      state.system.currentTick + (kept.filterMap Write.logged).length := by
    have logged : state.log.length = state.system.currentTick := by
      have counted := congrArg List.length steady.ticks
      rwa [List.length_map, List.length_range'] at counted
    rw [List.length_map, Storage.journal_writeAll, List.filterMap_append, List.length_append, ← logged]
    rfl
  rw [eq_range'_of_first first, length]

variable (C) in
/-- Where a call was cut: before it stored its system state, while it held the iteration lock, or
after it was done. -/
inductive Cut (call : Call F) (state : CoinState F) (kept : List (Write F)) : Prop
  | early (unstored : kept.filterMap Write.stateOf = [])
      (balanced : kept.filterMap Write.logged = [] →
        ((state.trees.wallets.putAll (kept.filterMap Write.walletOf)).total Wallet.balance = state.storedSupply ↔
          kept.filterMap Write.walletOf = [] ∨ (kept.filterMap Write.walletOf).length = 2 ∨ call.OpensEmpty C state))
  | held {locked : SystemState F} (stores : call.stores = 2) (stored : kept.filterMap Write.stateOf = [locked])
      (busy : locked.iterationLock = true)
  | done (stored : (kept.filterMap Write.stateOf).length = call.stores)
      (steady : (state.storage.writeAll kept).Steady)
      (lock : (recoveredSystem (state.storage.writeAll kept).trees.state).iterationLock = state.system.iterationLock)

section Kept

variable {call : Call F} {kept : List (Write F)}

/-- Without a state among the writes the stored one is that of before. -/
theorem CoinState.Steady.recovered_of_unstored (steady : state.Steady) (unstored : kept.filterMap Write.stateOf = []) :
    recoveredSystem (state.storage.writeAll kept).trees.state = state.system.reread := by
  rw [Storage.trees_writeAll, Trees.applyAll_state, unstored]
  exact steady.recovered

omit [F64 F] in
theorem Storage.wallets_writeAll (storage : Storage F) (writes : List (Write F)) :
    (storage.writeAll writes).trees.wallets = storage.trees.wallets.putAll (writes.filterMap Write.walletOf) := by
  rw [Storage.trees_writeAll, Trees.applyAll_walletOf]

omit [F64 F] in
theorem Call.stores_ne_zero (call : Call F) : call.stores ≠ 0 := by
  cases call <;> exact Nat.succ_ne_zero _

theorem Cut.recoverable (cut : Cut C call state kept) (steady : state.Steady) (here : kept <+: call.writes C state)
    (recovers : (state.storage.writeAll kept).Recovers) : Recoverable C call state kept := by
  obtain ⟨supply, unlocked, ticks, tip⟩ := recovers
  cases cut with
  | early unstored balanced =>
    have recovered := steady.recovered_of_unstored unstored
    have logged := call.ticks_of_cut steady here
    rw [recovered, SystemState.totalSupply_reread] at supply
    rw [recovered, SystemState.iterationLock_reread] at unlocked
    rw [recovered, SystemState.currentTick_reread] at ticks
    rw [Storage.pohLog_entries logged] at ticks
    have unlogged : kept.filterMap Write.logged = [] := by
      have lengths := congrArg List.length (logged.symm.trans ticks)
      rw [List.length_range', List.length_range'] at lengths
      exact List.eq_nil_of_length_eq_zero (by omega)
    rw [Storage.wallets_writeAll, steady.supply] at supply
    exact ⟨unlocked, Or.inr ⟨unstored, unlogged, (balanced unlogged).mp supply.symm⟩⟩
  | @held locked stores stored busy =>
    have last : recoveredSystem (state.storage.writeAll kept).trees.state = recoveredSystem (some locked) := by
      rw [Storage.trees_writeAll, Trees.applyAll_state, stored]
      rfl
    rw [last, recoveredSystem_iterationLock] at unlocked
    exact absurd (busy.symm.trans unlocked) (by decide)
  | done stored _ lock => exact ⟨lock ▸ unlocked, Or.inl stored⟩

theorem Cut.steady (cut : Cut C call state kept) (steady : state.Steady) (recoverable : Recoverable C call state kept) :
    (state.storage.writeAll kept).Steady ∧
      (recoveredSystem (state.storage.writeAll kept).trees.state).iterationLock = false := by
  obtain ⟨unlocked, whole⟩ := recoverable
  cases cut with
  | early unstored balanced =>
    rcases whole with stored | ⟨_, unlogged, wallets⟩
    · rw [unstored] at stored
      exact absurd stored.symm call.stores_ne_zero
    have recovered := steady.recovered_of_unstored unstored
    have total : (state.storage.writeAll kept).trees.wallets.total Wallet.balance = state.storedSupply := by
      rw [Storage.wallets_writeAll]
      exact (balanced unlogged).mpr wallets
    have log : (state.storage.writeAll kept).journal.filterMap Write.logged = state.log := by
      rw [Storage.journal_writeAll, List.filterMap_append, unlogged, List.append_nil]
      rfl
    refine ⟨⟨?_, ?_, ?_, ?_⟩, ?_⟩
    · rw [recovered, total]
      exact steady.supply
    · rw [total]
      exact steady.bound
    · rw [recovered, log]
      exact steady.ticks
    · rw [recovered, log]
      exact steady.tip
    · rw [recovered]
      exact unlocked
  | held stores stored _ =>
    rcases whole with length | ⟨unstored, _⟩
    · rw [stored, stores] at length
      cases length
    · rw [stored] at unstored
      cases unstored
  | done _ steady lock => exact ⟨steady, lock.trans unlocked⟩

/-- `open` finds a consistent disk if and only if the call was cut where nothing is lost. -/
theorem Cut.recovers_iff (cut : Cut C call state kept) (steady : state.Steady) (here : kept <+: call.writes C state) :
    (state.storage.writeAll kept).Recovers ↔ Recoverable C call state kept := by
  constructor
  · exact cut.recoverable steady here
  · intro recoverable
    obtain ⟨whole, unlocked⟩ := cut.steady steady recoverable
    exact whole.recovers unlocked

end Kept

/-- The request opens a wallet that holds nothing. -/
def Booking.OpensEmpty : Booking F → Prop
  | .create parameters _ _ _ => microSeed parameters = 0
  | .seed parameters wallet _ _ => wallet.initialBalance.getD (microSeed parameters) = 0
  | _ => False

theorem prefix_singleton_cases {α : Type} {kept : List α} {a : α} (first : kept <+: [a]) : kept = [] ∨ kept = [a] := by
  rcases List.prefix_cons_iff.mp first with empty | ⟨rest, rfl, none⟩
  · exact Or.inl empty
  · rw [List.prefix_nil.mp none]
    exact Or.inr rfl

theorem prefix_pair_cases {α : Type} {kept : List α} {a b : α} (first : kept <+: [a, b]) :
    kept = [] ∨ kept = [a] ∨ kept = [a, b] := by
  rcases List.prefix_cons_iff.mp first with empty | ⟨rest, rfl, behind⟩
  · exact Or.inl empty
  · rcases prefix_singleton_cases behind with rfl | rfl
    · exact Or.inr (Or.inl rfl)
    · exact Or.inr (Or.inr rfl)

/-- The wallets of an entry that are durable leave the supply as it was if they are none, both of a
transfer, or one that is opened empty, and else they do not. -/
theorem Books.total_first {booking : Booking F} {sheet : Sheet F} (books : Books C state booking sheet)
    (ordinary : ∀ parameters, booking ≠ .commit parameters) (bound : state.storedSupply ≤ u64Max)
    (grows : ∀ request operator operatorSig, booking = .charge request operator operatorSig →
      0 < request.amount ∧ state.storedSupply + request.amount ≤ u64Max)
    {kept : List (Wallet F)} (first : kept <+: sheet.wallets) :
    (state.trees.wallets.putAll kept).total Wallet.balance = state.storedSupply ↔
      kept = [] ∨ kept.length = 2 ∨ booking.OpensEmpty := by
  cases books with
  | @create parameters request operator operatorSig plan planned =>
    obtain ⟨_, valid, balance⟩ := planCreateWallet_ok planned
    rcases prefix_singleton_cases first with rfl | rfl
    · exact iff_of_true rfl (Or.inl rfl)
    · simp only [KeyedTree.putAll_cons, KeyedTree.putAll_nil, valid.total, balance, Booking.OpensEmpty]
      simp
  | @seed parameters wallet hashed stored plan planned =>
    obtain ⟨valid, balance⟩ := planSeedWallet_ok planned
    rcases prefix_singleton_cases first with rfl | rfl
    · exact iff_of_true rfl (Or.inl rfl)
    · simp only [KeyedTree.putAll_cons, KeyedTree.putAll_nil, valid.total, balance, Booking.OpensEmpty]
      simp
  | @charge request operator operatorSig plan planned =>
    obtain ⟨_, wallet, valid⟩ := planCharge_ok planned
    obtain ⟨positive, small⟩ := grows request operator operatorSig rfl
    have held : wallet.balance ≤ state.storedSupply := KeyedTree.le_total_of_get Wallet.balance valid.stored
    have fits : wallet.balance + request.amount ≤ u64Max := (Nat.add_le_add_right held _).trans small
    rcases prefix_singleton_cases first with rfl | rfl
    · exact iff_of_true rfl (Or.inl rfl)
    · simp only [KeyedTree.putAll_cons, KeyedTree.putAll_nil, valid.total fits, Booking.OpensEmpty]
      simp [positive.ne']
  | @transfer security request key fromWallet toWallet plan valid =>
    rcases prefix_pair_cases first with rfl | rfl | rfl
    · exact iff_of_true rfl (Or.inl rfl)
    · have replaced := KeyedTree.total_put_of_get Wallet.balance valid.sender
      have spent : plan.fromWallet.balance = fromWallet.balance - request.amount := by
        rw [valid.fromWallet_eq]
        rfl
      have covered := valid.covered
      have positive := valid.positive
      have less : (state.trees.wallets.put plan.fromWallet).total Wallet.balance ≠ state.storedSupply := by
        rw [CoinState.storedSupply]
        lia
      simp [less, Booking.OpensEmpty]
    · simp only [KeyedTree.putAll_cons, KeyedTree.putAll_nil, valid.total (valid.fits bound)]
      simp
  | @burn security request key wallet plan valid =>
    have total := valid.total
    have positive := valid.positive
    rcases prefix_singleton_cases first with rfl | rfl
    · exact iff_of_true rfl (Or.inl rfl)
    · have less : (state.trees.wallets.put plan.wallet).total Wallet.balance ≠ state.storedSupply := by
        lia
      simp [less, Booking.OpensEmpty]
  | commit => exact absurd rfl (ordinary _)

omit [F64 F] in
theorem firstSeeded_of_present {parameters : SystemParameters F} {entry : SeedWallet} (rest : List SeedWallet)
    (present : entry.Present C state) :
    firstSeeded C parameters state (entry :: rest) = firstSeeded C parameters state rest := by
  obtain ⟨key, read, stored⟩ := present
  simp only [firstSeeded, read, if_pos stored]

omit [F64 F] in
theorem firstSeeded_of_absent {parameters : SystemParameters F} {entry : SeedWallet} (rest : List SeedWallet)
    (decodes : entry.Decodes) (absent : ¬ entry.Present C state) :
    firstSeeded C parameters state (entry :: rest) = some (entry.initialBalance.getD (microSeed parameters)) := by
  obtain ⟨key, read⟩ := decodes
  have missing : ¬ (state.getWallet (C.blake3Hex key.val)).isSome := fun stored => absent ⟨key, read, stored⟩
  simp only [firstSeeded, read, missing, Bool.false_eq_true, if_false]

/-- The loop leaves the node as it was, or writes the first wallet the file opens. -/
theorem installEntries_first {parameters : SystemParameters F} {clock : Nat → Timestamp}
    (formed : Crypto.WellFormedSecret state.operatorSecret) (entries : List SeedWallet) (installed : Nat) :
    (installEntries C parameters clock entries installed state).2 = state ∨
    ∃ wallet rest, (installEntries C parameters clock entries installed state).2.storage.journal =
        state.storage.journal ++ .wallet wallet :: rest ∧
      firstSeeded C parameters state entries = some wallet.balance := by
  induction entries generalizing installed with
  | nil => exact Or.inl rfl
  | cons entry rest ih =>
    unfold installEntries
    rcases planSeedWallet_cases C state parameters entry (clock (3 * installed)) (clock (3 * installed + 1)) with
      ⟨_, e, planned⟩ | ⟨present, planned⟩ | ⟨decodes, absent, plan, planned⟩
    · rw [planned]
      exact Or.inl rfl
    · rw [planned, firstSeeded_of_present rest present]
      exact ih installed
    · rw [planned, firstSeeded_of_absent rest decodes absent]
      obtain ⟨valid, balance⟩ := planSeedWallet_ok planned
      rcases insertMinted_cases valid (clock (3 * installed + 2)) with ⟨anchor, _, _, ran⟩ | ⟨e, malformed, _⟩
      · simp only [ran]
        -- the entries behind only add to what the first one wrote
        have booked : ∀ wallet ∈ rest, ∀ count, count < installed + 1 + (Call.seedPayloads C parameters clock rest
            (installed + 1) (state.posted [plan.wallet] (state.system.mint plan.wallet.balance) (.mint plan.tx)
              anchor)).length →
            Booking.seed parameters wallet (clock (3 * count)) (clock (3 * count + 1)) ∈ (Set.univ : Set (Booking F)) :=
          fun _ _ _ _ => Set.mem_univ _
        rcases installEntries_script rest (installed + 1) booked with ⟨writes, installs⟩ | ⟨_, _, _, _, malformed, _⟩
        · have wrote : (state.posted [plan.wallet] (state.system.mint plan.wallet.balance) (.mint plan.tx)
              anchor).storage.journal = state.storage.journal ++ .wallet plan.wallet ::
                (transactionWrites (.mint plan.tx) (state.system.currentTick + 1) ++ [.pohEntry anchor]) := rfl
          rw [installs.storage_eq, Storage.journal_writeAll, wrote, List.append_assoc]
          exact Or.inr ⟨plan.wallet, _, rfl, congrArg some balance.symm⟩
        · exact absurd formed malformed
      · exact absurd formed malformed

/-- A seed file that writes a wallet writes first the first one it opens. -/
theorem installSeed_first {parameters : SystemParameters F} {seed : SeedFile} {clock : Nat → Timestamp}
    (formed : Crypto.WellFormedSecret state.operatorSecret) {wallet : Wallet F} {rest : List (Write F)}
    (begins : (Call.installSeed parameters seed clock).writes C state = .wallet wallet :: rest) :
    firstSeeded C parameters state seed.initialWallets = some wallet.balance := by
  have journal : (installSeed C parameters seed clock state).2.storage.journal =
      state.storage.journal ++ .wallet wallet :: rest := by
    have storage : (installSeed C parameters seed clock state).2.storage =
        state.storage.writeAll ((Call.installSeed parameters seed clock).writes C state) :=
      (Call.installSeed parameters seed clock).storage_eq
    rw [storage, begins, Storage.journal_writeAll]
  have loop : (installEntries C parameters clock seed.initialWallets 0 state).2 = state ∨ ∃ first others,
      (installEntries C parameters clock seed.initialWallets 0 state).2.storage.journal =
        state.storage.journal ++ .wallet first :: others ∧
      firstSeeded C parameters state seed.initialWallets = some first.balance :=
    installEntries_first formed seed.initialWallets 0
  rcases installSeed_cases C state parameters clock seed with ⟨_, left⟩ | ⟨_, _, _, left⟩ | ⟨_, _, _, left⟩
  · rw [left] at journal
    simp at journal
  · rw [left] at journal
    rcases loop with same | ⟨first, others, wrote, opened⟩
    · rw [same] at journal
      have stored : [Write.state state.system] = .wallet wallet :: rest := List.append_cancel_left journal
      cases stored
    · have longer : (installEntries C parameters clock seed.initialWallets 0 state).2.storage.journal ++
          [.state (installEntries C parameters clock seed.initialWallets 0 state).2.system] =
          state.storage.journal ++ .wallet wallet :: rest := journal
      rw [wrote, List.append_assoc] at longer
      have heads := List.append_cancel_left longer
      cases heads
      exact opened
  · rw [left] at journal
    rcases loop with same | ⟨first, others, wrote, opened⟩
    · rw [same] at journal
      simp at journal
    · rw [wrote] at journal
      have heads := List.append_cancel_left journal
      cases heads
      exact opened

section Begins

variable {call : Call F} {seen : String → Option Timestamp} {booking : Booking F} {sheet : Sheet F} {entry : PohEntry}
  {rest : List (Write F)}

/-- The call opens an empty wallet if the entry it begins with does. -/
theorem Call.opensEmpty_iff (formed : Crypto.WellFormedSecret state.operatorSecret)
    (books : Books C (state.remembering seen) booking sheet) (booked : booking ∈ call.bookings C state)
    (begins : call.writes C state = CoinState.entryWrites sheet entry ++ rest) :
    booking.OpensEmpty ↔ call.OpensEmpty C state := by
  cases call with
  | installSeed parameters seed clock =>
    obtain ⟨wallet, _, installed, _, rfl⟩ := booked
    cases books with
    | @seed _ _ _ _ plan planned =>
      obtain ⟨_, balance⟩ := planSeedWallet_ok planned
      have first : firstSeeded C parameters state seed.initialWallets = some plan.wallet.balance :=
        installSeed_first formed begins
      simp only [Booking.OpensEmpty, Call.OpensEmpty, first, balance, Option.some.injEq]
  | updateParameters => cases booked
  | _ =>
    rw [Set.mem_singleton_iff.mp booked]
    rfl

/-- A charge that writes an entry adds something, and what it adds fits. -/
theorem Call.grows {request : ChargeRequest} {operator : Operator} {operatorSig : String} (fits : call.Fits C state)
    (booked : .charge request operator operatorSig ∈ call.bookings C state)
    (begins : call.writes C state = CoinState.entryWrites sheet entry ++ rest) :
    0 < request.amount ∧ state.storedSupply + request.amount ≤ u64Max := by
  cases call with
  | charge parameters own ownOperator ownSig guardNow now =>
    cases Set.mem_singleton_iff.mp booked
    rcases charge_cases C state parameters request operator operatorSig guardNow now with
      ⟨seen, e, ran, _⟩ | ⟨seen, plan, wallet, reply, positive, passed, planned, _, _⟩
    · have written : (state.remembering seen).storage = state.storage.writeAll
          (CoinState.entryWrites sheet entry ++ rest) := by
        rw [← begins, ← (Call.charge parameters request operator operatorSig guardNow now).storage_eq]
        exact congrArg (fun finished => finished.2.storage) ran.symm
      have lengths := congrArg (fun storage => storage.journal.length) written
      simp [Storage.writeAll, CoinState.entryWrites, CoinState.postingWrites, CoinState.remembering] at lengths
    · refine ⟨Nat.pos_of_ne_zero positive, ?_⟩
      unfold Call.Fits Call.exactSupply at fits
      simp only [if_neg positive] at fits
      obtain ⟨memory, guarded⟩ := guardOperatorReplay_keeps state parameters.security operatorSig request.timestamp
        guardNow
      cases checked : guardOperatorReplay parameters.security operatorSig request.timestamp guardNow state with
      | mk verdict after =>
        rw [checked] at guarded passed fits
        have left : after = state.remembering memory := guarded
        have accepted : verdict = .ok () := passed
        have same : planCharge C request operator operatorSig (state.remembering memory) = .ok plan := planned
        subst left accepted
        simpa only [same] using fits
  | installSeed parameters seed clock =>
    obtain ⟨_, _, _, _, other⟩ := booked
    cases other
  | updateParameters => cases booked
  | _ => cases Set.mem_singleton_iff.mp booked

end Begins

section Cuts

variable {call : Call F} {kept : List (Write F)}

theorem Cut.of_bare (unstored : kept.filterMap Write.stateOf = []) (bare : kept.filterMap Write.walletOf = []) :
    Cut C call state kept := by
  refine .early unstored fun _ => ?_
  rw [bare]
  exact iff_of_true rfl (Or.inl rfl)

/-- A cut inside the first entry. -/
theorem Cut.of_entry {seen : String → Option Timestamp} {booking : Booking F} {sheet : Sheet F} {entry : PohEntry}
    {rest : List (Write F)} (steady : state.Steady) (fits : call.Fits C state)
    (books : Books C (state.remembering seen) booking sheet) (booked : booking ∈ call.bookings C state)
    (ordinary : ∀ parameters, booking ≠ .commit parameters)
    (begins : call.writes C state = CoinState.entryWrites sheet entry ++ rest) (here : kept <+: call.writes C state)
    (unstored : kept.filterMap Write.stateOf = []) : Cut C call state kept := by
  refine .early unstored fun unlogged => ?_
  rw [begins] at here
  have first := walletOf_cut here unlogged
  rw [← Call.opensEmpty_iff steady.formed books booked begins]
  refine books.total_first ordinary steady.bound ?_ first
  rintro request operator operatorSig rfl
  have grown : 0 < request.amount ∧ state.storedSupply + request.amount ≤ u64Max := Call.grows fits booked begins
  exact grown

theorem Cut.of_whole (steady : state.Steady) (fitting : call.Exact C state)
    (stored : (call.next C state).trees.state = some (call.next C state).system)
    (counted : ((call.writes C state).filterMap Write.stateOf).length = call.stores)
    (lock : (call.next C state).system.iterationLock = state.system.iterationLock) :
    Cut C call state (call.writes C state) := by
  have after := Call.steady fitting steady stored
  refine .done counted ?_ ?_
  · rw [← call.storage_eq]
    exact after.disk
  · rw [← call.storage_eq, after.recovered]
    exact lock

theorem Books.iterationLock_eq {booking : Booking F} {sheet : Sheet F} (books : Books C state booking sheet)
    (ordinary : ∀ parameters, booking ≠ .commit parameters) :
    sheet.system.iterationLock = state.system.iterationLock := by
  cases books with
  | commit => exact absurd rfl (ordinary _)
  | _ => rfl

theorem Installs.iterationLock_eq {bookings : Set (Booking F)} {writes : List (Write F)} {after : CoinState F}
    (installs : Installs C bookings state writes after) :
    after.system.iterationLock = state.system.iterationLock := by
  induction installs with
  | none => rfl
  | entry books _ _ _ _ ih => exact ih.trans (books.iterationLock_eq fun _ => by rintro ⟨⟩)

omit [F64 F] in
theorem stateOf_first {writes : List (Write F)} (short : kept <+: writes)
    (unstored : writes.filterMap Write.stateOf = []) : kept.filterMap Write.stateOf = [] := by
  have first := short.filterMap Write.stateOf
  rw [unstored] at first
  exact List.prefix_nil.mp first

/-- A cut before a seed file is through. -/
theorem Installs.cut {writes tail : List (Write F)} {after : CoinState F}
    (installs : Installs C (call.bookings C state) state writes after) (steady : state.Steady)
    (fits : call.Fits C state) (begins : call.writes C state = writes ++ tail) (short : kept <+: writes) :
    Cut C call state kept := by
  have unstored := stateOf_first short installs.stateOf
  have here : kept <+: call.writes C state := begins ▸ short.trans (List.prefix_append _ _)
  cases installs with
  | none => exact .of_bare unstored (by rw [List.prefix_nil.mp short]; rfl)
  | entry books booked _ _ _ =>
    rw [List.append_assoc] at begins
    have books' : Books C (state.remembering state.seenOperatorSigs) _ _ := books
    exact .of_entry steady fits books' booked (fun _ => by rintro ⟨⟩) begins here unstored

/-- A cut of any call but an iteration. -/
theorem Script.cut {writes : List (Write F)} {after : CoinState F}
    (script : Script C (call.bookings C state) state writes after) (same : call.writes C state = writes)
    (left : call.next C state = after) (ordinary : ∀ parameters, .commit parameters ∉ call.bookings C state)
    (stores : call.stores = 1) (steady : state.Steady) (fitting : call.Exact C state)
    (here : kept <+: call.writes C state) : Cut C call state kept := by
  have cutting := here
  rw [same] at cutting
  have uncommitted {booking : Booking F} (booked : booking ∈ call.bookings C state) :
      ∀ parameters, booking ≠ .commit parameters := by
    rintro parameters rfl
    exact ordinary parameters booked
  cases script with
  | refused =>
    rw [List.prefix_nil.mp cutting]
    exact .of_bare rfl rfl
  | parameters =>
    rcases prefix_singleton_cases cutting with rfl | rfl
    · exact .of_bare rfl rfl
    · exact .of_bare rfl rfl
  | @accepted seen booking sheet entry books booked _ _ =>
    rcases List.prefix_concat_iff.mp cutting with whole | short
    · rw [whole, ← same]
      refine .of_whole steady fitting ?_ ?_ ?_
      · rw [left]
        exact CoinState.stored_storeState _
      · rw [same, List.filterMap_append, stateOf_entryWrites, stores]
        rfl
      · rw [left]
        exact books.iterationLock_eq (uncommitted booked)
    · exact .of_entry steady fitting.1 books booked (uncommitted booked) same here
        (stateOf_first short (stateOf_entryWrites sheet entry))
  | stranded _ _ _ malformed => exact absurd steady.formed malformed
  | seeded installs =>
    rcases List.prefix_concat_iff.mp cutting with whole | short
    · rw [whole, ← same]
      refine .of_whole steady fitting ?_ ?_ ?_
      · rw [left]
        exact CoinState.stored_storeState _
      · rw [same, List.filterMap_append, installs.stateOf, stores]
        rfl
      · rw [left]
        exact installs.iterationLock_eq
    · exact installs.cut steady fitting.1 same short
  | seedRefused installs => exact installs.cut steady fitting.1 (same.trans (List.append_nil _).symm) cutting
  | panicked parameters booked => exact absurd booked (ordinary parameters)
  | committed _ _ booked => exact absurd booked (ordinary _)
  | commitStranded _ booked => exact absurd booked (ordinary _)

/-- A write of another tree changes nothing that `open` reads of the ledger. -/
theorem Storage.steady_beside {storage : Storage F} {write : Write F} (stateless : write.stateOf = none)
    (unlogged : write.logged = none) (walletless : write.walletOf = none) :
    (storage.writeAll [write]).Steady ↔ storage.Steady := by
  have state_eq : (storage.writeAll [write]).trees.state = storage.trees.state := by
    rw [Storage.trees_writeAll, Trees.applyAll_state, List.filterMap_cons_none stateless]
    rfl
  have wallets : (storage.writeAll [write]).trees.wallets = storage.trees.wallets := by
    rw [Storage.wallets_writeAll, List.filterMap_cons_none walletless]
    rfl
  have logged : (storage.writeAll [write]).journal.filterMap Write.logged = storage.journal.filterMap Write.logged := by
    rw [Storage.journal_writeAll, List.filterMap_append, List.filterMap_cons_none unlogged]
    exact List.append_nil _
  constructor
  · rintro ⟨supply, bound, ticks, tip⟩
    rw [state_eq, wallets] at supply
    rw [wallets] at bound
    rw [state_eq, logged] at ticks tip
    exact ⟨supply, bound, ticks, tip⟩
  · rintro ⟨supply, bound, ticks, tip⟩
    rw [← state_eq, ← wallets] at supply
    rw [← wallets] at bound
    rw [← state_eq, ← logged] at ticks tip
    exact ⟨supply, bound, ticks, tip⟩

omit [F64 F] in
theorem Storage.writeAll_inj {storage : Storage F} {ws vs : List (Write F)}
    (same : storage.writeAll ws = storage.writeAll vs) : ws = vs :=
  List.append_cancel_left (congrArg Storage.journal same)

theorem Call.writes_eq {writes : List (Write F)}
    (written : (call.next C state).storage = state.storage.writeAll writes) : call.writes C state = writes :=
  Storage.writeAll_inj (call.storage_eq.symm.trans written)

/-- A cut of a call that takes the lock first and closes with one more state. -/
theorem Cut.of_locking {locked closed : SystemState F} {entered closing : List (Write F)} (stores : call.stores = 2)
    (written : call.writes C state = .state locked :: (entered ++ .state closed :: closing))
    (busy : locked.iterationLock = true) (unstored : entered.filterMap Write.stateOf = []) (closes : Closing closing)
    (after : (call.next C state).Steady)
    (lock : (call.next C state).system.iterationLock = state.system.iterationLock)
    (here : kept <+: call.writes C state) : Cut C call state kept := by
  rw [written] at here
  rcases List.prefix_cons_iff.mp here with rfl | ⟨behind, rfl, inside⟩
  · exact .of_bare rfl rfl
  rcases prefix_or_mem inside with short | long
  · refine .held stores ?_ busy
    rw [List.filterMap_cons, stateOf_first short unstored]
    rfl
  obtain ⟨closing', rfl⟩ := long
  have tail : closing' <+: closing := by
    have same : entered ++ .state closed :: closing = (entered ++ [.state closed]) ++ closing := by simp
    rw [same] at inside
    exact (List.prefix_append_right_inj _).mp inside
  have counted : ((.state locked :: (entered ++ [.state closed] ++ closing')).filterMap Write.stateOf).length =
      call.stores := by
    have nothing : closing'.filterMap Write.stateOf = [] := by
      refine stateOf_first tail ?_
      rcases closes with rfl | ⟨taken, rfl⟩
      all_goals rfl
    rw [stores, List.filterMap_cons, List.filterMap_append, List.filterMap_append, unstored, nothing]
    rfl
  -- at most the snapshot is missing
  have disk : (state.storage.writeAll (.state locked :: (entered ++ [.state closed] ++ closing'))).Steady ∧
      (state.storage.writeAll (.state locked :: (entered ++ [.state closed] ++ closing'))).trees.state =
        (call.next C state).storage.trees.state := by
    have whole : (call.next C state).storage =
        state.storage.writeAll (.state locked :: (entered ++ [.state closed] ++ closing)) := by
      rw [call.storage_eq, written]
      simp
    rcases closes with rfl | ⟨taken, rfl⟩
    · rw [List.prefix_nil.mp tail, ← whole]
      exact ⟨after.disk, rfl⟩
    · rcases prefix_singleton_cases tail with rfl | rfl
      · have split : (call.next C state).storage = (state.storage.writeAll
            (.state locked :: (entered ++ [.state closed] ++ []))).writeAll [.snapshot taken] := by
          rw [whole, Storage.writeAll_append]
          simp
        have steady := after.disk
        rw [split] at steady ⊢
        refine ⟨(Storage.steady_beside rfl rfl rfl).mp steady, ?_⟩
        rw [Storage.trees_writeAll _ [.snapshot taken]]
        rfl
      · rw [← whole]
        exact ⟨after.disk, rfl⟩
  refine .done counted disk.1 ?_
  rw [disk.2, after.recovered]
  exact lock

/-- A cut of an iteration. -/
theorem executeIterationNow_cut {parameters : SystemParameters F} {now snapshotNow : Timestamp} (steady : state.Steady)
    (fitting : (Call.executeIterationNow parameters now snapshotNow).Exact C state)
    (here : kept <+: (Call.executeIterationNow parameters now snapshotNow).writes C state) :
    Cut C (.executeIterationNow parameters now snapshotNow) state kept := by
  have written {writes : List (Write F)} (same : (executeIterationNow C parameters now snapshotNow state).2.storage =
      state.storage.writeAll writes) :
      (Call.executeIterationNow parameters now snapshotNow).writes C state = writes := Call.writes_eq same
  rcases executeIterationNow_cases C state parameters now snapshotNow with ⟨_, ran⟩ | ⟨unlocked, iterates⟩
  · have nothing : (executeIterationNow C parameters now snapshotNow state).2.storage = state.storage.writeAll [] := by
      rw [ran]
      simp [Storage.writeAll]
    rw [written nothing] at here
    rw [List.prefix_nil.mp here]
    exact .of_bare rfl rfl
  generalize ran : executeIterationNow C parameters now snapshotNow state = finished at *
  cases iterates with
  | panicked =>
    have locking : state.locked.storage = state.storage.writeAll [.state state.locked.system] := rfl
    rw [written locking] at here
    rcases prefix_singleton_cases here with rfl | rfl
    · exact .of_bare rfl rfl
    · exact .held rfl rfl rfl
  | @committed beta result entry closing _ _ _ _ closes =>
    have ended := congrArg Prod.snd ran
    change (Call.executeIterationNow parameters now snapshotNow).next C state = _ at ended
    let sheet : Sheet F := ⟨result.wallets, commitSystem state.locked.system result, .iterationCommit result.commit,
      .commit result.commit, 0⟩
    have whole : (Call.executeIterationNow parameters now snapshotNow).writes C state =
        .state state.locked.system :: ((CoinState.entryWrites sheet entry ++ [.iteration result.commit]) ++
          .state (CoinState.anchoredSystem (commitSystem state.locked.system result) entry) :: closing) := by
      refine written ?_
      have locking : state.locked.storage = state.storage.writeAll [.state state.locked.system] := rfl
      have posting : (state.locked.posted result.wallets (commitSystem state.locked.system result)
          (.iterationCommit result.commit) entry).storage =
          state.locked.storage.writeAll (CoinState.entryWrites sheet entry) := rfl
      change (CoinState.storage _).writeAll _ = _
      rw [posting, locking, Storage.writeAll_append, Storage.writeAll_append]
      simp
    refine .of_locking rfl whole rfl ?_ closes (Call.steady fitting steady ?_) ?_ here
    · rw [List.filterMap_append, stateOf_entryWrites]
      rfl
    · rw [ended, CoinState.trees_writeAll, Trees.applyAll_state]
      rcases closes with rfl | ⟨taken, rfl⟩
      all_goals rfl
    · rw [ended, unlocked]
      rfl
  | stranded _ _ malformed => exact absurd steady.formed malformed

theorem Call.cut (call : Call F) (steady : state.Steady) (fitting : call.Exact C state)
    (here : kept <+: call.writes C state) : Cut C call state kept := by
  have script := call.script_writes C state
  cases call with
  | executeIterationNow => exact executeIterationNow_cut steady fitting here
  | updateParameters => exact script.cut rfl rfl (by rintro _ ⟨⟩) rfl steady fitting here
  | installSeed =>
    refine script.cut rfl rfl ?_ rfl steady fitting here
    rintro parameters ⟨_, _, _, _, other⟩
    cases other
  | _ =>
    refine script.cut rfl rfl ?_ rfl steady fitting here
    intro parameters booked
    cases Set.mem_singleton_iff.mp booked

end Cuts

/-- What can befall a database: a restart, a call, or a crash inside a call. -/
inductive Fault (F : Type)
  | event (event : Event F)
  | crash (call : Call F) (count : Nat)

variable (C) in
def Host.suffer (host : Host F) : Fault F → Host F
  | .event asked => host.next C asked
  | .crash call count =>
    match host.node with
    | some state => ⟨call.crashed C state count, none, host.opened⟩
    | none => host

namespace Host

theorem suffer_event (host : Host F) (event : Event F) : host.suffer C (.event event) = host.next C event := rfl

theorem suffer_crash {host : Host F} (running : host.node = some state) (call : Call F) (count : Nat) :
    host.suffer C (.crash call count) = ⟨call.crashed C state count, none, host.opened⟩ := by
  simp only [suffer, running]

theorem suffer_crash_none {host : Host F} (down : host.node = none) (call : Call F) (count : Nat) :
    host.suffer C (.crash call count) = host := by
  simp only [suffer, down]

end Host

variable (C) in
/-- Events are made with care, and a crash falls where nothing is lost. -/
def Fault.Careful (host : Host F) : Fault F → Prop
  | .event asked => asked.Careful C host
  | .crash call count => ∀ state, host.node = some state →
      call.Exact C state ∧ Recoverable C call state (call.durable C state count)

variable {host : Host F}

structure Host.Steady (host : Host F) : Prop where
  disk : host.storage.Steady
  running : ∀ state, host.node = some state → state.storage = host.storage ∧ state.Steady

theorem Host.Steady.empty : (Host.empty : Host F).Steady := by
  refine ⟨⟨?_, Nat.zero_le _, ?_, ?_⟩, ?_⟩
  · rw [recoveredSystem_totalSupply]
    rfl
  · rw [recoveredSystem_currentTick]
    rfl
  · have tip : (recoveredSystem (none : Option (SystemState F))).lastPohHash = zeroHashHex := by
      unfold recoveredSystem
      dsimp only
      split <;> rfl
    exact tip
  · intro state running
    cases running

/-- A disk in step opens in step. -/
theorem Storage.Steady.opened {storage left : Storage F} (steady : storage.Steady) {env : String → Option String}
    {config : NodeConfig F} (ran : openCoinState C env config storage = (.ok state, left))
    (formed : Crypto.WellFormedSecret (openingSecret env config storage)) : state.Steady := by
  have opened : (openCoinState C env config storage).1 = .ok state := congrArg Prod.fst ran
  have start := openCoinState_opened opened
  have past := (openCoinState_past opened).2.1
  refine .of_fields ?_ ?_ ?_ ?_ start.stored_eq ?_ ?_
  · rw [start.system_eq, CoinState.storedSupply, start.ledger.wallets_eq]
    exact steady.supply
  · rw [CoinState.storedSupply, start.ledger.wallets_eq]
    exact steady.bound
  · rw [past, start.system_eq]
    exact steady.ticks
  · rw [past, start.system_eq]
    exact steady.tip
  · rw [start.system_eq]
    exact recoveredSystem_named _
  · rw [openCoinState_secret opened]
    exact formed

theorem Host.Steady.event (steady : host.Steady) {event : Event F} (careful : event.Careful C host) :
    (host.next C event).Steady := by
  cases event with
  | call call =>
    cases running : host.node with
    | none => rwa [next_call_none running]
    | some state =>
      rw [next_call running]
      have after := (careful state running).steady (steady.running state running).2
      refine ⟨after.disk, ?_⟩
      rintro _ ⟨⟩
      exact ⟨rfl, after⟩
  | restart env config =>
    cases ran : openCoinState C env config host.storage with
    | mk outcome left =>
      cases outcome with
      | error e =>
        obtain ⟨parameters, rfl⟩ := openCoinState_error ran
        rw [next_restart_error ran]
        refine ⟨(Storage.steady_beside rfl rfl rfl).mpr steady.disk, ?_⟩
        rintro _ ⟨⟩
      | ok state =>
        obtain ⟨same, _⟩ := openCoinState_registry ran
        have after := steady.disk.opened ran careful
        rw [next_restart ran]
        refine ⟨same ▸ after.disk, ?_⟩
        rintro _ ⟨⟩
        exact ⟨same, after⟩

theorem Host.Steady.suffer (steady : host.Steady) {fault : Fault F} (careful : fault.Careful C host) :
    (host.suffer C fault).Steady := by
  cases fault with
  | event event => exact steady.event careful
  | crash call count =>
    cases running : host.node with
    | none => rwa [Host.suffer_crash_none running]
    | some state =>
      rw [Host.suffer_crash running]
      obtain ⟨fitting, recoverable⟩ := careful state running
      have before := (steady.running state running).2
      have cut := call.cut before fitting (call.durable_first count)
      refine ⟨?_, ?_⟩
      · rw [Call.crashed_eq]
        exact (cut.steady before recoverable).1
      · rintro _ ⟨⟩

/-- In every run made with care, crashes included: a node reopened after a crash inside a call is
consistent if and only if the crash fell where nothing was lost. -/
theorem crash_consistent_iff {call : Call F} {count : Nat} {env : String → Option String} {config : NodeConfig F}
    {reopened : CoinState F} (run : Reach (Host.suffer C) (Fault.Careful C) Host.empty host)
    (running : host.node = some state) (fitting : call.Exact C state)
    (opened : (openCoinState C env config (call.crashed C state count)).1 = .ok reopened) :
    reopened.Consistent ↔ Recoverable C call state (call.durable C state count) := by
  have steady : host.Steady := run.invariant Host.Steady .empty fun _ _ before careful => before.suffer careful
  have before := (steady.running state running).2
  rw [(openCoinState_opened opened).consistent_iff, Call.crashed_eq]
  exact (call.cut before fitting (call.durable_first count)).recovers_iff before (call.durable_first count)

namespace Concrete

theorem opens (storage : Storage ℚ) : ∃ state, (openCoinState crypto (fun _ => none) config storage).1 = .ok state := by
  obtain ⟨key, read⟩ : ∃ key, fixed32 devOperatorSecret = .ok key := ⟨_, eq_ok_get (by decide +kernel)⟩
  have configured : config.operatorSecret = some devOperatorSecret := rfl
  obtain ⟨state, opened, _⟩ := openCoinState_of_secret crypto (fun _ => none) storage configured read rfl fun _ => rfl
  exact ⟨state, opened⟩

/-- The first call writes its wallet, its transaction and entry, and last the system state. -/
theorem firstCall_writes (key : FixedBytes 32) : ∃ tx entry, (firstCall key).writes crypto node =
    CoinState.postingWrites [firstWallet crypto parameters operator key]
      (node.system.mint (microSeed parameters)) tx entry ++ [.state (firstNode key).system] := by
  obtain ⟨tx, entry, same⟩ := firstNode_eq key
  have written : (firstNode key).storage = node.storage.writeAll
      (CoinState.postingWrites [firstWallet crypto parameters operator key]
        (node.system.mint (microSeed parameters)) tx entry ++ [.state (firstNode key).system]) := by
    rw [same]
    exact Storage.writeAll_append _ _ _
  exact ⟨tx, entry, Call.writes_eq written⟩

/-- A run that has opened the database. -/
theorem started : ∃ host : Host ℚ, Reach (Host.suffer crypto) (Fault.Careful crypto) Host.empty host ∧
    host.node = some node := by
  have formed : Crypto.WellFormedSecret (openingSecret (fun _ => none) config (Host.empty : Host ℚ).storage) := by
    have secret := openCoinState_secret opened_node
    exact secret ▸ node_formed
  have start : openCoinState crypto (fun _ => none) config (Host.empty : Host ℚ).storage = (.ok node, opened.2) :=
    Prod.ext opened_node rfl
  have run : Reach (Host.suffer crypto) (Fault.Careful crypto) Host.empty
      (Host.suffer crypto Host.empty (.event (.restart (fun _ => none) config))) := .next .start formed
  refine ⟨_, run, ?_⟩
  rw [Host.suffer_event, Host.next_restart start]

end Concrete

open Concrete in
/-- A crash after the last write of a call leaves a consistent disk, and one after the first write does not. -/
theorem crash_consistent_iff_create :
    ∃ (count : Nat) (whole torn : CoinState ℚ),
      (openCoinState crypto (fun _ => none) config ((firstCall (key 1)).crashed crypto node count)).1 = .ok whole ∧
      (openCoinState crypto (fun _ => none) config ((firstCall (key 1)).crashed crypto node 1)).1 = .ok torn ∧
      whole.Consistent ∧ ¬ torn.Consistent := by
  obtain ⟨host, run, running⟩ := started
  obtain ⟨tx, entry, writes⟩ := firstCall_writes (key 1)
  have fitting : (firstCall (key 1)).Exact crypto node := ⟨firstCall_fits _, trivial⟩
  obtain ⟨whole, wholeOpened⟩ :=
    opens ((firstCall (key 1)).crashed crypto node ((firstCall (key 1)).writes crypto node).length)
  obtain ⟨torn, tornOpened⟩ := opens ((firstCall (key 1)).crashed crypto node 1)
  refine ⟨_, whole, torn, wholeOpened, tornOpened, (crash_consistent_iff run running fitting wholeOpened).mpr ?_,
    fun consistent => ?_⟩
  · refine ⟨node_free, Or.inl ?_⟩
    rw [Call.durable, List.take_length, writes, List.filterMap_append, stateOf_postingWrites]
    rfl
  · have recoverable := (crash_consistent_iff run running fitting tornOpened).mp consistent
    have first : (firstCall (key 1)).durable crypto node 1 =
        [.wallet (firstWallet crypto parameters operator (key 1))] := by
      rw [Call.durable, writes]
      rfl
    rw [first] at recoverable
    rcases recoverable.whole with stored | ⟨-, -, none | both | empty⟩
    · cases stored
    · cases none
    · cases both
    · have seeded : microSeed parameters = 0 := empty
      rw [microSeed_parameters] at seeded
      cases seeded

/-- The first write of a first call is its wallet, and a crash after it leaves the wallet's balance
outside the supply. -/
theorem crash_loses_supply :
    ∃ reopened, (openCoinState Concrete.crypto (fun _ => none) Concrete.config
        ((Concrete.firstCall (Concrete.key 1)).crashed Concrete.crypto Concrete.node 1)).1 = .ok reopened ∧
      reopened.system.totalSupply = 0 ∧ reopened.storedSupply = 10000000 ∧ ¬ reopened.Consistent := by
  obtain ⟨reopened, opened⟩ := Concrete.opens
    ((Concrete.firstCall (Concrete.key 1)).crashed Concrete.crypto Concrete.node 1)
  have first : (Concrete.firstCall (Concrete.key 1)).durable Concrete.crypto Concrete.node 1 =
      [.wallet (firstWallet Concrete.crypto Concrete.parameters Concrete.operator (Concrete.key 1))] := by
    obtain ⟨tx, entry, writes⟩ := Concrete.firstCall_writes (Concrete.key 1)
    rw [Call.durable, writes]
    rfl
  have start := openCoinState_opened opened
  have fresh : Concrete.node.storage.trees.state = some .default := by
    rw [show Concrete.node.storage.trees.state = some Concrete.node.system from Concrete.node_opened.stored_eq,
      Concrete.node_opened.default_eq]
  have supply : reopened.system.totalSupply = 0 := by
    rw [start.system_eq, recoveredSystem_totalSupply, Call.crashed_eq, first, Storage.trees_writeAll]
    change (Concrete.node.storage.trees.state.getD .default).totalSupply = 0
    rw [fresh]
    rfl
  have stored : reopened.storedSupply = 10000000 := by
    have balance : (firstWallet Concrete.crypto Concrete.parameters Concrete.operator (Concrete.key 1)).balance =
        microSeed Concrete.parameters := rfl
    have wallets : (reopened.trees.wallets) = KeyedTree.empty.put
        (firstWallet Concrete.crypto Concrete.parameters Concrete.operator (Concrete.key 1)) := by
      rw [start.ledger.wallets_eq, Call.crashed_eq, first, Storage.wallets_writeAll,
        show Concrete.node.storage.trees.wallets = .empty from Concrete.node_opened.wallets_eq]
      rfl
    rw [CoinState.storedSupply, wallets, KeyedTree.total_put_fresh _ rfl, KeyedTree.total_empty, balance,
      Concrete.microSeed_parameters]
  refine ⟨reopened, opened, supply, stored, fun consistent => ?_⟩
  rw [consistent.supply, stored] at supply
  cases supply

end AggoraCoin
