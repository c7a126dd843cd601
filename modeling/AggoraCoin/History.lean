import AggoraCoin.Calls

namespace AggoraCoin

variable {F : Type}

namespace Write

def archived : Write F → Option (Transaction F)
  | .transaction tx => some tx
  | _ => none

def logged : Write F → Option PohEntry
  | .pohEntry entry => some entry
  | _ => none

def indexing : Write F → Option (String × Hash)
  | .txByWallet key txId => some (key, txId)
  | _ => none

end Write

namespace Trees

variable (t : Trees F) (writes : List (Write F))

/-- The archive after some writes depends on the transactions among them only. -/
theorem applyAll_transactions :
    (t.applyAll writes).transactions = t.transactions.putAll (writes.filterMap Write.archived) := by
  induction writes generalizing t with
  | nil => rfl
  | cons write rest ih =>
    rw [applyAll_cons, ih]
    cases write <;> rfl

theorem applyAll_pohLog : (t.applyAll writes).pohLog = t.pohLog.putAll (writes.filterMap Write.logged) := by
  induction writes generalizing t with
  | nil => rfl
  | cons write rest ih =>
    rw [applyAll_cons, ih]
    cases write <;> rfl

theorem applyAll_index :
    (t.applyAll writes).txByWallet = t.txByWallet.putAll (writes.filterMap Write.indexing) := by
  induction writes generalizing t with
  | nil => rfl
  | cons write rest ih =>
    rw [applyAll_cons, ih]
    cases write <;> rfl

end Trees

namespace CoinState

variable (state : CoinState F)

/-- Every transaction accepted so far, the oldest first. -/
def history : List (Transaction F) := state.storage.journal.filterMap Write.archived

/-- Every PoH entry written so far. -/
def log : List PohEntry := state.storage.journal.filterMap Write.logged

/-- Every index key written so far. -/
def indexed : List (String × Hash) := state.storage.journal.filterMap Write.indexing

theorem transactions_eq : state.trees.transactions = KeyedTree.empty.putAll state.history :=
  Trees.applyAll_transactions _ _

theorem pohLog_eq : state.trees.pohLog = KeyedTree.empty.putAll state.log := Trees.applyAll_pohLog _ _

theorem txByWallet_eq : state.trees.txByWallet = KeyedTree.empty.putAll state.indexed := Trees.applyAll_index _ _

variable {state} {wallets : List (Wallet F)} {system : SystemState F} {tx : Transaction F} {entry : PohEntry}
  {writes : List (Write F)}

theorem history_writeAll : (state.writeAll writes).history = state.history ++ writes.filterMap Write.archived :=
  List.filterMap_append

theorem log_writeAll : (state.writeAll writes).log = state.log ++ writes.filterMap Write.logged :=
  List.filterMap_append

theorem indexed_writeAll : (state.writeAll writes).indexed = state.indexed ++ writes.filterMap Write.indexing :=
  List.filterMap_append

@[simp] theorem history_withSystem : (state.withSystem system).history = state.history := rfl

@[simp] theorem log_withSystem : (state.withSystem system).log = state.log := rfl

@[simp] theorem indexed_withSystem : (state.withSystem system).indexed = state.indexed := rfl

/-- Writes of wallets record no transaction, no entry and no index key. -/
theorem filterMap_wallet {β : Type} (f : Write F → Option β) (none_of : ∀ wallet, f (.wallet wallet) = none) :
    (wallets.map Write.wallet).filterMap f = [] := by
  simp [List.filterMap_map, none_of]

theorem filterMap_aside {β : Type} {f : Write F → Option β} (aside : ∀ write ∈ writes, write.aside = true)
    (none_of : ∀ write : Write F, write.aside = true → f write = none) : writes.filterMap f = [] :=
  List.filterMap_eq_nil_iff.mpr fun write member => none_of write (aside write member)

@[simp] theorem history_posted : (state.posted wallets system tx entry).history = state.history ++ [tx] := by
  have index : ((indexEntries tx (system.currentTick + 1)).map fun e => Write.txByWallet (F := F) e.1 e.2).filterMap
      Write.archived = [] := by
    simp [List.filterMap_map, Function.comp_def, Write.archived]
  simp only [posted, postingWrites, history_writeAll, history_withSystem, List.filterMap_append, transactionWrites,
    List.filterMap_cons, filterMap_wallet Write.archived fun _ => rfl, index]
  rfl

@[simp] theorem log_posted : (state.posted wallets system tx entry).log = state.log ++ [entry] := by
  have index : ((indexEntries tx (system.currentTick + 1)).map fun e => Write.txByWallet (F := F) e.1 e.2).filterMap
      Write.logged = [] := by
    simp [List.filterMap_map, Function.comp_def, Write.logged]
  simp only [posted, postingWrites, log_writeAll, log_withSystem, List.filterMap_append, transactionWrites,
    List.filterMap_cons, filterMap_wallet Write.logged fun _ => rfl, index]
  rfl

@[simp] theorem indexed_posted :
    (state.posted wallets system tx entry).indexed = state.indexed ++ indexEntries tx (system.currentTick + 1) := by
  have index : ((indexEntries tx (system.currentTick + 1)).map fun e => Write.txByWallet (F := F) e.1 e.2).filterMap
      Write.indexing = indexEntries tx (system.currentTick + 1) := by
    simp [List.filterMap_map, Function.comp_def, Write.indexing]
  simp only [posted, postingWrites, indexed_writeAll, indexed_withSystem, List.filterMap_append, transactionWrites,
    List.filterMap_cons, filterMap_wallet Write.indexing fun _ => rfl, index]
  simp [Write.indexing]

@[simp] theorem history_stranded : (state.stranded wallets system).history = state.history := by
  simp only [stranded, history_writeAll, history_withSystem, filterMap_wallet Write.archived fun _ => rfl,
    List.append_nil]

@[simp] theorem log_stranded : (state.stranded wallets system).log = state.log := by
  simp only [stranded, log_writeAll, log_withSystem, filterMap_wallet Write.logged fun _ => rfl, List.append_nil]

variable (state) in
/-- What writes aside leave of the past. -/
theorem past_writeAside (aside : ∀ write ∈ writes, write.aside = true) :
    (state.writeAll writes).history = state.history ∧ (state.writeAll writes).log = state.log ∧
      (state.writeAll writes).indexed = state.indexed := by
  have nothing {β : Type} {f : Write F → Option β}
      (none_of : ∀ write : Write F, write.aside = true → f write = none) : writes.filterMap f = [] :=
    filterMap_aside aside none_of
  rw [history_writeAll, log_writeAll, indexed_writeAll]
  refine ⟨?_, ?_, ?_⟩
  all_goals
    rw [nothing, List.append_nil]
    intro write outside
    cases write <;> first | rfl | cases outside

end CoinState

end AggoraCoin
