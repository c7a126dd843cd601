import AggoraCoin.Lib.KeyedTree
import AggoraCoin.Lib.Bytes
import AggoraCoin.Types

namespace AggoraCoin

/-- The JSON file written at an iteration commit. -/
structure Snapshot (F : Type) where
  iterationId : IterationId
  tick : Tick
  timestamp : Timestamp
  parameters : SystemParameters F
  systemState : SystemState F
  wallets : List (Wallet F)
  pohAnchor : Hash

/-- One write to one key of one tree (or one snapshot file). -/
inductive Write (F : Type)
  | wallet (wallet : Wallet F)
  | operator (operator : Operator)
  | validator (validator : Validator)
  | transaction (tx : Transaction F)
  | txByWallet (key : String) (txId : Hash)
  | pohEntry (entry : PohEntry)
  | iteration (commit : IterationCommit F)
  | state (state : SystemState F)
  | parameters (parameters : SystemParameters F)
  | snapshot (snapshot : Snapshot F)

/-- The sled trees. Big-endian tick and iteration keys order as the numbers do. -/
structure Trees (F : Type) where
  wallets : KeyedTree (Wallet.id (F := F))
  operators : KeyedTree Operator.id
  validators : KeyedTree Validator.id
  transactions : KeyedTree (Transaction.txId (F := F))
  pohLog : KeyedTree PohEntry.tick
  txByWallet : KeyedTree (Prod.fst : String × Hash → String)
  iterations : KeyedTree (IterationCommit.iterationId (F := F))
  state : Option (SystemState F)
  parameters : Option (SystemParameters F)
  snapshots : KeyedTree (Snapshot.iterationId (F := F))

namespace Trees

variable {F : Type}

def empty : Trees F := ⟨.empty, .empty, .empty, .empty, .empty, .empty, .empty, none, none, .empty⟩

@[simp] def apply (t : Trees F) : Write F → Trees F
  | .wallet w => { t with wallets := t.wallets.put w }
  | .operator o => { t with operators := t.operators.put o }
  | .validator v => { t with validators := t.validators.put v }
  | .transaction tx => { t with transactions := t.transactions.put tx }
  | .txByWallet key txId => { t with txByWallet := t.txByWallet.put (key, txId) }
  | .pohEntry e => { t with pohLog := t.pohLog.put e }
  | .iteration c => { t with iterations := t.iterations.put c }
  | .state s => { t with state := some s }
  | .parameters p => { t with parameters := some p }
  | .snapshot s => { t with snapshots := t.snapshots.put s }

def applyAll (t : Trees F) (writes : List (Write F)) : Trees F := writes.foldl apply t

@[simp] theorem applyAll_nil (t : Trees F) : t.applyAll [] = t := rfl

@[simp] theorem applyAll_cons (t : Trees F) (w : Write F) (ws : List (Write F)) :
    t.applyAll (w :: ws) = (t.apply w).applyAll ws := rfl

theorem applyAll_append (t : Trees F) (ws vs : List (Write F)) :
    t.applyAll (ws ++ vs) = (t.applyAll ws).applyAll vs := List.foldl_append

@[simp] theorem applyAll_wallets (t : Trees F) (wallets : List (Wallet F)) :
    t.applyAll (wallets.map .wallet) = { t with wallets := t.wallets.putAll wallets } := by
  induction wallets generalizing t with
  | nil => rfl
  | cons w rest ih => rw [List.map_cons, applyAll_cons, ih]; rfl

end Trees

/-- `{wallet_id}:{tick:020}:{tx_id}` -/
def indexKey (walletId : WalletId) (tick : Tick) (txId : Hash) : String :=
  let digits := toString tick
  walletId ++ ":" ++ String.ofList (List.replicate (20 - digits.length) '0') ++ digits ++ ":" ++ txId

/-- The `tx_by_wallet` keys of a transaction, in the order of its wallet ids. -/
def indexEntries {F : Type} (tx : Transaction F) (tick : Tick) : List (String × Hash) :=
  tx.walletIds.map fun walletId => (indexKey walletId tick tx.txId, tx.txId)

/-- The keys `put_transaction` writes, in program order. -/
def transactionWrites {F : Type} (tx : Transaction F) (tick : Tick) : List (Write F) :=
  .transaction tx :: (indexEntries tx tick).map fun entry => .txByWallet entry.1 entry.2

theorem Trees.applyAll_txByWallet {F : Type} (t : Trees F) (entries : List (String × Hash)) :
    t.applyAll (entries.map fun entry => .txByWallet entry.1 entry.2) =
      { t with txByWallet := t.txByWallet.putAll entries } := by
  induction entries generalizing t with
  | nil => rfl
  | cons entry rest ih => rw [List.map_cons, applyAll_cons, ih]; rfl

@[simp] theorem Trees.applyAll_transactionWrites {F : Type} (t : Trees F) (tx : Transaction F) (tick : Tick) :
    t.applyAll (transactionWrites tx tick) =
      { t with
        transactions := t.transactions.put tx
        txByWallet := t.txByWallet.putAll (indexEntries tx tick) } := by
  rw [transactionWrites, applyAll_cons, applyAll_txByWallet]
  rfl

/-- The database, kept as the key writes made so far in program order. A tree holds
what those writes left under each key. -/
structure Storage (F : Type) where
  journal : List (Write F)

namespace Storage

variable {F : Type}

def empty : Storage F := ⟨[]⟩

def trees (s : Storage F) : Trees F := Trees.empty.applyAll s.journal

def writeAll (s : Storage F) (writes : List (Write F)) : Storage F := ⟨s.journal ++ writes⟩

@[simp] theorem trees_empty : (empty : Storage F).trees = Trees.empty := rfl

@[simp] theorem trees_writeAll (s : Storage F) (writes : List (Write F)) :
    (s.writeAll writes).trees = s.trees.applyAll writes := Trees.applyAll_append _ _ _

theorem journal_writeAll (s : Storage F) (writes : List (Write F)) :
    (s.writeAll writes).journal = s.journal ++ writes := rfl

section Readers

variable [F64 F]

def getTransaction (txId : Hash) (s : Storage F) : Option (Transaction F) :=
  (s.trees.transactions.get txId).map Transaction.reread

def getIteration (iterationId : IterationId) (s : Storage F) : Option (IterationCommit F) :=
  (s.trees.iterations.get iterationId).map IterationCommit.reread

def listIterations (s : Storage F) : List (IterationCommit F) := s.trees.iterations.entries.map IterationCommit.reread

def loadState (s : Storage F) : Option (SystemState F) := s.trees.state.map SystemState.reread

def loadParameters (s : Storage F) : Option (SystemParameters F) := s.trees.parameters.map SystemParameters.reread

end Readers

/-- What a crash leaves when only the first `durable` of the writes reached the disk. -/
def crash (s : Storage F) (durable : Nat) : Storage F := ⟨s.journal.take durable⟩

end Storage

end AggoraCoin
