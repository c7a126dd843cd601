import AggoraCoin.Lib.Ranking
import AggoraCoin.Lib.Delimited
import AggoraCoin.Index

namespace AggoraCoin

open Delimited

variable {F : Type}

def Storage.putTransaction (tx : Transaction F) (tick : Tick) (storage : Storage F) : Storage F :=
  storage.writeAll (transactionWrites tx tick)

/-- The index entries of a wallet, in key order. -/
def Storage.scanWallet (walletId : WalletId) (storage : Storage F) : List (String × Hash) :=
  storage.trees.txByWallet.entries.filter fun entry => (walletId ++ ":").toList.isPrefixOf entry.1.toList

def Storage.listTransactionsForWallet [F64 F] (walletId : WalletId) (limit : Nat) (storage : Storage F) :
    List (Transaction F) :=
  let txIds := (storage.scanWallet walletId).map Prod.snd
  ((Ranking.descending txIds).take limit).filterMap fun txId => storage.getTransaction txId

/-- One call of `put_transaction`. -/
structure Put (F : Type) where
  tx : Transaction F
  tick : Tick

/-- The store that a sequence of calls leaves. -/
def Storage.ofPuts (puts : List (Put F)) : Storage F :=
  puts.foldl (fun storage put => storage.putTransaction put.tx put.tick) .empty

/-- Sixty-four hexadecimal digits. -/
structure WalletId.Formed (walletId : WalletId) : Prop where
  length_eq : walletId.length = 64
  hex : ∀ c ∈ walletId.toList, isAsciiHexdigit c = true

/-- Calls as a node makes them: a later tick each time, no id twice, and wallets named by hashes. -/
structure Ticking (puts : List (Put F)) : Prop where
  ascending : (puts.map Put.tick).Pairwise (· < ·)
  distinct : (puts.map fun put => put.tx.txId).Nodup
  formed : ∀ put ∈ puts, ∀ walletId ∈ put.tx.walletIds, WalletId.Formed walletId

/-- The transactions that touch a wallet, the newest first. -/
def newest (walletId : WalletId) (puts : List (Put F)) : List (Transaction F) :=
  ((puts.map Put.tx).filter fun tx => decide (walletId ∈ tx.walletIds)).reverse

theorem trees_ofPuts (puts : List (Put F)) :
    (Storage.ofPuts puts).trees.transactions = KeyedTree.empty.putAll (puts.map Put.tx) ∧
      (Storage.ofPuts puts).trees.txByWallet =
        KeyedTree.empty.putAll (puts.flatMap fun put => indexEntries put.tx put.tick) := by
  unfold Storage.ofPuts
  induction puts using List.reverseRecOn with
  | nil => exact ⟨rfl, rfl⟩
  | append_singleton puts put ih =>
    obtain ⟨transactions, index⟩ := ih
    rw [List.foldl_append, List.foldl_cons, List.foldl_nil, Storage.putTransaction, Storage.trees_writeAll,
      Trees.applyAll_transactionWrites, transactions, index]
    simp [KeyedTree.putAll_append]

theorem WalletId.Formed.plain {walletId : WalletId} (formed : WalletId.Formed walletId) : ':' ∉ walletId.toList :=
  fun member => absurd (formed.hex ':' member) (by decide)

variable {puts : List (Put F)} {walletId : WalletId}

/-- Between keys that begin with well-formed wallet ids. -/
theorem indexKey_inj_formed {walletId' : WalletId} {tick tick' : Tick} {txId txId' : Hash}
    (formed : WalletId.Formed walletId) (formed' : WalletId.Formed walletId')
    (same : indexKey walletId tick txId = indexKey walletId' tick' txId') :
    walletId = walletId' ∧ tick = tick' ∧ txId = txId' := by
  have texts := congrArg String.toList same
  rw [toList_indexKey, toList_indexKey] at texts
  obtain ⟨wallets, rest⟩ := split formed.plain formed'.plain texts
  obtain ⟨ticks, txs⟩ := split (colon_notMem_padded _ _) (colon_notMem_padded _ _) rest
  exact ⟨String.toList_injective wallets, padded_injective 20 ticks, String.toList_injective txs⟩

/-- A key begins with `{wallet_id}:` when it was made for that wallet. -/
theorem opens_indexKey {id : WalletId} {tick : Tick} {txId : Hash} (formed : WalletId.Formed walletId)
    (formed' : WalletId.Formed id) :
    (walletId ++ ":").toList.isPrefixOf (indexKey id tick txId).toList = true ↔ id = walletId := by
  rw [List.isPrefixOf_iff_prefix, toList_indexKey]
  have opening : (walletId ++ ":").toList = walletId.toList ++ [':'] := String.toList_append
  rw [opening]
  constructor
  · rintro ⟨rest, texts⟩
    rw [List.append_assoc] at texts
    exact String.toList_injective (split formed.plain formed'.plain texts).1.symm
  · rintro rfl
    exact ⟨padded 20 tick ++ ':' :: txId.toList, by rw [List.append_assoc]; rfl⟩

theorem mem_scanWallet_iff (ticking : Ticking puts) (formed : WalletId.Formed walletId) {entry : String × Hash} :
    entry ∈ (Storage.ofPuts puts).scanWallet walletId ↔
      ∃ put ∈ puts, walletId ∈ put.tx.walletIds ∧ entry = (indexKey walletId put.tick put.tx.txId, put.tx.txId) := by
  have index := (trees_ofPuts puts).2
  have written {entry : String × Hash} (member : entry ∈ (Storage.ofPuts puts).trees.txByWallet.entries) :
      ∃ put ∈ puts, ∃ id ∈ put.tx.walletIds, entry = (indexKey id put.tick put.tx.txId, put.tx.txId) := by
    rw [index] at member
    rcases KeyedTree.mem_putAll member with old | new
    · cases old
    · obtain ⟨put, called, listed⟩ := List.mem_flatMap.mp new
      obtain ⟨id, touched, rfl⟩ := List.mem_map.mp listed
      exact ⟨put, called, id, touched, rfl⟩
  unfold Storage.scanWallet
  rw [List.mem_filter]
  constructor
  · rintro ⟨member, opens⟩
    obtain ⟨put, called, id, touched, rfl⟩ := written member
    cases (opens_indexKey formed (ticking.formed put called id touched)).mp opens
    exact ⟨put, called, touched, rfl⟩
  · rintro ⟨put, called, touched, rfl⟩
    refine ⟨?_, (opens_indexKey formed formed).mpr rfl⟩
    have kept : ((Storage.ofPuts puts).trees.txByWallet.get (indexKey walletId put.tick put.tx.txId)).isSome := by
      rw [index, KeyedTree.isSome_get_putAll]
      refine Or.inr (List.mem_map.mpr ⟨_, List.mem_flatMap.mpr ⟨put, called, List.mem_map.mpr ⟨walletId, touched, rfl⟩⟩, rfl⟩)
    obtain ⟨entry, found⟩ := Option.isSome_iff_exists.mp kept
    have member := KeyedTree.mem_of_get found
    have keys : entry.1 = indexKey walletId put.tick put.tx.txId := KeyedTree.key_of_get found
    obtain ⟨other, calledOther, id, touchedOther, rfl⟩ := written member
    obtain ⟨_, _, txs⟩ := indexKey_inj_formed (ticking.formed other calledOther id touchedOther) formed keys
    dsimp only at keys
    rwa [keys, txs] at member

theorem scanWallet_nodup (ticking : Ticking puts) (formed : WalletId.Formed walletId) :
    (((Storage.ofPuts puts).scanWallet walletId).map Prod.snd).Nodup := by
  have keys := KeyedTree.keys_nodup (Storage.ofPuts puts).trees.txByWallet
  refine List.Nodup.map_on ?_ ((keys.of_map _).filter _)
  intro one member other member' same
  obtain ⟨put, called, _, rfl⟩ := (mem_scanWallet_iff ticking formed).mp member
  obtain ⟨put', called', _, rfl⟩ := (mem_scanWallet_iff ticking formed).mp member'
  have puts_eq : put = put' := List.inj_on_of_nodup_map ticking.distinct called called' same
  rw [puts_eq]

/-- The scan finds the ids of the wallet's transactions, each once. -/
theorem scanWallet_perm (ticking : Ticking puts) (formed : WalletId.Formed walletId) :
    (((Storage.ofPuts puts).scanWallet walletId).map Prod.snd).Perm ((newest walletId puts).map Transaction.txId) := by
  have named : (puts.map Put.tx).map Transaction.txId = puts.map fun put => put.tx.txId := List.map_map
  have listed : ((newest walletId puts).map Transaction.txId).Nodup := by
    rw [newest, List.map_reverse, List.nodup_reverse]
    refine (ticking.distinct.sublist ?_)
    rw [← named]
    exact (List.filter_sublist).map _
  refine (List.perm_ext_iff_of_nodup (scanWallet_nodup ticking formed) listed).mpr fun txId => ?_
  simp only [newest, List.mem_map, List.mem_reverse, List.mem_filter, decide_eq_true_eq]
  constructor
  · rintro ⟨entry, member, rfl⟩
    obtain ⟨put, called, touched, rfl⟩ := (mem_scanWallet_iff ticking formed).mp member
    exact ⟨put.tx, ⟨⟨put, called, rfl⟩, touched⟩, rfl⟩
  · rintro ⟨tx, ⟨⟨put, called, rfl⟩, touched⟩, rfl⟩
    exact ⟨_, (mem_scanWallet_iff ticking formed).mpr ⟨put, called, touched, rfl⟩, rfl⟩

theorem get_newest (ticking : Ticking puts) {tx : Transaction F} (member : tx ∈ newest walletId puts) :
    (Storage.ofPuts puts).trees.transactions.get tx.txId = some tx := by
  have called : tx ∈ puts.map Put.tx := (List.mem_filter.mp (List.mem_reverse.mp member)).1
  have distinct : ((puts.map Put.tx).map Transaction.txId).Nodup := by
    rw [List.map_map]
    exact ticking.distinct
  rw [(trees_ofPuts puts).1]
  exact KeyedTree.get_putAll_of_mem distinct called

variable [F64 F]

theorem map_txId_reread (txs : List (Transaction F)) :
    (txs.map Transaction.reread).map Transaction.txId = txs.map Transaction.txId := by
  simp [List.map_map, Function.comp_def]

theorem listTransactionsForWallet_eq (ticking : Ticking puts) (formed : WalletId.Formed walletId) (limit : Nat) :
    (Storage.ofPuts puts).listTransactionsForWallet walletId limit =
      (((Ranking.descending ((newest walletId puts).map Transaction.txId)).take limit).filterMap
        (Storage.ofPuts puts).trees.transactions.get).map Transaction.reread := by
  rw [Storage.listTransactionsForWallet, Ranking.descending_congr (scanWallet_perm ticking formed), List.map_filterMap]
  rfl

theorem listTransactionsForWallet_ids (ticking : Ticking puts) (formed : WalletId.Formed walletId) (limit : Nat) :
    ((Storage.ofPuts puts).listTransactionsForWallet walletId limit).map Transaction.txId =
      (Ranking.descending ((newest walletId puts).map Transaction.txId)).take limit := by
  rw [listTransactionsForWallet_eq ticking formed, map_txId_reread]
  refine KeyedTree.map_filterMap_get fun txId member => ?_
  have listed := (Ranking.descending_perm _).mem_iff.mp (List.mem_of_mem_take member)
  obtain ⟨tx, inside, rfl⟩ := List.mem_map.mp listed
  exact Option.isSome_iff_exists.mpr ⟨tx, get_newest ticking inside⟩

/-- The query answers with the newest transactions, as they are read back, exactly when each of them has
a greater id than all that came before it. -/
theorem listTransactionsForWallet_eq_newest_iff (ticking : Ticking puts) (formed : WalletId.Formed walletId)
    (limit : Nat) :
    (Storage.ofPuts puts).listTransactionsForWallet walletId limit =
        ((newest walletId puts).take limit).map Transaction.reread ↔
      Ranking.Leads limit ((newest walletId puts).map Transaction.txId) := by
  have distinct : ((newest walletId puts).map Transaction.txId).Nodup :=
    (scanWallet_perm ticking formed).nodup_iff.mp (scanWallet_nodup ticking formed)
  rw [← Ranking.take_descending_eq_iff distinct]
  constructor
  · intro answered
    have ids := congrArg (List.map Transaction.txId) answered
    rwa [listTransactionsForWallet_ids ticking formed, map_txId_reread, List.map_take] at ids
  · intro ranked
    rw [listTransactionsForWallet_eq ticking formed, ranked, ← List.map_take]
    refine congrArg (List.map Transaction.reread) ?_
    exact KeyedTree.filterMap_get_map fun tx member => get_newest ticking (List.mem_of_mem_take member)

namespace Concrete

/-- One digit, sixty-four times. -/
def repdigit (c : Char) : String := String.ofList (List.replicate 64 c)

def burnOf (txId : Hash) : Transaction ℚ := .burn ⟨txId, repdigit 'a', 1, 0, 0, "", ""⟩

/-- Two burns of one wallet, a tick apart. -/
def burns (older newer : Hash) : List (Put ℚ) := [⟨burnOf older, 1⟩, ⟨burnOf newer, 2⟩]

theorem repdigit_formed : WalletId.Formed (repdigit 'a') := by
  constructor
  · rw [repdigit, String.length_ofList, List.length_replicate]
  · intro c member
    rw [repdigit, String.toList_ofList] at member
    rw [(List.mem_replicate.mp member).2]
    decide

theorem burns_ticking {older newer : Hash} (different : older ≠ newer) : Ticking (burns older newer) := by
  constructor
  · simp [burns]
  · simpa [burns, burnOf, Transaction.txId] using different
  · intro put member walletId touched
    have owner : walletId = repdigit 'a' := by
      simp only [burns, List.mem_cons, List.not_mem_nil, or_false] at member
      rcases member with rfl | rfl
      all_goals exact List.mem_singleton.mp touched
    rw [owner]
    exact repdigit_formed

theorem newest_burns (older newer : Hash) : newest (repdigit 'a') (burns older newer) = [burnOf newer, burnOf older] := by
  simp [newest, burns, burnOf, Transaction.walletIds]

end Concrete

/-- A wallet burns twice, and the later burn has the smaller id: the latest transaction is left out. -/
theorem listTransactionsForWallet_stale :
    ∃ (puts : List (Put ℚ)) (walletId : WalletId), Ticking puts ∧ WalletId.Formed walletId ∧
      (Storage.ofPuts puts).listTransactionsForWallet walletId 1 ≠
        ((newest walletId puts).take 1).map Transaction.reread := by
  have below : Concrete.repdigit '0' < Concrete.repdigit 'f' := by decide
  have ticking := Concrete.burns_ticking below.ne'
  refine ⟨_, _, ticking, Concrete.repdigit_formed, fun answered => ?_⟩
  have ids := congrArg (List.map Transaction.txId) answered
  rw [listTransactionsForWallet_ids ticking Concrete.repdigit_formed, Concrete.newest_burns, List.map_cons,
    List.map_singleton, Ranking.descending_congr (.swap ..), Ranking.descending_cons] at ids
  · exact below.ne' (List.cons.inj ids).1
  · intro later member
    exact List.mem_singleton.mp member ▸ below

/-- Where the later burn has the greater id, the answer is right. -/
theorem listTransactionsForWallet_eq_newest_burns :
    (Storage.ofPuts (Concrete.burns (Concrete.repdigit '0') (Concrete.repdigit 'f'))).listTransactionsForWallet
        (Concrete.repdigit 'a') 1 =
      ((newest (Concrete.repdigit 'a') (Concrete.burns (Concrete.repdigit '0') (Concrete.repdigit 'f'))).take 1).map
        Transaction.reread := by
  have below : Concrete.repdigit '0' < Concrete.repdigit 'f' := by decide
  refine (listTransactionsForWallet_eq_newest_iff (Concrete.burns_ticking below.ne) Concrete.repdigit_formed 1).mpr ?_
  rw [Concrete.newest_burns]
  exact ⟨fun later member => List.mem_singleton.mp member ▸ below, trivial⟩

end AggoraCoin
