import AggoraCoin.Lib.Delimited
import AggoraCoin.Owners
import AggoraCoin.PohLog

namespace AggoraCoin

open Delimited

theorem toList_indexKey (walletId : WalletId) (tick : Tick) (txId : Hash) :
    (indexKey walletId tick txId).toList = walletId.toList ++ ':' :: (padded 20 tick ++ ':' :: txId.toList) := by
  have digits : (toString tick).toList = Nat.toDigits 10 tick := Nat.toList_repr
  have length : (toString tick).length = (Nat.toDigits 10 tick).length := by
    rw [← digits, String.length_toList]
  simp only [indexKey, padded, String.toList_append, String.toList_ofList, digits, length, List.append_assoc]
  rfl

/-- Where its parts hold no colon, a key stands for one wallet, tick and transaction. -/
theorem indexKey_inj {walletId walletId' : WalletId} {tick tick' : Tick} {txId txId' : Hash}
    (plainWallet : ':' ∉ walletId.toList) (plainTx : ':' ∉ txId.toList)
    (same : indexKey walletId tick txId = indexKey walletId' tick' txId') :
    walletId = walletId' ∧ tick = tick' ∧ txId = txId' := by
  have texts := congrArg String.toList same
  rw [toList_indexKey, toList_indexKey] at texts
  -- the key on the left has two colons, so the parts on the right have none
  have colons := congrArg (List.count ':') texts
  simp only [List.count_append, List.count_cons_self, List.count_eq_zero_of_not_mem plainWallet,
    List.count_eq_zero_of_not_mem plainTx, List.count_eq_zero_of_not_mem (colon_notMem_padded _ _)] at colons
  have plainWallet' : ':' ∉ walletId'.toList := List.count_eq_zero.mp (by omega)
  have plainTx' : ':' ∉ txId'.toList := List.count_eq_zero.mp (by omega)
  obtain ⟨wallets, rest⟩ := split plainWallet plainWallet' texts
  obtain ⟨ticks, txs⟩ := split (colon_notMem_padded _ _) (colon_notMem_padded _ _) rest
  exact ⟨String.toList_injective wallets, padded_injective 20 ticks, String.toList_injective txs⟩

theorem colon_notMem_encode (bytes : Bytes) : ':' ∉ (Hex.encode bytes).toList := by
  intro member
  rw [Hex.toList_encode] at member
  obtain ⟨byte, _, inPair⟩ := List.mem_flatMap.mp member
  have digit : isAsciiHexdigit ':' = true := Hex.isSome_digitValue_of_mem_pair inPair
  exact absurd digit (by decide)

variable {F : Type} [F64 F] {C : Crypto} {state : CoinState F}

/-- The wallets a transaction touches are named by hashes. -/
theorem Books.walletIds {booking : Booking F} {sheet : Sheet F} (books : Books C state booking sheet)
    (keyed : state.Keyed C Set.univ) : ∀ id ∈ sheet.tx.walletIds, ∃ input, id = C.blake3Hex input := by
  have stored {id : WalletId} {wallet : Wallet F} (found : state.getWallet id = some wallet) :
      ∃ input, id = C.blake3Hex input := by
    obtain ⟨key, _, _, named⟩ := keyed id wallet found
    have here : wallet.id = id := KeyedTree.key_of_get found
    exact ⟨key.val, here.symm.trans named⟩
  intro id member
  cases books with
  | create planned =>
    obtain ⟨key, _, _, named⟩ := planCreateWallet_key planned
    rw [Transaction.walletIds, List.mem_singleton, (planCreateWallet_ok planned).2.1.tx_toId] at member
    exact ⟨key.val, member.trans named⟩
  | seed planned =>
    obtain ⟨key, _, _, named⟩ := planSeedWallet_key planned
    rw [Transaction.walletIds, List.mem_singleton, (planSeedWallet_ok planned).1.tx_toId] at member
    exact ⟨key.val, member.trans named⟩
  | charge planned =>
    obtain ⟨_, wallet, valid⟩ := planCharge_ok planned
    rw [Transaction.walletIds, List.mem_singleton, valid.tx_toId] at member
    exact member ▸ stored valid.stored
  | transfer valid =>
    simp only [Transaction.walletIds, valid.tx_eq, List.mem_cons, List.not_mem_nil, or_false] at member
    rcases member with rfl | rfl
    · exact stored valid.stored_from
    · exact stored valid.stored_to
  | burn valid =>
    simp only [Transaction.walletIds, valid.tx_eq, List.mem_singleton] at member
    exact member ▸ stored valid.stored
  | @commit parameters beta result valid =>
    have listed {pairs : List MicroAgc} (here : id ∈ (((state.listWallets.map Wallet.id).zip pairs).map Prod.fst)) :
        ∃ input, id = C.blake3Hex input := by
      obtain ⟨pair, inZip, rfl⟩ := List.mem_map.mp here
      obtain ⟨wallet, scanned, named⟩ := List.mem_map.mp (List.of_mem_zip inZip).1
      exact named ▸ stored (KeyedTree.get_of_mem scanned)
    simp only [Transaction.walletIds, List.mem_append, valid.penalties_eq, valid.rewards_eq, valid.newWallets_eq] at member
    rcases member with (penalised | rewarded) | opened
    · exact listed penalised
    · exact listed rewarded
    · obtain ⟨wallet, planned, rfl⟩ := List.mem_map.mp opened
      obtain ⟨idx, _, rfl⟩ := List.mem_map.mp planned
      exact ⟨_, rfl⟩

/-- The keys written so far are those of the past transactions, each at its own tick. -/
structure CoinState.Indexed (C : Crypto) (state : CoinState F) : Prop where
  logged : state.Logged C
  keyed : state.Keyed C Set.univ
  written : state.indexed = state.history.zipIdx.flatMap fun placed => indexEntries placed.1 (placed.2 + 1)
  named : ∀ tx ∈ state.history, ∀ id ∈ tx.walletIds, ∃ input, id = C.blake3Hex input

theorem Books.indexed {booking : Booking F} {sheet : Sheet F} {entry : PohEntry} (books : Books C state booking sheet)
    (anchors : C.Anchors sheet.system.lastPohHash (sheet.system.currentTick + 1) (sheet.payload.bytes C)
      state.validatorId entry)
    (indexed : state.Indexed C) : (state.enter sheet entry).Indexed C := by
  have place : sheet.system.currentTick = state.history.length := by
    rw [books.currentTick_eq]
    exact (indexed.logged.matched.trans indexed.logged.ticked).symm
  constructor
  case logged => exact books.logged anchors indexed.logged
  case keyed =>
    intro id wallet here
    rw [CoinState.getWallet, CoinState.enter_wallets] at here
    exact books.keyed (fun _ _ => Set.mem_univ _) indexed.keyed id wallet here
  case written =>
    rw [CoinState.enter_indexed, CoinState.enter_history, List.zipIdx_append, List.flatMap_append, indexed.written, place]
    simp
  case named =>
    intro tx member
    rw [CoinState.enter_history, List.mem_append, List.mem_singleton] at member
    rcases member with old | rfl
    · exact indexed.named tx old
    · exact books.walletIds indexed.keyed

theorem indexed_of_steps {admits : CoinState F → Booking F → Sheet F → Prop} {start : CoinState F}
    (formed : Crypto.WellFormedSecret start.operatorSecret) (initial : start.Indexed C)
    (steps : Steps C admits start state) : state.Indexed C := by
  refine steps.invariant_of_formed (CoinState.Indexed C) formed initial ?_ ?_
  · intro before booking sheet entry books _ anchors indexed
    exact books.indexed anchors indexed
  · intro before after quiet indexed
    obtain ⟨history, _, keys⟩ := quiet.past
    refine ⟨quiet.logged indexed.logged, ?_, ?_, ?_⟩
    · intro id wallet here
      rw [CoinState.getWallet, quiet.ledger.wallets_eq] at here
      exact indexed.keyed id wallet here
    · rw [keys, history]
      exact indexed.written
    · rw [history]
      exact indexed.named

theorem OpenedEmpty.indexed {env : String → Option String} {config : NodeConfig F} {start : CoinState F}
    (opened : (openCoinState C env config .empty).1 = .ok start) : start.Indexed C := by
  obtain ⟨history, _, keys⟩ := openCoinState_empty_past opened
  refine ⟨OpenedEmpty.logged opened, (openCoinState_empty opened).keyed, ?_, ?_⟩
  · rw [keys, history]
    rfl
  · rw [history]
    simp

omit [F64 F] in
/-- A key is in the index exactly when the transaction of its tick has its id and touches its wallet. -/
theorem CoinState.Indexed.isSome_get_iff (indexed : state.Indexed C) (walletId : WalletId) (tick : Tick) (txId : Hash) :
    (state.trees.txByWallet.get (indexKey walletId tick txId)).isSome ↔
      ∃ i tx, tick = i + 1 ∧ state.history[i]? = some tx ∧ tx.txId = txId ∧ walletId ∈ tx.walletIds := by
  rw [state.txByWallet_eq, KeyedTree.isSome_get_putAll, indexed.written]
  simp only [KeyedTree.get_empty, Option.isSome_none, Bool.false_eq_true, false_or, List.mem_map, List.mem_flatMap,
    Prod.exists]
  constructor
  · rintro ⟨key, _, ⟨tx, i, placed, listed⟩, same⟩
    have here := List.mem_zipIdx_iff_getElem?.mp placed
    obtain ⟨id, touched, pair⟩ := List.mem_map.mp listed
    cases pair
    obtain ⟨input, hex⟩ := indexed.named tx (List.mem_of_getElem? here) id touched
    obtain ⟨entry, atEntry⟩ : ∃ entry, state.log[i]? = some entry := by
      have inside := (List.getElem?_eq_some_iff.mp here).1
      rw [indexed.logged.matched] at inside
      exact ⟨_, List.getElem?_eq_getElem inside⟩
    obtain ⟨tx', bytes, there, named, _⟩ := indexed.logged.anchored i entry atEntry
    cases Option.some.inj (here.symm.trans there)
    have plainWallet : ':' ∉ id.toList := hex ▸ colon_notMem_encode _
    have plainTx : ':' ∉ tx.txId.toList := named ▸ colon_notMem_encode _
    obtain ⟨rfl, rfl, rfl⟩ := indexKey_inj plainWallet plainTx same
    exact ⟨i, tx, rfl, here, rfl, touched⟩
  · rintro ⟨i, tx, rfl, here, rfl, touched⟩
    refine ⟨_, tx.txId, ⟨tx, i, List.mem_zipIdx_iff_getElem?.mpr here, ?_⟩, rfl⟩
    exact List.mem_map.mpr ⟨walletId, touched, rfl⟩

end AggoraCoin
