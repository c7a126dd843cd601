import AggoraCoin.CallMoves

namespace AggoraCoin

variable {F : Type} [F64 F] {C : Crypto} {state : CoinState F} {parameters : SystemParameters F} {beta : F}

/-- A wallet that was stored is settled in its place. -/
theorem get_putAll_settled {id : WalletId} {wallet : Wallet F} (parameters : SystemParameters F) (beta : F)
    (stored : state.getWallet id = some wallet) :
    ∃ i penalty reward, state.listWallets[i]? = some wallet ∧
      SettledAt parameters beta state.listWallets i wallet penalty reward
        (rewardWallet (chargeWallet parameters.economy wallet penalty) reward) ∧
      (state.trees.wallets.putAll (settleIteration parameters beta state.listWallets).wallets).get id =
        some (rewardWallet (chargeWallet parameters.economy wallet penalty) reward) := by
  obtain ⟨i, inside, here⟩ := List.getElem_of_mem (KeyedTree.mem_of_get stored)
  have found : state.listWallets[i]? = some wallet := List.getElem?_eq_some_iff.mpr ⟨inside, here⟩
  obtain ⟨penalty, reward, place⟩ := settledAt parameters beta state.listWallets found
  have named : wallet.id = id := KeyedTree.key_of_get stored
  refine ⟨i, penalty, reward, found, place, KeyedTree.get_eq_some_iff.mpr ⟨?_, named⟩⟩
  rw [entries_putAll_settled]
  exact List.mem_of_getElem? place.wallet_eq

/-- Writing the settled wallets back neither adds nor removes a key. -/
theorem get_putAll_settled_eq_none_iff (state : CoinState F) (parameters : SystemParameters F) (beta : F)
    (id : WalletId) :
    (state.trees.wallets.putAll (settleIteration parameters beta state.listWallets).wallets).get id = none ↔
      state.getWallet id = none := by
  rw [KeyedTree.get_eq_none_iff, entries_putAll_settled, settleIteration_ids]
  exact KeyedTree.get_eq_none_iff.symm

/-- How a key fares in an iteration. -/
inductive KeyOutcome (C : Crypto) (parameters : SystemParameters F) (state : CoinState F) (id : WalletId) :
    Option (Wallet F) → Prop
  /-- The faucet opens a wallet under it, whatever was there. -/
  | opened (idx : Nat) (planned : idx < plannedNewWallets parameters.growth state.listWallets.length)
      (named : id = C.blake3Hex (faucetKey C (state.system.currentIteration + 1) idx).val) :
      KeyOutcome C parameters state id (some (plannedWallet C parameters state.system state.operatorId idx))
  | settled {wallet : Wallet F} (penalty reward : MicroAgc) (stored : state.getWallet id = some wallet) :
      KeyOutcome C parameters state id (some (rewardWallet (chargeWallet parameters.economy wallet penalty) reward))
  | absent (missing : state.getWallet id = none) : KeyOutcome C parameters state id none

theorem IterationResult.Valid.keyOutcome {result : IterationResult F}
    (valid : result.Valid C parameters state.system state.operatorId state.listWallets beta) (id : WalletId) :
    KeyOutcome C parameters state id ((state.trees.wallets.putAll result.wallets).get id) := by
  rw [valid.wallets_eq, KeyedTree.putAll_append]
  rcases KeyedTree.get_putAll_cases (state.trees.wallets.putAll
      (settleIteration parameters beta state.listWallets).wallets)
      (plannedWallets C parameters state.system state.operatorId state.listWallets.length) id with
    ⟨wallet, member, named, found⟩ | ⟨_, same⟩
  · obtain ⟨idx, inside, rfl⟩ := List.mem_map.mp member
    rw [found]
    exact .opened idx (List.mem_range.mp inside) named.symm
  · rw [same]
    cases stored : state.getWallet id with
    | none =>
      rw [(get_putAll_settled_eq_none_iff state parameters beta id).mpr stored]
      exact .absent stored
    | some wallet =>
      obtain ⟨_, penalty, reward, _, _, settled⟩ := get_putAll_settled parameters beta stored
      rw [settled]
      exact .settled penalty reward stored

end AggoraCoin
