import AggoraCoin.CallMoves
import AggoraCoin.Concrete
import AggoraCoin.Lib.Reach

namespace AggoraCoin

variable {F : Type} [F64 F] {C : Crypto} {state : CoinState F}

/-- What the system state says of the wallets is true of the wallets stored. -/
structure CoinState.Cached (state : CoinState F) : Prop where
  supply : state.system.totalSupply = state.storedSupply
  count : state.system.nWallets = state.trees.wallets.size

/-- What a posting does to the cache, before its entry. -/
theorem Posting.cached {wallets : List (Wallet F)} {system : SystemState F} {tx : Transaction F}
    {payload : Payload F} (posting : Posting C state wallets system tx payload) (cached : state.Cached)
    (within : (state.trees.wallets.putAll wallets).total Wallet.balance ≤ u64Max) :
    system.totalSupply = (state.trees.wallets.putAll wallets).total Wallet.balance ∧
      system.nWallets = (state.trees.wallets.putAll wallets).size := by
  cases posting with
  | @create operatorId plan valid =>
    simp only [KeyedTree.putAll_cons, KeyedTree.putAll_nil, valid.total] at within ⊢
    rw [KeyedTree.size_put_fresh valid.absent, ← cached.count, ← cached.supply]
    rw [← cached.supply] at within
    exact ⟨Unsigned.saturatingAdd_of_le within, rfl⟩
  | @charge request wallet plan valid fits =>
    simp only [KeyedTree.putAll_cons, KeyedTree.putAll_nil, valid.total fits] at within ⊢
    rw [KeyedTree.size_put_of_get valid.key, ← cached.count, ← cached.supply]
    rw [← cached.supply] at within
    exact ⟨Unsigned.saturatingAdd_of_le within, rfl⟩
  | @transfer security request key fromWallet toWallet plan valid fits =>
    simp only [KeyedTree.putAll_cons, KeyedTree.putAll_nil, valid.total fits, valid.size]
    exact ⟨cached.supply, cached.count⟩
  | @burn security request key wallet plan valid =>
    have total := valid.total
    simp only [KeyedTree.putAll_cons, KeyedTree.putAll_nil, valid.size]
    refine ⟨?_, cached.count⟩
    change state.system.totalSupply - request.amount = _
    rw [cached.supply]
    lia

theorem Move.cached {hashed : Set (Payload F)} {before after : CoinState F}
    (move : Move C (Posting C) hashed before after) (cached : before.Cached) : after.Cached := by
  cases move with
  | post posting _ within _ _ =>
    obtain ⟨supply, count⟩ := posting.cached cached within
    rw [← CoinState.posted_wallets] at supply count
    exact ⟨supply, count⟩
  | strand posting within _ =>
    obtain ⟨supply, count⟩ := posting.cached cached within
    rw [← CoinState.stranded_wallets] at supply count
    exact ⟨supply, count⟩
  | keep keeps =>
    constructor
    · rw [keeps.totalSupply_eq, CoinState.storedSupply, keeps.ledger.wallets_eq]
      exact cached.supply
    · rw [keeps.nWallets_eq, keeps.ledger.wallets_eq]
      exact cached.count

/-- After every call of a run between two iterations, accepted or rejected, the cached supply
and wallet count are those of the wallets stored. -/
theorem cached_of_reach {start : CoinState F} (cached : start.Cached) (bound : start.storedSupply ≤ u64Max)
    (reach : Reach (fun state call => Call.next C call state)
      (fun state call => call.Operation ∧ call.Fits C state) start state) : state.Cached := by
  suffices both : state.Cached ∧ state.storedSupply ≤ u64Max from both.1
  refine reach.invariant (fun s => s.Cached ∧ s.storedSupply ≤ u64Max) ⟨cached, bound⟩ ?_
  rintro s call ⟨cached, bound⟩ ⟨operation, fits⟩
  have moves := call.moves_of_operation operation fits bound
  exact ⟨moves.invariant CoinState.Cached cached (fun _ _ move => move.cached), moves.storedSupply_le bound⟩

/-- A charge of 5 on two wallets that hold 40000000. -/
theorem cached_of_reach_pair :
    ((Call.charge Concrete.parameters (Concrete.chargeRequest 5) Concrete.operator "sig" 0 0).next Concrete.crypto
      Concrete.pair).Cached := by
  refine cached_of_reach (C := Concrete.crypto) ⟨?_, ?_⟩ ?_ (.next .start ⟨trivial, ?_⟩)
  · decide +kernel
  · decide +kernel
  · decide +kernel
  · change Call.exactSupply _ _ _ ≤ u64Max
    decide +kernel

end AggoraCoin
