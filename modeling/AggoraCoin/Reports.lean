import AggoraCoin.Economy

namespace AggoraCoin

variable {F : Type}

structure StatsResponse (F : Type) where
  currentTick : Tick
  currentIteration : IterationId
  totalSupply : MicroAgc
  nWallets : Nat
  nActiveWallets : Nat
  gini : F
  lastPohHash : Hash
  lastInflation : F

structure SupplyPoint where
  iteration : IterationId
  supply : MicroAgc
  burned : MicroAgc
  faucetFromMint : MicroAgc
  deriving DecidableEq, Repr

structure GiniPoint (F : Type) where
  iteration : IterationId
  gini : F

namespace Storage

variable [F64 F]

def supplyHistory (storage : Storage F) : List SupplyPoint :=
  storage.listIterations.map fun commit =>
    { iteration := commit.iterationId, supply := commit.postSupply, burned := commit.burned,
      faucetFromMint := commit.faucetFromMint }

def giniHistory (storage : Storage F) : List (GiniPoint F) :=
  storage.listIterations.map fun commit => { iteration := commit.iterationId, gini := commit.snapshotGini }

end Storage

namespace CoinState

def stats (state : CoinState F) : StatsResponse F where
  currentTick := state.system.currentTick
  currentIteration := state.system.currentIteration
  totalSupply := state.system.totalSupply
  nWallets := state.system.nWallets
  nActiveWallets := state.system.nActiveWallets
  gini := state.system.lastGini
  lastPohHash := state.system.lastPohHash
  lastInflation := state.system.lastInflation

end CoinState

end AggoraCoin
