import AggoraCoin.Calls

namespace AggoraCoin

variable {F : Type} [F64 F] (C : Crypto)

namespace Call

/-- The supply the call leads to when no addition saturates. A new wallet holds its whole
amount, a transfer moves what is there, and a charge or a reward is counted in full. -/
def exactSupply (call : Call F) (state : CoinState F) : Nat :=
  match call with
  | charge parameters request operator operatorSig guardNow _ =>
    if request.amount = 0 then state.storedSupply
    else
      match guardOperatorReplay parameters.security operatorSig request.timestamp guardNow state with
      | (.error _, _) => state.storedSupply
      | (.ok _, guarded) =>
        match planCharge C request operator operatorSig guarded with
        | .error _ => state.storedSupply
        | .ok _ => state.storedSupply + request.amount
  | transfer _ _ _ => state.storedSupply
  | executeIterationNow parameters _ _ =>
    if state.system.iterationLock then state.storedSupply
    else
      match executeIteration C state.listWallets parameters state.locked.system state.operatorId with
      | .ok result =>
        state.storedSupply + (result.commit.rewards.map Prod.snd).sum +
          result.commit.newWallets.length * microSeed parameters - (result.commit.penalties.map Prod.snd).sum
      | _ => state.storedSupply
  | call => (call.next C state).storedSupply

/-- The exact supply stays within a `u64`. -/
def Fits (call : Call F) (state : CoinState F) : Prop := call.exactSupply C state ≤ u64Max

/-- The payloads `install_seed` hashes, entry by entry. -/
def seedPayloads (parameters : SystemParameters F) (clock : Nat → Timestamp) :
    List SeedWallet → Nat → CoinState F → List (Payload F)
  | [], _, _ => []
  | entry :: rest, installed, state =>
    match planSeedWallet C parameters entry (clock (3 * installed)) (clock (3 * installed + 1)) state with
    | .error _ => []
    | .ok none => seedPayloads parameters clock rest installed state
    | .ok (some plan) =>
      .mint plan.payload ::
        match insertMinted C plan (clock (3 * installed + 2)) state with
        | (.error _, _) => []
        | (.ok _, state) => seedPayloads parameters clock rest (installed + 1) state

/-- The payloads whose hash the call uses as a transaction id. -/
def payloads (call : Call F) (state : CoinState F) : List (Payload F) :=
  match call with
  | createWallet parameters request operator operatorSig _ =>
    match planCreateWallet C parameters request operator operatorSig state with
    | .error _ => []
    | .ok plan => [.mint plan.payload]
  | charge _ request operator operatorSig _ _ =>
    match planCharge C request operator operatorSig state with
    | .error _ => []
    | .ok plan => [.mint plan.payload]
  | transfer _ request _ =>
    match normalizeBytesToHex request.senderPubkey 32 with
    | .error _ => []
    | .ok senderPubkey => [.transfer (request.payload senderPubkey)]
  | burn _ request _ =>
    match normalizeBytesToHex request.senderPubkey 32 with
    | .error _ => []
    | .ok senderPubkey => [.burn (request.payload senderPubkey)]
  | installSeed parameters seed clock =>
    if state.system.iterationLock then [] else seedPayloads C parameters clock seed.initialWallets 0 state
  | executeIterationNow parameters _ _ =>
    if state.system.iterationLock then []
    else
      match executeIteration C state.listWallets parameters state.locked.system state.operatorId with
      | .ok result => [.commit result.commit]
      | _ => []
  | updateParameters _ => []

end Call

end AggoraCoin
