import AggoraCoin.Iteration.Settlement

namespace AggoraCoin

open F64 Unsigned

variable {F : Type} [F64 F]

variable (C : Crypto) (parameters : SystemParameters F) (state : SystemState F) (operatorId : OperatorId)

/-- The 32 bytes of a synthetic faucet key. -/
def faucetKey (iterationId : IterationId) (idx : Nat) : FixedBytes 32 :=
  C.blake3 (asBytes ("aggora-faucet:" ++ toString iterationId ++ ":" ++ toString idx))

theorem faucetPublicKey_eq (iterationId : IterationId) (idx : Nat) :
    faucetPublicKey C iterationId idx = Hex.encode (faucetKey C iterationId idx).val := by
  have length := Hex.length_flatMap_pair (faucetKey C iterationId idx).val
  rw [(faucetKey C iterationId idx).property] at length
  have text : (Hex.encode (faucetKey C iterationId idx).val).toList.take 64 =
      (Hex.encode (faucetKey C iterationId idx).val).toList := by
    rw [List.take_of_length_le]
    rw [Hex.toList_encode, length]
  exact (congrArg String.ofList text).trans (String.ofList_toList ..)

/-- The wallet the faucet opens at position `idx`; its key always decodes. -/
def plannedWallet (idx : Nat) : Wallet F :=
  let key := faucetKey C (state.currentIteration + 1) idx
  .fresh (C.blake3Hex key.val) (Hex.encode key.val) (microSeed parameters) state.currentTick
    (state.currentIteration + 1) operatorId

theorem faucetWallet_eq (idx : Nat) :
    faucetWallet C (microSeed parameters) state operatorId (state.currentIteration + 1) idx =
      .ok (plannedWallet C parameters state operatorId idx) := by
  have named : C.walletIdFromPublicKey (Hex.encode (faucetKey C (state.currentIteration + 1) idx).val) =
      .ok (C.blake3Hex (faucetKey C (state.currentIteration + 1) idx).val) :=
    C.walletIdFromPublicKey_eq_ok_iff.mpr ⟨_, fixedBytes_encode _ (by decide), rfl⟩
  simp only [faucetWallet, faucetPublicKey_eq, named, bind, Except.bind, pure, Except.pure, plannedWallet]

theorem mapM_ok {α β ε : Type} {f : α → Except ε β} {g : α → β} (total : ∀ a, f a = .ok (g a)) (items : List α) :
    items.mapM f = .ok (items.map g) := by
  induction items with
  | nil => rfl
  | cons item rest ih => simp only [List.mapM_cons, total, ih, bind, Except.bind, pure, Except.pure, List.map_cons]

/-- The faucet wallets of an iteration over `nWallets` wallets. -/
def plannedWallets (nWallets : Nat) : List (Wallet F) :=
  (List.range (plannedNewWallets parameters.growth nWallets)).map (plannedWallet C parameters state operatorId)

theorem plannedWallets_supply (nWallets : Nat) :
    ((plannedWallets C parameters state operatorId nWallets).map Wallet.balance).sum =
      plannedNewWallets parameters.growth nWallets * microSeed parameters := by
  have seeded : ∀ idx, (plannedWallet C parameters state operatorId idx).balance = microSeed parameters := fun _ => rfl
  simp [plannedWallets, Function.comp_def, seeded]

/-- What an iteration that ran to its end returns. -/
structure IterationResult.Valid (wallets : List (Wallet F)) (beta : F) (result : IterationResult F) : Prop where
  rate : burnRate parameters.economy (measuredInflation state) = some beta
  wallets_eq : result.wallets = (settleIteration parameters beta wallets).wallets ++
    plannedWallets C parameters state operatorId wallets.length
  iterationId_eq : result.commit.iterationId = state.currentIteration + 1
  snapshotSupply_eq : result.commit.snapshotSupply = wrappingSum 64 (wallets.map Wallet.balance)
  penalties_eq : result.commit.penalties =
    (wallets.map Wallet.id).zip (settleIteration parameters beta wallets).penalties
  rewards_eq : result.commit.rewards =
    (wallets.map Wallet.id).zip (settleIteration parameters beta wallets).rewards
  burned_eq : result.commit.burned = (settleIteration parameters beta wallets).burned
  faucetFromPenalty_eq : result.commit.faucetFromPenalty =
    (settleIteration parameters beta wallets).allocation.faucetFromPenalty
  faucetFromMint_eq : result.commit.faucetFromMint =
    (settleIteration parameters beta wallets).allocation.faucetFromMint
  newWallets_eq : result.commit.newWallets =
    (plannedWallets C parameters state operatorId wallets.length).map Wallet.id
  postSupply_eq : result.commit.postSupply = wrappingSum 64 (result.wallets.map Wallet.balance)
  txId_eq : result.commit.txId = iterationCommitHash C result.commit

/-- The iteration panics when the clamp does and succeeds otherwise: it never returns an error. -/
theorem executeIteration_cases (wallets : List (Wallet F)) :
    (burnRate parameters.economy (measuredInflation state) = none ∧
      executeIteration C wallets parameters state operatorId = .panic) ∨
    ∃ beta result, executeIteration C wallets parameters state operatorId = .ok result ∧
      result.Valid C parameters state operatorId wallets beta := by
  unfold executeIteration
  simp only [mapM_ok (faucetWallet_eq C parameters state operatorId)]
  cases rate : burnRate parameters.economy (measuredInflation state) with
  | none => exact Or.inl ⟨rfl, rfl⟩
  | some beta =>
    refine Or.inr ⟨beta, _, rfl, ?_⟩
    constructor
    case rate => exact rate
    all_goals rfl

theorem isSome_burnRate_iff (economy : EconomyParameters F) (inflation : F) :
    (burnRate economy inflation).isSome ↔ le economy.burnMin economy.burnMax = true :=
  isSome_clamp_iff

end AggoraCoin
