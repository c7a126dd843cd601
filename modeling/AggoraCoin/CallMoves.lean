import AggoraCoin.CallSupply
import AggoraCoin.Iteration.Balance
import AggoraCoin.Moves
import AggoraCoin.PlanSupply

namespace AggoraCoin

variable {F : Type} [F64 F] {C : Crypto} {state : CoinState F}

variable {kind : CoinState F → List (Wallet F) → SystemState F → Transaction F → Payload F → Prop}
  {hashed : Set (Payload F)}

omit [F64 F] in
theorem Keeps.storeState (state : CoinState F) : Keeps state state.storeState :=
  ⟨CoinState.sameLedger_storeState state, rfl, rfl, rfl, rfl, rfl, rfl, rfl⟩

omit [F64 F] in
theorem Keeps.writeAside {writes : List (Write F)} (aside : ∀ write ∈ writes, write.aside = true)
    (state : CoinState F) : Keeps state (state.writeAll writes) := by
  refine ⟨?_, rfl, rfl, rfl, rfl, rfl, rfl, rfl⟩
  rw [CoinState.trees_writeAll]
  exact Trees.sameLedger_applyAll aside _

omit [F64 F] in
theorem Keeps.withSystem {system : SystemState F} (tick : system.currentTick = state.system.currentTick)
    (tip : system.lastPohHash = state.system.lastPohHash) (supply : system.totalSupply = state.system.totalSupply)
    (count : system.nWallets = state.system.nWallets) : Keeps state (state.withSystem system) :=
  ⟨.refl _, rfl, rfl, rfl, tick, tip, supply, count⟩

omit [F64 F] in
theorem Keeps.locked (state : CoinState F) : Keeps state state.locked :=
  ⟨CoinState.sameLedger_locked state, rfl, rfl, rfl, rfl, rfl, rfl, rfl⟩

omit [F64 F] in
theorem Keeps.trans {s t u : CoinState F} (first : Keeps s t) (second : Keeps t u) : Keeps s u :=
  ⟨first.ledger.trans second.ledger, second.operatorSecret_eq.trans first.operatorSecret_eq,
    second.operatorId_eq.trans first.operatorId_eq, second.validatorId_eq.trans first.validatorId_eq,
    second.currentTick_eq.trans first.currentTick_eq, second.lastPohHash_eq.trans first.lastPohHash_eq,
    second.totalSupply_eq.trans first.totalSupply_eq, second.nWallets_eq.trans first.nWallets_eq⟩

/-- The counter of active wallets is the only thing an operation still changes after its entry. -/
theorem Posts.moves {α : Type} {wallets : List (Wallet F)} {system : SystemState F} {tx : Transaction F}
    {payload : Payload F} {count : Nat} {reply : α} {ran : Outcome α × CoinState F}
    (posts : Posts C state wallets system tx (payload.bytes C) (SystemState.activate count) reply ran)
    (posting : kind state wallets system tx payload) (listed : payload ∈ hashed)
    (within : (state.trees.wallets.putAll wallets).total Wallet.balance ≤ u64Max) :
    Moves C kind hashed state ran.2 := by
  cases posts with
  | @accepted entry formed anchored =>
    have counted : Keeps (state.posted wallets system tx entry) ((state.posted wallets system tx entry).withSystem
        (SystemState.activate count (CoinState.anchoredSystem system entry))) := .withSystem rfl rfl rfl rfl
    exact .tail (.single (.post posting listed within formed anchored)) (.keep (counted.trans (.storeState _)))
  | stranded malformed => exact .single (.strand posting within malformed)

omit [F64 F] in
/-- Accepted or stranded, the wallets of the plan are written. -/
theorem Posts.wallets_eq {α : Type} {wallets : List (Wallet F)} {system : SystemState F} {tx : Transaction F}
    {bytes : Bytes} {after : SystemState F → SystemState F} {reply : α} {ran : Outcome α × CoinState F}
    (posts : Posts C state wallets system tx bytes after reply ran) :
    ran.2.trees.wallets = state.trees.wallets.putAll wallets := by
  cases posts with
  | accepted formed anchored => exact (CoinState.sameLedger_storeState _).wallets_eq.trans CoinState.posted_wallets
  | stranded malformed => exact CoinState.stranded_wallets

variable {parameters : SystemParameters F} {clock : Nat → Timestamp}

theorem insertMinted_cases {operatorId : OperatorId} {plan : MintPlan F} (valid : plan.Valid C operatorId state)
    (now : Timestamp) :
    (∃ entry, Crypto.WellFormedSecret state.operatorSecret ∧
      C.Anchors state.system.lastPohHash (state.system.currentTick + 1)
        ((Payload.mint plan.payload : Payload F).bytes C) state.validatorId entry ∧
      insertMinted C plan now state =
        (.ok (), state.posted [plan.wallet] (state.system.mint plan.wallet.balance) (.mint plan.tx) entry)) ∨
    ∃ e, ¬ Crypto.WellFormedSecret state.operatorSecret ∧
      insertMinted C plan now state =
        (.error (.internal e), state.stranded [plan.wallet] (state.system.mint plan.wallet.balance)) := by
  have named : (Transaction.mint plan.tx : Transaction F).txId =
      C.blake3Hex ((Payload.mint plan.payload : Payload F).bytes C) := valid.tx_txId
  rw [insertMinted_eq]
  by_cases formed : Crypto.WellFormedSecret state.operatorSecret
  · obtain ⟨entry, anchored, ran⟩ :=
      CoinState.post_ok [plan.wallet] (state.system.mint plan.wallet.balance) formed named
    exact Or.inl ⟨entry, formed, anchored, ran⟩
  · obtain ⟨e, ran⟩ := CoinState.post_error [plan.wallet] (state.system.mint plan.wallet.balance) formed named
    exact Or.inr ⟨e, formed, ran⟩

theorem MintPlan.Valid.storedSupply_posted {operatorId : OperatorId} {plan : MintPlan F}
    (valid : plan.Valid C operatorId state) (system : SystemState F) (tx : Transaction F) (entry : PohEntry) :
    (state.posted [plan.wallet] system tx entry).storedSupply = state.storedSupply + plan.wallet.balance := by
  rw [← valid.total, CoinState.storedSupply, CoinState.posted_wallets]
  rfl

theorem installEntries_storedSupply_le (entries : List SeedWallet) (installed : Nat) :
    state.storedSupply ≤ (installEntries C parameters clock entries installed state).2.storedSupply := by
  induction entries generalizing installed state with
  | nil => exact le_rfl
  | cons entry rest ih =>
    unfold installEntries
    split
    · exact le_rfl
    · exact ih installed
    · rename_i plan planned
      have valid := (planSeedWallet_ok planned).1
      rcases insertMinted_cases valid (clock (3 * installed + 2)) with
        ⟨anchor, _, _, ran⟩ | ⟨e, _, ran⟩
      · rw [ran]
        have grown := valid.storedSupply_posted (state.system.mint plan.wallet.balance) (.mint plan.tx) anchor
        exact (Nat.le.intro grown.symm).trans (ih (installed + 1))
      · rw [ran]
        change state.storedSupply ≤ (state.stranded _ _).trees.wallets.total Wallet.balance
        rw [CoinState.stranded_wallets]
        exact Nat.le.intro valid.total.symm

theorem installEntries_moves (entries : List SeedWallet) (installed : Nat)
    (within : (installEntries C parameters clock entries installed state).2.storedSupply ≤ u64Max)
    (listed : ∀ payload ∈ Call.seedPayloads C parameters clock entries installed state, payload ∈ hashed) :
    Moves C (Posting C) hashed state (installEntries C parameters clock entries installed state).2 := by
  induction entries generalizing installed state with
  | nil => exact .refl
  | cons entry rest ih =>
    unfold installEntries at within ⊢
    unfold Call.seedPayloads at listed
    cases planned : planSeedWallet C parameters entry (clock (3 * installed)) (clock (3 * installed + 1)) state with
    | error e => exact .refl
    | ok found =>
      rw [planned] at within listed
      cases found with
      | none => exact ih installed within listed
      | some plan =>
        have valid := (planSeedWallet_ok planned).1
        rcases insertMinted_cases valid (clock (3 * installed + 2)) with
          ⟨anchor, formed, anchored, ran⟩ | ⟨e, malformed, ran⟩
        · simp only [ran] at within listed ⊢
          have first := (installEntries_storedSupply_le rest (installed + 1)).trans within
          rw [CoinState.storedSupply, CoinState.posted_wallets] at first
          refine .head (.post (.create valid) (listed _ (List.mem_cons_self ..)) first formed anchored) ?_
          exact ih (installed + 1) within fun payload member => listed payload (List.mem_cons_of_mem _ member)
        · simp only [ran] at within ⊢
          rw [CoinState.storedSupply, CoinState.stranded_wallets] at within
          exact .single (.strand (.create valid) within malformed)

theorem createWallet_moves {request : WalletCreateRequest} {operator : Operator} {operatorSig : String}
    {now : Timestamp}
    (within : (createWallet C parameters request operator operatorSig now state).2.storedSupply ≤ u64Max) :
    Moves C (Posting C) {payload | payload ∈ (Call.createWallet parameters request operator operatorSig now).payloads C
      state} state (createWallet C parameters request operator operatorSig now state).2 := by
  rcases createWallet_cases C state parameters request operator operatorSig now with
    ⟨e, _, ran⟩ | ⟨plan, reply, planned, valid, posts⟩
  · rw [ran]
  · have listed : Payload.mint plan.payload ∈
        (Call.createWallet parameters request operator operatorSig now).payloads C state := by
      simp [Call.payloads, planned]
    exact posts.moves (.create valid) listed (posts.wallets_eq ▸ within)

omit [F64 F] in
theorem guardOperatorReplay_keeps (state : CoinState F) (security : SecurityParameters) (signature : String)
    (timestamp now : Timestamp) :
    ∃ seen, (guardOperatorReplay security signature timestamp now state).2 =
      { state with seenOperatorSigs := seen } := by
  unfold guardOperatorReplay
  dsimp only
  split <;> exact ⟨_, rfl⟩

theorem charge_moves {request : ChargeRequest} {operator : Operator} {operatorSig : String} {guardNow now : Timestamp}
    (fits : (Call.charge parameters request operator operatorSig guardNow now).Fits C state) :
    Moves C (Posting C) {payload | payload ∈ (Call.charge parameters request operator operatorSig guardNow
      now).payloads C state} state (charge C parameters request operator operatorSig guardNow now state).2 := by
  unfold charge
  unfold Call.Fits Call.exactSupply at fits
  split
  · exact .refl
  rename_i positive
  simp only [positive, if_false] at fits
  obtain ⟨seen, guarded⟩ := guardOperatorReplay_keeps state parameters.security operatorSig
    request.timestamp guardNow
  have kept : Keeps state { state with seenOperatorSigs := seen } := ⟨.refl _, rfl, rfl, rfl, rfl, rfl, rfl, rfl⟩
  cases checked : guardOperatorReplay parameters.security operatorSig request.timestamp guardNow state with
  | mk verdict after =>
    rw [checked] at guarded fits
    subst guarded
    cases verdict with
    | error e => exact .single (.keep kept)
    | ok _ =>
      refine .head (.keep kept) ?_
      rcases chargeLocked_cases C { state with seenOperatorSigs := seen } request operator operatorSig now with
        ⟨e, _, ran⟩ | ⟨plan, wallet, reply, planned, valid, posts⟩
      · simp only [ran]
        exact .refl
      · simp only [planned] at fits
        have listed : Payload.mint plan.payload ∈
            (Call.charge parameters request operator operatorSig guardNow now).payloads C state := by
          have same : planCharge C request operator operatorSig state = .ok plan := planned
          simp [Call.payloads, same]
        have small : wallet.balance + request.amount ≤ u64Max :=
          (Nat.add_le_add_right (KeyedTree.le_total_of_get Wallet.balance valid.stored) _).trans fits
        exact posts.moves (.charge valid small) listed ((valid.total small).trans_le fits)

theorem transfer_moves {request : TransferRequest} {now : Timestamp} (bound : state.storedSupply ≤ u64Max) :
    Moves C (Posting C) {payload | payload ∈ (Call.transfer parameters request now).payloads C state} state
      (transfer C parameters request now state).2 := by
  rcases transfer_cases C state parameters request now with
    ⟨e, _, ran⟩ | ⟨plan, key, fromWallet, toWallet, reply, planned, valid, posts⟩
  · rw [ran]
  · have listed : Payload.transfer (request.payload (Hex.encode key.val)) ∈
        (Call.transfer parameters request now).payloads C state := by
      have hex := normalizeBytesToHex_eq_ok_iff.mpr ⟨key, valid.sender_key, rfl⟩
      simp [Call.payloads, hex]
    have fits := valid.fits bound
    exact posts.moves (.transfer valid fits) listed ((valid.total fits).trans_le bound)

theorem burn_moves {request : BurnRequest} {now : Timestamp} (bound : state.storedSupply ≤ u64Max) :
    Moves C (Posting C) {payload | payload ∈ (Call.burn parameters request now).payloads C state} state
      (burn C parameters request now state).2 := by
  rcases burn_cases C state parameters request now with
    ⟨e, _, ran⟩ | ⟨plan, key, wallet, reply, planned, valid, posts⟩
  · rw [ran]
  · have listed : Payload.burn (request.payload (Hex.encode key.val)) ∈
        (Call.burn parameters request now).payloads C state := by
      have hex := normalizeBytesToHex_eq_ok_iff.mpr ⟨key, valid.sender_key, rfl⟩
      simp [Call.payloads, hex]
    exact posts.moves (.burn valid) listed ((Nat.le.intro valid.total).trans bound)

theorem installSeed_moves {seed : SeedFile}
    (within : (installSeed C parameters seed clock state).2.storedSupply ≤ u64Max) :
    Moves C (Posting C) {payload | payload ∈ (Call.installSeed parameters seed clock).payloads C state} state
      (installSeed C parameters seed clock state).2 := by
  unfold installSeed at within ⊢
  by_cases busy : state.system.iterationLock = true
  · simp only [busy, if_true]
    exact .refl
  · simp only [busy] at within ⊢
    have listed : ∀ payload ∈ Call.seedPayloads C parameters clock seed.initialWallets 0 state,
        payload ∈ {payload | payload ∈ (Call.installSeed parameters seed clock).payloads C state} := by
      intro payload member
      simpa [Call.payloads, busy] using member
    have loop := @installEntries_moves F _ C state {payload | payload ∈ (Call.installSeed parameters seed
      clock).payloads C state} parameters clock seed.initialWallets 0
    cases ran : installEntries C parameters clock seed.initialWallets 0 state with
    | mk outcome after =>
      rw [ran] at loop within
      cases outcome with
      | ok installed =>
        have stored : after.storeState.storedSupply = after.storedSupply :=
          congrArg (KeyedTree.total Wallet.balance) (CoinState.sameLedger_storeState after).wallets_eq
        exact .tail (loop (stored ▸ within) listed) (.keep (.storeState after))
      | err e => exact loop within listed
      | panic => exact loop within listed

section Iteration

variable {system : SystemState F} {beta : F} {result : IterationResult F}

/-- The settled wallets replace the whole scan, in place. -/
theorem entries_putAll_settled (state : CoinState F) (parameters : SystemParameters F) (beta : F) :
    (state.trees.wallets.putAll (settleIteration parameters beta state.listWallets).wallets).entries =
      (settleIteration parameters beta state.listWallets).wallets :=
  KeyedTree.entries_putAll_of_keys_eq (settleIteration_ids parameters beta state.listWallets)

/-- The tree ends with at most what the result holds: less when a faucet wallet overwrites another. -/
theorem IterationResult.Valid.total_le
    (valid : result.Valid C parameters system state.operatorId state.listWallets beta) :
    (state.trees.wallets.putAll result.wallets).total Wallet.balance ≤ (result.wallets.map Wallet.balance).sum := by
  have settled := entries_putAll_settled state parameters beta
  rw [valid.wallets_eq, KeyedTree.putAll_append, List.map_append, List.sum_append]
  refine (KeyedTree.total_putAll_le _ _ _).trans (Nat.add_le_add_right (le_of_eq ?_) _)
  rw [KeyedTree.total, settled]

theorem IterationResult.Valid.exactSupply (now snapshotNow : Timestamp)
    (unlocked : state.system.iterationLock = false)
    (ran : executeIteration C state.listWallets parameters state.locked.system state.operatorId = .ok result)
    (valid : result.Valid C parameters state.locked.system state.operatorId state.listWallets beta) :
    (Call.executeIterationNow parameters now snapshotNow).exactSupply C state =
      state.storedSupply + (settleIteration parameters beta state.listWallets).rewards.sum +
        plannedNewWallets parameters.growth state.listWallets.length * microSeed parameters -
          (settleIteration parameters beta state.listWallets).penalties.sum := by
  have penalties := settleIteration_penalties_length parameters beta state.listWallets
  have rewards := settleIteration_rewards_length parameters beta state.listWallets
  simp only [Call.exactSupply, unlocked, Bool.false_eq_true, if_false, ran]
  rw [valid.rewards_eq, valid.penalties_eq, valid.newWallets_eq, List.map_snd_zip, List.map_snd_zip]
  · simp [plannedWallets]
  · simp [penalties]
  · simp [rewards]

/-- When the exact supply fits, no settled balance saturates and the post-supply does not wrap. -/
theorem IterationResult.Valid.fits (now snapshotNow : Timestamp)
    (unlocked : state.system.iterationLock = false)
    (ran : executeIteration C state.listWallets parameters state.locked.system state.operatorId = .ok result)
    (valid : result.Valid C parameters state.locked.system state.operatorId state.listWallets beta)
    (fits : (Call.executeIterationNow parameters now snapshotNow).Fits C state) :
    SettlementFits parameters beta state.listWallets ∧ (result.wallets.map Wallet.balance).sum ≤ u64Max := by
  have exact_eq := valid.exactSupply now snapshotNow unlocked ran
  have charged := settleIteration_penalties_sum_le parameters beta state.listWallets
  unfold Call.Fits at fits
  rw [exact_eq] at fits
  have settlement : SettlementFits parameters beta state.listWallets := by
    change state.storedSupply + _ ≤ _
    generalize plannedNewWallets parameters.growth state.listWallets.length * microSeed parameters = seeded at fits
    lia
  have supply := valid.supply settlement
  change _ = state.storedSupply + _ + _ at supply
  generalize plannedNewWallets parameters.growth state.listWallets.length * microSeed parameters = seeded at fits supply
  exact ⟨settlement, by lia⟩

/-- A commit whose exact supply fits is posted with exact balances. -/
theorem IterationResult.Valid.posting
    (valid : result.Valid C parameters state.locked.system state.operatorId state.listWallets beta)
    (settlement : SettlementFits parameters beta state.listWallets)
    (small : (result.wallets.map Wallet.balance).sum ≤ u64Max) :
    CommitPosting C state.locked result.wallets (commitSystem state.locked.system result)
        (.iterationCommit result.commit) (.commit result.commit) ∧
      (state.locked.trees.wallets.putAll result.wallets).total Wallet.balance ≤ u64Max := by
  have scan := CoinState.listWallets_locked state
  refine ⟨.commit (by rw [scan]; exact valid) (by rw [scan]; exact settlement), ?_⟩
  rw [(CoinState.sameLedger_locked state).wallets_eq]
  exact valid.total_le.trans small

/-- An iteration is a chain of moves of any kind that its commits are of. -/
theorem executeIterationNow_moves_of {now snapshotNow : Timestamp}
    (commits : ∀ beta result, result.Valid C parameters state.locked.system state.operatorId state.listWallets beta →
      SettlementFits parameters beta state.listWallets → (result.wallets.map Wallet.balance).sum ≤ u64Max →
        kind state.locked result.wallets (commitSystem state.locked.system result) (.iterationCommit result.commit)
          (.commit result.commit))
    (fits : (Call.executeIterationNow parameters now snapshotNow).Fits C state) :
    Moves C kind
      {payload | payload ∈ (Call.executeIterationNow parameters now snapshotNow).payloads C state} state
      (executeIterationNow C parameters now snapshotNow state).2 := by
  have locks := Keeps.locked state
  rcases executeIterationNow_cases C state parameters now snapshotNow with ⟨_, ran⟩ | ⟨unlocked, iterates⟩
  · rw [ran]
  generalize executeIterationNow C parameters now snapshotNow state = finished at *
  cases iterates with
  | panicked => exact .single (.keep locks)
  | committed ran valid formed anchored closes =>
    obtain ⟨settlement, small⟩ := valid.fits now snapshotNow unlocked ran fits
    have within := (valid.posting settlement small).2
    refine .head (.keep locks) (.tail (.single (.post (commits _ _ valid settlement small) ?_ within formed anchored))
      (.keep (.writeAside ?_ _)))
    · simp [Call.payloads, unlocked, ran]
    · simpa [Write.aside] using closes.aside
  | stranded ran valid malformed =>
    obtain ⟨settlement, small⟩ := valid.fits now snapshotNow unlocked ran fits
    have within := (valid.posting settlement small).2
    exact .head (.keep locks) (.single (.strand (commits _ _ valid settlement small) within malformed))

theorem executeIterationNow_moves {now snapshotNow : Timestamp}
    (fits : (Call.executeIterationNow parameters now snapshotNow).Fits C state) :
    Moves C (CommitPosting C)
      {payload | payload ∈ (Call.executeIterationNow parameters now snapshotNow).payloads C state} state
      (executeIterationNow C parameters now snapshotNow state).2 :=
  executeIterationNow_moves_of (fun _ _ valid settlement small => (valid.posting settlement small).1) fits

end Iteration

/-- The calls of an operator, a user or a seed file. -/
def Call.Operation : Call F → Prop
  | .executeIterationNow _ _ _ => False
  | _ => True

theorem Call.moves_of_operation {call : Call F} (operation : call.Operation) (fits : call.Fits C state)
    (bound : state.storedSupply ≤ u64Max) :
    Moves C (Posting C) {payload | payload ∈ call.payloads C state} state (call.next C state) := by
  cases call with
  | createWallet =>
    unfold Call.Fits Call.exactSupply at fits
    exact createWallet_moves fits
  | charge => exact charge_moves fits
  | transfer => exact transfer_moves bound
  | burn => exact burn_moves bound
  | installSeed =>
    unfold Call.Fits Call.exactSupply at fits
    exact installSeed_moves fits
  | executeIterationNow => exact operation.elim
  | updateParameters parameters =>
    refine .single (.keep ⟨?_, rfl, rfl, rfl, rfl, rfl, rfl, rfl⟩)
    exact (Keeps.writeAside (by simp [Write.aside]) state).ledger

/-- Every call whose exact supply fits is a chain of moves over the payloads it hashes. -/
theorem Call.moves {call : Call F} (fits : call.Fits C state) (bound : state.storedSupply ≤ u64Max) :
    Moves C (LedgerPosting C) {payload | payload ∈ call.payloads C state} state (call.next C state) := by
  by_cases operation : call.Operation
  · exact (call.moves_of_operation operation fits bound).mono (fun _ _ _ _ _ => .operation) subset_rfl
  · cases call with
    | executeIterationNow =>
      exact (executeIterationNow_moves fits).mono (fun _ _ _ _ _ => .commit) subset_rfl
    | _ => exact absurd trivial operation

end AggoraCoin
