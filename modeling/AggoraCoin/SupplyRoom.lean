import AggoraCoin.Concrete
import AggoraCoin.Opening
import AggoraCoin.Scripts

namespace AggoraCoin

open CoinState

variable {F : Type} [F64 F] {C : Crypto} {state : CoinState F} {parameters : SystemParameters F}

/-- The stored balance; a wallet that is not stored holds nothing. -/
def CoinState.balanceOf (state : CoinState F) (id : WalletId) : MicroAgc :=
  ((state.getWallet id).map Wallet.balance).getD 0

def Payload.minted : Payload F → MicroAgc
  | .mint payload => payload.amount
  | _ => 0

namespace Call

variable (C)

/-- What a call whose checks pass mints fits under `u64::MAX` beside the supply it finds, the rewards of an
iteration with it. -/
def HasRoom (call : Call F) (state : CoinState F) : Prop :=
  match call with
  | createWallet parameters request operator operatorSig _ =>
    (planCreateWallet C parameters request operator operatorSig state).toOption.isSome →
      state.system.totalSupply + microSeed parameters ≤ u64Max
  | charge parameters request operator operatorSig guardNow _ =>
    request.amount ≠ 0 →
      (guardOperatorReplay parameters.security operatorSig request.timestamp guardNow state).1 = .ok () →
      (planCharge C request operator operatorSig state).toOption.isSome →
      state.system.totalSupply + request.amount ≤ u64Max
  | installSeed parameters seed clock =>
    state.system.totalSupply + (((installSeed parameters seed clock).payloads C state).map Payload.minted).sum ≤ u64Max
  | executeIterationNow parameters _ _ =>
    state.system.iterationLock = false →
      ∀ beta, burnRate parameters.economy (measuredInflation state.system) = some beta →
        state.storedSupply + (settleIteration parameters beta state.listWallets).rewards.sum +
            plannedNewWallets parameters.growth state.listWallets.length * microSeed parameters ≤
          u64Max + (settleIteration parameters beta state.listWallets).penalties.sum
  | _ => True

end Call

/-- The sums of an iteration, as integers. -/
structure ExactSums (parameters : SystemParameters F) (state : CoinState F) (commit : IterationCommit F) : Prop where
  snapshot : commit.snapshotSupply = state.storedSupply
  penalties : (commit.penalties.map Prod.snd).sum ≤ state.storedSupply
  faucet : commit.faucetFromPenalty + commit.faucetFromMint = commit.newWallets.length * microSeed parameters
  post : commit.postSupply + (commit.penalties.map Prod.snd).sum =
    state.storedSupply + (commit.rewards.map Prod.snd).sum + commit.newWallets.length * microSeed parameters

variable (C) in
/-- An accepted call moves exactly the amounts it names. -/
def Call.LosesNothing (call : Call F) (state : CoinState F) : Prop :=
  match call with
  | createWallet parameters request operator operatorSig now =>
    ∀ reply after, AggoraCoin.createWallet C parameters request operator operatorSig now state = (.ok reply, after) →
      (∃ wallet, state.getWallet wallet.id = none ∧ after.getWallet wallet.id = some wallet ∧
        wallet.balance = microSeed parameters) ∧
        after.system.totalSupply = state.system.totalSupply + microSeed parameters
  | charge parameters request operator operatorSig guardNow now =>
    ∀ reply after, AggoraCoin.charge C parameters request operator operatorSig guardNow now state = (.ok reply, after) →
      after.balanceOf request.toId = state.balanceOf request.toId + request.amount ∧
        after.system.totalSupply = state.system.totalSupply + request.amount
  | transfer parameters request now =>
    ∀ reply after, AggoraCoin.transfer C parameters request now state = (.ok reply, after) →
      after.balanceOf request.toId = state.balanceOf request.toId + request.amount ∧
        after.system.totalSupply = state.system.totalSupply
  | burn parameters request now =>
    ∀ reply after, AggoraCoin.burn C parameters request now state = (.ok reply, after) →
      after.balanceOf request.fromId + request.amount = state.balanceOf request.fromId ∧
        after.system.totalSupply + request.amount = state.system.totalSupply
  | installSeed parameters seed clock =>
    ∀ installed after, AggoraCoin.installSeed C parameters seed clock state = (.ok installed, after) →
      after.storedSupply =
          state.storedSupply + (((installSeed parameters seed clock).payloads C state).map Payload.minted).sum ∧
        after.system.totalSupply =
          state.system.totalSupply + (((installSeed parameters seed clock).payloads C state).map Payload.minted).sum
  | executeIterationNow parameters now snapshotNow =>
    ∀ commit after, AggoraCoin.executeIterationNow C parameters now snapshotNow state = (.ok commit, after) →
      ExactSums parameters state commit
  | updateParameters _ => True

/-- The cached supply covers the stored one, and both are `u64` values. -/
structure CoinState.Supplied (state : CoinState F) : Prop where
  stored_le : state.storedSupply ≤ state.system.totalSupply
  bounded : state.system.totalSupply ≤ u64Max

omit [F64 F] in
theorem CoinState.Supplied.storedSupply_le (supplied : state.Supplied) : state.storedSupply ≤ u64Max :=
  supplied.stored_le.trans supplied.bounded

omit [F64 F] in
/-- Accepted or stranded, a posting leaves the supply of its system state. -/
theorem Posts.totalSupply_eq {α : Type} {wallets : List (Wallet F)} {system : SystemState F} {tx : Transaction F}
    {bytes : Bytes} {count : Nat} {reply : α} {ran : Outcome α × CoinState F}
    (posts : Posts C state wallets system tx bytes (SystemState.activate count) reply ran) :
    ran.2.system.totalSupply = system.totalSupply := by
  cases posts <;> rfl

omit [F64 F] in
theorem Posts.supplied {α : Type} {wallets : List (Wallet F)} {system : SystemState F} {tx : Transaction F}
    {bytes : Bytes} {count : Nat} {reply : α} {ran : Outcome α × CoinState F}
    (posts : Posts C state wallets system tx bytes (SystemState.activate count) reply ran)
    (covered : (state.trees.wallets.putAll wallets).total Wallet.balance ≤ system.totalSupply)
    (bounded : system.totalSupply ≤ u64Max) : ran.2.Supplied := by
  constructor
  · rw [posts.totalSupply_eq, CoinState.storedSupply, posts.wallets_eq]
    exact covered
  · rw [posts.totalSupply_eq]
    exact bounded

omit [F64 F] in
theorem balanceOf_eq {after : CoinState F} {wallet : Wallet F} {id : WalletId}
    (stored : after.getWallet id = some wallet) : after.balanceOf id = wallet.balance := by
  rw [balanceOf, stored]
  rfl

omit [F64 F] in
/-- One wallet written, accepted or not. -/
theorem Posts.getWallet_self {α : Type} {wallet : Wallet F} {system : SystemState F} {tx : Transaction F}
    {bytes : Bytes} {after : SystemState F → SystemState F} {reply : α} {ran : Outcome α × CoinState F}
    (posts : Posts C state [wallet] system tx bytes after reply ran) : ran.2.getWallet wallet.id = some wallet := by
  rw [CoinState.getWallet, posts.wallets_eq]
  exact KeyedTree.get_put_self _ _

theorem createWallet_supplied {request : WalletCreateRequest} {operator : Operator} {operatorSig : String}
    {now : Timestamp} (supplied : state.Supplied)
    (room : (Call.createWallet parameters request operator operatorSig now).HasRoom C state) :
    (createWallet C parameters request operator operatorSig now state).2.Supplied ∧
      (Call.createWallet parameters request operator operatorSig now).LosesNothing C state := by
  have stored_le := supplied.stored_le
  simp only [Call.LosesNothing]
  rcases createWallet_cases C state parameters request operator operatorSig now with
    ⟨e, _, ran⟩ | ⟨plan, reply, planned, valid, posts⟩
  · rw [ran]
    exact ⟨supplied, by rintro _ _ ⟨⟩⟩
  have amount := (planCreateWallet_ok planned).2.2
  have fits : state.system.totalSupply + plan.wallet.balance ≤ u64Max := by
    rw [amount]
    exact room (by rw [planned]; rfl)
  have credited : (state.system.mint plan.wallet.balance).totalSupply =
      state.system.totalSupply + plan.wallet.balance := Unsigned.saturatingAdd_of_le fits
  have total := valid.total
  generalize createWallet C parameters request operator operatorSig now state = finished at *
  constructor
  · refine posts.supplied ?_ (credited.trans_le fits)
    simp only [KeyedTree.putAll_cons, KeyedTree.putAll_nil]
    rw [total, credited]
    exact Nat.add_le_add_right stored_le _
  · rintro answer after rfl
    refine ⟨⟨plan.wallet, valid.absent, posts.getWallet_self, amount⟩, ?_⟩
    rw [← amount, ← credited]
    exact posts.totalSupply_eq

theorem charge_supplied {request : ChargeRequest} {operator : Operator} {operatorSig : String}
    {guardNow now : Timestamp} (supplied : state.Supplied)
    (room : (Call.charge parameters request operator operatorSig guardNow now).HasRoom C state) :
    (charge C parameters request operator operatorSig guardNow now state).2.Supplied ∧
      (Call.charge parameters request operator operatorSig guardNow now).LosesNothing C state := by
  have stored_le := supplied.stored_le
  simp only [Call.LosesNothing]
  rcases charge_cases C state parameters request operator operatorSig guardNow now with
    ⟨seen, e, ran, _⟩ | ⟨seen, plan, wallet, reply, positive, guarded, planned, valid, posts⟩
  · rw [ran]
    exact ⟨⟨supplied.stored_le, supplied.bounded⟩, by rintro _ _ ⟨⟩⟩
  have fits : state.system.totalSupply + request.amount ≤ u64Max := by
    refine room positive guarded ?_
    have same : planCharge C request operator operatorSig state = .ok plan := planned
    rw [same]
    rfl
  have credited : (state.system.credit request.amount).totalSupply =
      state.system.totalSupply + request.amount := Unsigned.saturatingAdd_of_le fits
  -- the recipient holds no more than the supply, so its own addition is exact too
  have small : wallet.balance + request.amount ≤ u64Max := by
    have held := KeyedTree.le_total_of_get Wallet.balance valid.stored
    exact (Nat.add_le_add_right (held.trans stored_le) _).trans fits
  have total : (state.trees.wallets.put plan.wallet).total Wallet.balance = state.storedSupply + request.amount :=
    valid.total small
  have found : state.getWallet request.toId = some wallet := valid.stored
  have named : plan.wallet.id = request.toId := by
    rw [valid.wallet_eq]
    exact (KeyedTree.key_of_get found : wallet.id = _)
  generalize charge C parameters request operator operatorSig guardNow now state = finished at *
  constructor
  · refine posts.supplied ?_ (credited.trans_le fits)
    have covered : (state.trees.wallets.put plan.wallet).total Wallet.balance ≤
        (state.system.credit request.amount).totalSupply := by
      rw [total, credited]
      exact Nat.add_le_add_right stored_le _
    exact covered
  · rintro answer after rfl
    have stored := posts.getWallet_self
    rw [named] at stored
    rw [balanceOf_eq stored, balanceOf_eq found, valid.wallet_eq, ← credited]
    exact ⟨Unsigned.saturatingAdd_of_le small, posts.totalSupply_eq⟩

theorem transfer_supplied {request : TransferRequest} {now : Timestamp} (supplied : state.Supplied) :
    (transfer C parameters request now state).2.Supplied ∧
      (Call.transfer parameters request now).LosesNothing C state := by
  have stored_le := supplied.stored_le
  simp only [Call.LosesNothing]
  rcases transfer_cases C state parameters request now with
    ⟨e, _, ran⟩ | ⟨plan, key, fromWallet, toWallet, reply, planned, valid, posts⟩
  · rw [ran]
    exact ⟨supplied, by rintro _ _ ⟨⟩⟩
  have small := valid.fits supplied.storedSupply_le
  have total := valid.total small
  generalize transfer C parameters request now state = finished at *
  constructor
  · refine posts.supplied ?_ supplied.bounded
    simp only [KeyedTree.putAll_cons, KeyedTree.putAll_nil]
    rw [total]
    exact stored_le
  · rintro answer after rfl
    have stored : after.getWallet request.toId = some plan.toWallet := by
      have written := KeyedTree.get_put_self (state.trees.wallets.put plan.fromWallet) plan.toWallet
      rw [valid.toKey] at written
      rw [CoinState.getWallet, posts.wallets_eq]
      exact written
    rw [balanceOf_eq stored, balanceOf_eq valid.stored_to, valid.toWallet_eq]
    exact ⟨Unsigned.saturatingAdd_of_le small, posts.totalSupply_eq⟩

theorem burn_supplied {request : BurnRequest} {now : Timestamp} (supplied : state.Supplied) :
    (burn C parameters request now state).2.Supplied ∧ (Call.burn parameters request now).LosesNothing C state := by
  have stored_le := supplied.stored_le
  simp only [Call.LosesNothing]
  rcases burn_cases C state parameters request now with
    ⟨e, _, ran⟩ | ⟨plan, key, wallet, reply, planned, valid, posts⟩
  · rw [ran]
    exact ⟨supplied, by rintro _ _ ⟨⟩⟩
  have total := valid.total
  have covered := valid.covered
  have debited : (state.system.debit request.amount).totalSupply = state.system.totalSupply - request.amount := rfl
  generalize burn C parameters request now state = finished at *
  constructor
  · refine posts.supplied ?_ ((debited.trans_le (Nat.sub_le _ _)).trans supplied.bounded)
    simp only [KeyedTree.putAll_cons, KeyedTree.putAll_nil]
    rw [debited]
    lia
  · rintro answer after rfl
    have stored := posts.getWallet_self
    have spent : plan.wallet.balance = wallet.balance - request.amount := by
      rw [valid.wallet_eq]
      rfl
    rw [valid.key_eq] at stored
    have supply := posts.totalSupply_eq
    rw [debited] at supply
    change after.system.totalSupply = _ at supply
    rw [balanceOf_eq stored, balanceOf_eq valid.stored, spent]
    exact ⟨Nat.sub_add_cancel covered, by lia⟩

theorem installEntries_supplied {clock : Nat → Timestamp} (entries : List SeedWallet) (installed : Nat)
    (supplied : state.Supplied)
    (room : state.system.totalSupply +
      ((Call.seedPayloads C parameters clock entries installed state).map Payload.minted).sum ≤ u64Max) :
    (installEntries C parameters clock entries installed state).2.Supplied ∧
      ∀ count, (installEntries C parameters clock entries installed state).1 = .ok count →
        (installEntries C parameters clock entries installed state).2.storedSupply =
            state.storedSupply + ((Call.seedPayloads C parameters clock entries installed state).map Payload.minted).sum ∧
          (installEntries C parameters clock entries installed state).2.system.totalSupply =
            state.system.totalSupply +
              ((Call.seedPayloads C parameters clock entries installed state).map Payload.minted).sum := by
  induction entries generalizing installed state with
  | nil => exact ⟨supplied, fun _ _ => ⟨rfl, rfl⟩⟩
  | cons entry rest ih =>
    unfold Call.seedPayloads at room ⊢
    unfold installEntries
    cases planned : planSeedWallet C parameters entry (clock (3 * installed)) (clock (3 * installed + 1)) state with
    | error e => exact ⟨supplied, by rintro _ ⟨⟩⟩
    | ok found =>
      rw [planned] at room
      cases found with
      | none => exact ih installed supplied room
      | some plan =>
        have valid := (planSeedWallet_ok planned).1
        have amount : plan.payload.amount = plan.wallet.balance := valid.payload_amount
        simp only [List.map_cons, List.sum_cons, Payload.minted, amount, ← Nat.add_assoc] at room ⊢
        have fits : state.system.totalSupply + plan.wallet.balance ≤ u64Max := (Nat.le_add_right _ _).trans room
        have credited : (state.system.mint plan.wallet.balance).totalSupply =
            state.system.totalSupply + plan.wallet.balance := Unsigned.saturatingAdd_of_le fits
        have covered : state.storedSupply + plan.wallet.balance ≤ state.system.totalSupply + plan.wallet.balance :=
          Nat.add_le_add_right supplied.stored_le _
        rcases insertMinted_cases valid (clock (3 * installed + 2)) with
          ⟨anchor, formed, anchored, ran⟩ | ⟨e, malformed, ran⟩
        · simp only [ran] at room ⊢
          have stored := valid.storedSupply_posted (state.system.mint plan.wallet.balance) (.mint plan.tx) anchor
          have supply : (state.posted [plan.wallet] (state.system.mint plan.wallet.balance) (.mint plan.tx)
              anchor).system.totalSupply = state.system.totalSupply + plan.wallet.balance := credited
          have later := ih (installed + 1) ⟨by rw [stored, supply]; exact covered, by rw [supply]; exact fits⟩
            (by rw [supply]; exact room)
          rw [stored, supply] at later
          exact later
        · simp only [ran]
          refine ⟨⟨?_, ?_⟩, by rintro _ ⟨⟩⟩
          · rw [CoinState.storedSupply, CoinState.stranded_wallets]
            exact (valid.total.trans_le covered).trans_eq credited.symm
          · exact credited.trans_le fits

theorem installSeed_supplied {seed : SeedFile} {clock : Nat → Timestamp} (supplied : state.Supplied)
    (room : (Call.installSeed parameters seed clock).HasRoom C state) :
    (installSeed C parameters seed clock state).2.Supplied ∧
      (Call.installSeed parameters seed clock).LosesNothing C state := by
  simp only [Call.LosesNothing, Call.HasRoom, Call.payloads] at room ⊢
  unfold installSeed
  by_cases busy : state.system.iterationLock = true
  · simp only [busy, if_true]
    exact ⟨supplied, by rintro _ _ ⟨⟩⟩
  · simp only [busy, Bool.false_eq_true, if_false] at room ⊢
    have loop := installEntries_supplied seed.initialWallets 0 supplied room
    cases ran : installEntries C parameters clock seed.initialWallets 0 state with
    | mk outcome after =>
      rw [ran] at loop
      have stored : after.storeState.storedSupply = after.storedSupply :=
        congrArg (KeyedTree.total Wallet.balance) (CoinState.sameLedger_storeState after).wallets_eq
      cases outcome with
      | ok installed =>
        refine ⟨⟨stored.trans_le loop.1.stored_le, loop.1.bounded⟩, ?_⟩
        rintro count left ⟨⟩
        rw [stored]
        exact loop.2 installed rfl
      | err e => exact ⟨loop.1, by rintro _ _ ⟨⟩⟩
      | panic => exact ⟨loop.1, by rintro _ _ ⟨⟩⟩

section Iteration

variable {beta : F} {result : IterationResult F}

/-- With room for what it settles, an iteration neither saturates nor wraps. -/
theorem IterationResult.Valid.within
    (valid : result.Valid C parameters state.locked.system state.operatorId state.listWallets beta)
    (room : state.storedSupply + (settleIteration parameters beta state.listWallets).rewards.sum +
        plannedNewWallets parameters.growth state.listWallets.length * microSeed parameters ≤
      u64Max + (settleIteration parameters beta state.listWallets).penalties.sum) :
    SettlementFits parameters beta state.listWallets ∧ (result.wallets.map Wallet.balance).sum ≤ u64Max := by
  have settlement : SettlementFits parameters beta state.listWallets := (Nat.le_add_right _ _).trans room
  have supply := valid.supply settlement
  refine ⟨settlement, ?_⟩
  have exact_supply : (result.wallets.map Wallet.balance).sum +
      (settleIteration parameters beta state.listWallets).penalties.sum ≤
        u64Max + (settleIteration parameters beta state.listWallets).penalties.sum := supply.trans_le room
  exact Nat.le_of_add_le_add_right exact_supply

theorem IterationResult.Valid.exactSums (bound : state.storedSupply ≤ u64Max)
    (valid : result.Valid C parameters state.locked.system state.operatorId state.listWallets beta)
    (room : state.storedSupply + (settleIteration parameters beta state.listWallets).rewards.sum +
        plannedNewWallets parameters.growth state.listWallets.length * microSeed parameters ≤
      u64Max + (settleIteration parameters beta state.listWallets).penalties.sum) :
    ExactSums parameters state result.commit := by
  obtain ⟨settlement, small⟩ := valid.within room
  have charged := settleIteration_penalties_sum_le parameters beta state.listWallets
  have penalties : result.commit.penalties.map Prod.snd = (settleIteration parameters beta state.listWallets).penalties := by
    rw [valid.penalties_eq, List.map_snd_zip (by simp [settleIteration_penalties_length])]
  have rewards : result.commit.rewards.map Prod.snd = (settleIteration parameters beta state.listWallets).rewards := by
    rw [valid.rewards_eq, List.map_snd_zip (by simp [settleIteration_rewards_length])]
  have opened : result.commit.newWallets.length = plannedNewWallets parameters.growth state.listWallets.length := by
    rw [valid.newWallets_eq]
    simp [plannedWallets]
  constructor
  case snapshot => exact valid.snapshotSupply_eq.trans (Unsigned.wrappingSum_of_le bound)
  case penalties => rw [penalties]; exact charged
  case faucet =>
    have demanded : plannedNewWallets parameters.growth state.listWallets.length * microSeed parameters ≤ u64Max := by
      have charged : (settleIteration parameters beta state.listWallets).penalties.sum ≤ state.storedSupply := charged
      generalize plannedNewWallets parameters.growth state.listWallets.length * microSeed parameters = seeded at room ⊢
      lia
    rw [valid.faucetFromPenalty_eq, valid.faucetFromMint_eq, opened,
      (settleIteration_cuts parameters beta state.listWallets).faucet_eq, Unsigned.saturatingMul_of_le demanded]
  case post =>
    rw [valid.postSupply_eq, Unsigned.wrappingSum_of_le small, penalties, rewards, opened]
    exact valid.supply settlement

theorem executeIterationNow_supplied {now snapshotNow : Timestamp} (supplied : state.Supplied)
    (room : (Call.executeIterationNow parameters now snapshotNow).HasRoom C state) :
    (executeIterationNow C parameters now snapshotNow state).2.Supplied ∧
      (Call.executeIterationNow parameters now snapshotNow).LosesNothing C state := by
  simp only [Call.LosesNothing, Call.HasRoom] at room ⊢
  rcases executeIterationNow_cases C state parameters now snapshotNow with ⟨_, ran⟩ | ⟨unlocked, iterates⟩
  · rw [ran]
    exact ⟨supplied, by rintro _ _ ⟨⟩⟩
  have locking : state.locked.Supplied := by
    constructor
    · rw [CoinState.storedSupply, (CoinState.sameLedger_locked state).wallets_eq]
      exact supplied.stored_le
    · exact supplied.bounded
  -- the tree holds at most what the result does: a faucet wallet may have overwritten another
  have settled {beta : F} {result : IterationResult F}
      (valid : result.Valid C parameters state.locked.system state.operatorId state.listWallets beta) :
      (state.trees.wallets.putAll result.wallets).total Wallet.balance ≤ result.commit.postSupply ∧
        result.commit.postSupply ≤ u64Max := by
    obtain ⟨_, small⟩ := valid.within (room unlocked beta valid.rate)
    rw [valid.postSupply_eq, Unsigned.wrappingSum_of_le small]
    exact ⟨valid.total_le, small⟩
  generalize executeIterationNow C parameters now snapshotNow state = finished at *
  cases iterates with
  | panicked => exact ⟨locking, by rintro _ _ ⟨⟩⟩
  | @committed beta result entry closing ran valid formed anchored closes =>
    obtain ⟨covered, bounded⟩ := settled valid
    refine ⟨⟨?_, bounded⟩, ?_⟩
    · rw [CoinState.storedSupply, CoinState.trees_writeAll,
        (Trees.sameLedger_applyAll (by simpa [Write.aside] using closes.aside) _).wallets_eq, CoinState.posted_wallets,
        (CoinState.sameLedger_locked state).wallets_eq]
      exact covered
    · rintro commit after ⟨⟩
      exact valid.exactSums supplied.storedSupply_le (room unlocked beta valid.rate)
  | @stranded beta result e ran valid malformed =>
    obtain ⟨covered, bounded⟩ := settled valid
    refine ⟨⟨?_, bounded⟩, by rintro _ _ ⟨⟩⟩
    rw [CoinState.storedSupply, CoinState.stranded_wallets, (CoinState.sameLedger_locked state).wallets_eq]
    exact covered

end Iteration

theorem Call.supplied {call : Call F} (supplied : state.Supplied) (room : call.HasRoom C state) :
    (call.next C state).Supplied ∧ call.LosesNothing C state := by
  cases call with
  | createWallet => exact createWallet_supplied supplied room
  | charge => exact charge_supplied supplied room
  | transfer => exact transfer_supplied supplied
  | burn => exact burn_supplied supplied
  | installSeed => exact installSeed_supplied supplied room
  | executeIterationNow => exact executeIterationNow_supplied supplied room
  | updateParameters parameters =>
    have aside : ∀ write ∈ [Write.parameters parameters], write.aside = true := by simp [Write.aside]
    have stored : (AggoraCoin.updateParameters parameters state).storedSupply = state.storedSupply :=
      congrArg (KeyedTree.total Wallet.balance) (Keeps.writeAside aside state).ledger.wallets_eq
    exact ⟨⟨stored.trans_le supplied.stored_le, supplied.bounded⟩, trivial⟩

/-- In every run whose calls find room for what they mint, the stored balances add up to a `u64`
and every accepted call moves exactly the amounts it names. -/
theorem supplied_of_reach {env : String → Option String} {config : NodeConfig F} {start : CoinState F}
    (opened : (openCoinState C env config .empty).1 = .ok start)
    (reach : Reach (fun state call => Call.next C call state) (fun state call => call.HasRoom C state) start state) :
    state.storedSupply ≤ u64Max ∧ ∀ call : Call F, call.HasRoom C state → call.LosesNothing C state := by
  have first := openCoinState_empty opened
  have initial : start.Supplied := by
    have supply : start.system.totalSupply = 0 := congrArg SystemState.totalSupply first.default_eq
    exact ⟨first.storedSupply.trans_le (Nat.zero_le _), supply.trans_le (Nat.zero_le _)⟩
  have supplied : state.Supplied :=
    reach.invariant CoinState.Supplied initial fun _ _ supplied room => (Call.supplied supplied room).1
  exact ⟨supplied.storedSupply_le, fun call room => (call.supplied supplied room).2⟩

variable (parameters) in
/-- A seed file of one new wallet, on a node that can sign. -/
theorem storedSupply_installSeed_one (clock : Nat → Timestamp) (entry : SeedWallet) {key : FixedBytes 32}
    (unlocked : state.system.iterationLock = false) (formed : Crypto.WellFormedSecret state.operatorSecret)
    (read : fixed32 entry.publicKey = .ok key) (absent : state.getWallet (C.blake3Hex key.val) = none) :
    ((Call.installSeed parameters ⟨[entry]⟩ clock).next C state).storedSupply =
      state.storedSupply + entry.initialBalance.getD (microSeed parameters) := by
  have hex : normalizeBytesToHex entry.publicKey 32 = .ok (Hex.encode key.val) :=
    normalizeBytesToHex_eq_ok_iff.mpr ⟨key, read, rfl⟩
  have named : C.walletIdFromPublicKey (Hex.encode key.val) = .ok (C.blake3Hex key.val) :=
    C.walletIdFromPublicKey_eq_ok_iff.mpr ⟨key, fixedBytes_encode key (by decide), rfl⟩
  obtain ⟨plan, planned⟩ : ∃ plan, planSeedWallet C parameters entry (clock (3 * 0)) (clock (3 * 0 + 1)) state =
      .ok (some plan) := by
    simp [planSeedWallet, mapErr, hex, named, absent, bind, Except.bind, pure, Except.pure]
  obtain ⟨valid, amount⟩ := planSeedWallet_ok planned
  have ran : (Call.installSeed parameters ⟨[entry]⟩ clock).next C state =
      (installSeed C parameters ⟨[entry]⟩ clock state).2 := rfl
  rw [ran, installSeed, unlocked]
  rcases insertMinted_cases valid (clock (3 * 0 + 2)) with ⟨anchor, _, _, posted⟩ | ⟨_, malformed, _⟩
  · simp only [installEntries, planned, posted, Bool.false_eq_true, if_false]
    rw [CoinState.storedSupply, (CoinState.sameLedger_storeState _).wallets_eq, ← amount]
    exact valid.storedSupply_posted _ _ anchor
  · exact absurd formed malformed

namespace Concrete

/-- A seed file that gives one wallet all a `u64` can hold. -/
def richSeed (key : FixedBytes 32) : SeedFile := ⟨[⟨Hex.encode key.val, some u64Max⟩]⟩

/-- The first wallet and a rich one hold more together than a `u64` can say. -/
theorem supply_overflown :
    ∃ state : CoinState ℚ, Reach (fun state call => Call.next crypto call state) (fun _ _ => True) node state ∧
      ¬ state.storedSupply ≤ u64Max := by
  have created : Reach (fun state call => Call.next crypto call state) (fun _ _ => True) node (firstNode (key 7)) :=
    .next (i := firstCall (key 7)) .start trivial
  refine ⟨_, .next (i := .installSeed parameters (richSeed (key 8)) fun _ => 0) created trivial, ?_⟩
  obtain ⟨unlocked, _, _, secret⟩ := firstNode_system (key 7)
  have grown := storedSupply_installSeed_one (C := crypto) parameters (fun _ => 0)
    ⟨Hex.encode (key 8).val, Option.some u64Max⟩ unlocked (secret ▸ node_formed)
    (fixedBytes_encode (key 8) (by decide)) firstNode_absent
  rw [firstNode_storedSupply] at grown
  refine fun bounded => ?_
  have above : 10000000 + u64Max ≤ u64Max := grown.symm.trans_le bounded
  exact absurd above (by decide)

end Concrete

end AggoraCoin
