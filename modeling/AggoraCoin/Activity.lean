import AggoraCoin.CallSteps
import AggoraCoin.CommitAgreement
import AggoraCoin.Spending

namespace AggoraCoin

variable {F : Type}

namespace Transaction

variable (id : WalletId)

/-- A transfer or burn the wallet takes part in. -/
def involves : Transaction F → Bool
  | transfer tx => tx.fromId = id ∨ tx.toId = id
  | burn tx => tx.fromId = id
  | _ => false

/-- The other party of a transfer. -/
def counterparty : Transaction F → Option WalletId
  | transfer tx => if tx.fromId = id then some tx.toId else if tx.toId = id then some tx.fromId else none
  | _ => none

/-- Where the counters of a wallet start again: an iteration, or the wallet's own creation. -/
def restarts : Transaction F → Bool
  | iterationCommit _ => true
  | mint tx => tx.toId = id ∧ tx.category ≠ "charge"
  | _ => false

end Transaction

/-- The transactions accepted since the last iteration or the creation of the wallet, the latest first. -/
def CoinState.recent (state : CoinState F) (id : WalletId) : List (Transaction F) :=
  state.history.reverse.takeWhile fun tx => !tx.restarts id

/-- The counters of a wallet say what the recent transactions say. -/
structure Wallet.Counts (wallet : Wallet F) (id : WalletId) (recent : List (Transaction F))
    (iteration : IterationId) : Prop where
  count : wallet.iterationTxCount = recent.countP (Transaction.involves id) % 2 ^ 32
  counterparties : ∀ other, other ∈ wallet.iterationCounterparties ↔
    ∃ tx ∈ recent, tx.counterparty id = some other
  lastActive : wallet.lastActiveIteration ≤ iteration

namespace Wallet.Counts

variable {wallet : Wallet F} {id : WalletId} {recent : List (Transaction F)} {iteration : IterationId}
  {tx : Transaction F}

/-- Only three fields matter. -/
theorem congr {other : Wallet F} (counts : wallet.Counts id recent iteration)
    (count : other.iterationTxCount = wallet.iterationTxCount)
    (counterparties : other.iterationCounterparties = wallet.iterationCounterparties)
    (lastActive : other.lastActiveIteration = wallet.lastActiveIteration) : other.Counts id recent iteration :=
  ⟨count.trans counts.count, counterparties ▸ counts.counterparties, lastActive.trans_le counts.lastActive⟩

theorem reset (count : wallet.iterationTxCount = 0) (counterparties : wallet.iterationCounterparties = ∅)
    (lastActive : wallet.lastActiveIteration ≤ iteration) : wallet.Counts id [] iteration := by
  refine ⟨count, fun other => ?_, lastActive⟩
  rw [counterparties]
  simp

theorem idle (counts : wallet.Counts id recent iteration) (aside : tx.involves id = false)
    (alone : tx.counterparty id = none) : wallet.Counts id (tx :: recent) iteration := by
  refine ⟨?_, fun other => ?_, counts.lastActive⟩
  · rw [List.countP_cons, aside]
    exact counts.count
  · rw [counts.counterparties other]
    simp [alone]

theorem touch (counts : wallet.Counts id recent iteration) (involved : tx.involves id = true)
    (alone : tx.counterparty id = none) : (wallet.touch iteration).Counts id (tx :: recent) iteration := by
  refine ⟨?_, fun other => ?_, le_rfl⟩
  · have before := counts.count
    rw [List.countP_cons, involved, if_pos rfl]
    change (wallet.iterationTxCount + 1) % 2 ^ 32 = _
    rw [before, Nat.mod_add_mod]
  · change other ∈ wallet.iterationCounterparties ↔ _
    rw [counts.counterparties other]
    simp [alone]

theorem meet {party : WalletId} (counts : wallet.Counts id recent iteration) (involved : tx.involves id = true)
    (met : tx.counterparty id = some party) : ((wallet.touch iteration).meet party).Counts id (tx :: recent) iteration := by
  refine ⟨?_, fun other => ?_, le_rfl⟩
  · have before := counts.count
    rw [List.countP_cons, involved, if_pos rfl]
    change (wallet.iterationTxCount + 1) % 2 ^ 32 = _
    rw [before, Nat.mod_add_mod]
  · change other ∈ insert party wallet.iterationCounterparties ↔ _
    rw [Finset.mem_insert, counts.counterparties other]
    simp only [List.mem_cons, exists_eq_or_imp, met, Option.some.injEq]
    exact or_congr_left eq_comm

end Wallet.Counts

section Entries

variable [F64 F] {C : Crypto} {state : CoinState F}

omit [F64 F] in
theorem CoinState.recent_enter (state : CoinState F) (sheet : Sheet F) (entry : PohEntry) (id : WalletId) :
    (state.enter sheet entry).recent id = if sheet.tx.restarts id = true then [] else sheet.tx :: state.recent id := by
  rw [recent, enter_history, List.reverse_append, List.reverse_singleton, List.singleton_append, List.takeWhile_cons]
  cases sheet.tx.restarts id <;> rfl

/-- Every stored wallet counts the transactions of its cycle. -/
def CoinState.Counted (state : CoinState F) : Prop :=
  ∀ id wallet, state.getWallet id = some wallet → wallet.Counts id (state.recent id) state.system.currentIteration

theorem planCreateWallet_category {parameters : SystemParameters F} {request : WalletCreateRequest} {operator : Operator}
    {operatorSig : String} {plan : MintPlan F}
    (planned : planCreateWallet C parameters request operator operatorSig state = .ok plan) :
    plan.tx.category = "wallet_seed" := by
  simp only [planCreateWallet, bind_eq_ok_iff, pure_eq_ok_iff] at planned
  obtain ⟨_, _, _, _, _, _, _, _, _, _, rfl⟩ := planned
  rfl

theorem planSeedWallet_category {parameters : SystemParameters F} {wallet : SeedWallet} {hashed stored : Timestamp}
    {plan : MintPlan F} (planned : planSeedWallet C parameters wallet hashed stored state = .ok (some plan)) :
    plan.tx.category = "seed_bootstrap" := by
  simp only [planSeedWallet, bind_eq_ok_iff] at planned
  obtain ⟨_, _, _, _, planned⟩ := planned
  split at planned
  · simp only [pure_eq_ok_iff, reduceCtorEq] at planned
  · simp only [pure_eq_ok_iff, Option.some.injEq] at planned
    subst planned
    rfl

omit [F64 F] in
theorem planCharge_category {request : ChargeRequest} {operator : Operator} {operatorSig : String} {plan : ChargePlan F}
    (planned : planCharge C request operator operatorSig state = .ok plan) : plan.tx.category = "charge" := by
  simp only [planCharge, bind_eq_ok_iff, pure_eq_ok_iff] at planned
  obtain ⟨_, _, _, _, rfl⟩ := planned
  rfl

/-- A wallet just minted starts its counters; nobody else is concerned. -/
theorem MintPlan.Valid.counts {operatorId : OperatorId} {plan : MintPlan F} (valid : plan.Valid C operatorId state)
    (created : plan.tx.category ≠ "charge") (counted : state.Counted) (id : WalletId) (wallet : Wallet F)
    (found : (state.trees.wallets.put plan.wallet).get id = some wallet) :
    wallet.Counts id (if (Transaction.mint plan.tx : Transaction F).restarts id = true then []
      else .mint plan.tx :: state.recent id) state.system.currentIteration := by
  obtain ⟨key, fresh⟩ := valid.wallet_eq
  rw [KeyedTree.get_put] at found
  by_cases here : plan.wallet.id = id
  · rw [if_pos here] at found
    cases found
    have restarts : (Transaction.mint plan.tx : Transaction F).restarts id = true := by
      simp [Transaction.restarts, valid.tx_toId, here, created]
    rw [if_pos restarts]
    refine .reset ?_ ?_ ?_
    · exact congrArg Wallet.iterationTxCount fresh
    · exact congrArg Wallet.iterationCounterparties fresh
    · exact (congrArg Wallet.lastActiveIteration fresh).le
  · rw [if_neg here] at found
    have elsewhere : (Transaction.mint plan.tx : Transaction F).restarts id ≠ true := by
      simp [Transaction.restarts, valid.tx_toId, here]
    rw [if_neg elsewhere]
    exact (counted id wallet found).idle rfl rfl

omit [F64 F] in
theorem TransferPlan.Valid.counts {security : SecurityParameters} {request : TransferRequest} {key : FixedBytes 32}
    {fromWallet toWallet : Wallet F} {plan : TransferPlan F}
    (valid : plan.Valid C security request state key fromWallet toWallet) (counted : state.Counted) (id : WalletId)
    (wallet : Wallet F)
    (found : ((state.trees.wallets.put plan.fromWallet).put plan.toWallet).get id = some wallet) :
    wallet.Counts id (.transfer plan.tx :: state.recent id) state.system.currentIteration := by
  have fromId : plan.tx.fromId = request.fromId := congrArg TransferTx.fromId valid.tx_eq
  have toId : plan.tx.toId = request.toId := congrArg TransferTx.toId valid.tx_eq
  rw [KeyedTree.get_put] at found
  by_cases receiver : plan.toWallet.id = id
  · rw [if_pos receiver] at found
    cases found
    have named : request.toId = id := valid.toKey.symm.trans receiver
    have counts := counted id toWallet (named ▸ valid.stored_to)
    have sender : request.fromId ≠ id := fun same => valid.distinct (same.trans named.symm)
    rw [valid.toWallet_eq]
    refine Wallet.Counts.meet (counts.congr rfl rfl rfl) ?_ ?_
    · simp [Transaction.involves, toId, named]
    · simp [Transaction.counterparty, fromId, toId, named, sender]
  rw [if_neg receiver, KeyedTree.get_put] at found
  by_cases sender : plan.fromWallet.id = id
  · rw [if_pos sender] at found
    cases found
    have named : request.fromId = id := valid.fromKey.symm.trans sender
    have counts := counted id fromWallet (named ▸ valid.stored_from)
    rw [valid.fromWallet_eq]
    refine Wallet.Counts.meet (counts.congr rfl rfl rfl) ?_ ?_
    · simp [Transaction.involves, fromId, named]
    · simp [Transaction.counterparty, fromId, toId, named]
  · rw [if_neg sender] at found
    rw [valid.toKey] at receiver
    rw [valid.fromKey] at sender
    refine (counted id wallet found).idle ?_ ?_
    · simp [Transaction.involves, fromId, toId, sender, receiver]
    · simp [Transaction.counterparty, fromId, toId, sender, receiver]

/-- What an entry writes counts the cycle it ends up in. -/
theorem Books.counts {booking : Booking F} {sheet : Sheet F} (books : Books C state booking sheet)
    (counted : state.Counted) (id : WalletId) (wallet : Wallet F)
    (found : (state.trees.wallets.putAll sheet.wallets).get id = some wallet) :
    wallet.Counts id (if sheet.tx.restarts id = true then [] else sheet.tx :: state.recent id)
      sheet.system.currentIteration := by
  cases books with
  | create planned =>
    refine (planCreateWallet_ok planned).2.1.counts ?_ counted id wallet found
    rw [planCreateWallet_category planned]
    decide
  | seed planned =>
    refine (planSeedWallet_ok planned).1.counts ?_ counted id wallet found
    rw [planSeedWallet_category planned]
    decide
  | @charge request operator operatorSig plan planned =>
    obtain ⟨_, before, valid⟩ := planCharge_ok planned
    have continues : (Transaction.mint plan.tx : Transaction F).restarts id ≠ true := by
      simp [Transaction.restarts, planCharge_category planned]
    rw [if_neg continues]
    simp only [KeyedTree.putAll_cons, KeyedTree.putAll_nil] at found
    rw [KeyedTree.get_put] at found
    split at found
    · rename_i here
      cases found
      have stored : state.getWallet id = some before := here ▸ valid.key
      rw [valid.wallet_eq]
      have kept : Wallet.Counts { before with balance := Unsigned.saturatingAdd 64 before.balance request.amount } id
          (state.recent id) state.system.currentIteration := (counted id before stored).congr rfl rfl rfl
      exact kept.idle rfl rfl
    · exact (counted id wallet found).idle rfl rfl
  | transfer valid => exact valid.counts counted id wallet found
  | @burn security request key before plan valid =>
    have fromId : plan.tx.fromId = request.fromId := congrArg BurnTx.fromId valid.tx_eq
    have continues : (Transaction.burn plan.tx : Transaction F).restarts id ≠ true := Bool.false_ne_true
    rw [if_neg continues]
    simp only [KeyedTree.putAll_cons, KeyedTree.putAll_nil] at found
    rw [KeyedTree.get_put] at found
    split at found
    · rename_i here
      cases found
      have named : request.fromId = id := valid.key_eq.symm.trans here
      have counts := counted id before (named ▸ valid.stored)
      rw [valid.wallet_eq]
      refine Wallet.Counts.touch (counts.congr rfl rfl rfl) ?_ rfl
      simp [Transaction.involves, fromId, named]
    · rename_i other
      rw [valid.key_eq] at other
      refine (counted id wallet found).idle ?_ rfl
      simp [Transaction.involves, fromId, other]
  | @commit parameters beta result valid =>
    have next : (commitSystem state.system result).currentIteration = state.system.currentIteration + 1 :=
      valid.iterationId_eq
    change wallet.Counts id [] (commitSystem state.system result).currentIteration
    rw [next]
    have outcome := valid.keyOutcome id
    rw [found] at outcome
    cases outcome with
    | opened => exact .reset rfl rfl le_rfl
    | @settled before penalty reward stored =>
      exact .reset rfl rfl ((counted id before stored).lastActive.trans (Nat.le_succ _))

/-- Counts a wallet that was active in the iteration. -/
def Wallet.activity (iteration : IterationId) (wallet : Wallet F) : Nat :=
  if wallet.lastActiveIteration = iteration then 1 else 0

omit [F64 F] in
theorem activity_add_newlyActive (iteration : IterationId) (wallet : Wallet F) :
    wallet.activity iteration + wallet.newlyActive iteration = 1 := by
  unfold Wallet.activity Wallet.newlyActive
  by_cases here : wallet.lastActiveIteration = iteration
  · rw [if_pos here, if_neg (not_not.mpr here)]
  · rw [if_neg here, if_pos here]

omit [F64 F] in
/-- A wallet that is active now and was there before adds one exactly when it is newly active. -/
theorem total_put_active {tree : KeyedTree (Wallet.id (F := F))} {wallet before : Wallet F} {iteration : IterationId}
    (stored : tree.get wallet.id = some before) (now : wallet.lastActiveIteration = iteration) :
    (tree.put wallet).total (Wallet.activity iteration) =
      tree.total (Wallet.activity iteration) + before.newlyActive iteration := by
  have replaced := KeyedTree.total_put_of_get (Wallet.activity iteration) stored
  have here : wallet.activity iteration = 1 := if_pos now
  have one := activity_add_newlyActive iteration before
  omega

/-- The cached number of active wallets is the number of wallets active in this iteration. -/
def CoinState.ActiveExact (state : CoinState F) : Prop :=
  state.system.nActiveWallets = state.trees.wallets.total (Wallet.activity state.system.currentIteration)

theorem faucetLabel_inj {iterationId : IterationId} {i j : Nat}
    (same : faucetLabel iterationId i = faucetLabel iterationId j) : i = j := by
  unfold faucetLabel at same
  rw [asBytes_append, asBytes_append _ (toString j)] at same
  exact Nat.repr_inj.mp (asBytes_injective (List.append_cancel_left same))

/-- The faucet's ids are distinct when its labels and keys do not collide. -/
theorem faucetIds_nodup {inputs : Set Bytes} (free : Set.InjOn C.blake3 inputs) {parameters : SystemParameters F}
    (hashed : ∀ input ∈ (Booking.commit parameters).hashes C state, input ∈ inputs) :
    (faucetIds C parameters (state.system.currentIteration + 1) state.listWallets.length).Nodup := by
  have listed {idx : Nat} (planned : idx ∈ List.range (plannedNewWallets parameters.growth state.listWallets.length)) :
      faucetLabel (state.system.currentIteration + 1) idx ∈ inputs ∧
        (faucetKey C (state.system.currentIteration + 1) idx).val ∈ inputs :=
    ⟨hashed _ (List.mem_flatMap.mpr ⟨idx, planned, by simp⟩), hashed _ (List.mem_flatMap.mpr ⟨idx, planned, by simp⟩)⟩
  refine List.nodup_range.map_on fun i first j second same => ?_
  have keys := free (listed first).2 (listed second).2 (C.blake3Hex_inj.mp same)
  have labels : C.blake3 (faucetLabel (state.system.currentIteration + 1) i) =
      C.blake3 (faucetLabel (state.system.currentIteration + 1) j) := Subtype.ext keys
  exact faucetLabel_inj (free (listed first).1 (listed second).1 labels)

theorem IterationResult.Valid.active {parameters : SystemParameters F} {beta : F} {result : IterationResult F}
    (valid : result.Valid C parameters state.system state.operatorId state.listWallets beta)
    (distinct : (faucetIds C parameters (state.system.currentIteration + 1) state.listWallets.length).Nodup)
    (counted : state.Counted) :
    result.commit.newWallets.length =
      (state.trees.wallets.putAll result.wallets).total (Wallet.activity (state.system.currentIteration + 1)) := by
  -- a wallet that was there before was last active in an earlier iteration
  have earlier {wallet : Wallet F} {id : WalletId}
      (found : (state.trees.wallets.putAll (settleIteration parameters beta state.listWallets).wallets).get id =
        some wallet) : wallet.activity (state.system.currentIteration + 1) = 0 := by
    cases stored : state.getWallet id with
    | none =>
      rw [(get_putAll_settled_eq_none_iff state parameters beta id).mpr stored] at found
      cases found
    | some before =>
      obtain ⟨_, penalty, reward, _, _, settled⟩ := get_putAll_settled parameters beta stored
      rw [settled] at found
      cases found
      have last : before.lastActiveIteration ≤ state.system.currentIteration := (counted id before stored).lastActive
      exact if_neg (Nat.ne_of_lt (Nat.lt_succ_of_le last))
  have old : (state.trees.wallets.putAll (settleIteration parameters beta state.listWallets).wallets).total
      (Wallet.activity (state.system.currentIteration + 1)) = 0 := by
    refine List.sum_eq_zero fun weight member => ?_
    obtain ⟨wallet, listed, rfl⟩ := List.mem_map.mp member
    exact earlier (KeyedTree.get_of_mem listed)
  have seeded : ∀ idx, (plannedWallet C parameters state.system state.operatorId idx).activity
      (state.system.currentIteration + 1) = 1 := fun _ => if_pos rfl
  rw [← plannedWallets_ids C parameters state.system state.operatorId] at distinct
  rw [valid.wallets_eq, KeyedTree.putAll_append, KeyedTree.total_putAll_over _ distinct fun _ _ _ found => earlier found,
    old, valid.newWallets_eq]
  simp [plannedWallets, Function.comp_def, seeded]

theorem MintPlan.Valid.active {operatorId : OperatorId} {plan : MintPlan F} (valid : plan.Valid C operatorId state)
    (active : state.ActiveExact) :
    state.system.nActiveWallets + 1 =
      (state.trees.wallets.put plan.wallet).total (Wallet.activity state.system.currentIteration) := by
  obtain ⟨key, fresh⟩ := valid.wallet_eq
  have here : plan.wallet.activity state.system.currentIteration = 1 :=
    if_pos (congrArg Wallet.lastActiveIteration fresh)
  rw [KeyedTree.total_put_fresh _ valid.absent, here, active]

theorem Books.active {booking : Booking F} {sheet : Sheet F} (books : Books C state booking sheet) {inputs : Set Bytes}
    (free : Set.InjOn C.blake3 inputs) (hashed : ∀ input ∈ booking.hashes C state, input ∈ inputs)
    (counted : state.Counted) (active : state.ActiveExact) :
    sheet.system.nActiveWallets + sheet.activated =
      (state.trees.wallets.putAll sheet.wallets).total (Wallet.activity sheet.system.currentIteration) := by
  cases books with
  | create planned => exact (planCreateWallet_ok planned).2.1.active active
  | seed planned => exact (planSeedWallet_ok planned).1.active active
  | charge planned =>
    obtain ⟨_, before, valid⟩ := planCharge_ok planned
    have replaced := KeyedTree.total_put_of_get (Wallet.activity state.system.currentIteration) valid.key
    have same := congrArg (Wallet.activity state.system.currentIteration) valid.wallet_eq
    exact active.trans (Nat.add_right_cancel (replaced.trans (congrArg _ same))).symm
  | @transfer security request key fromWallet toWallet plan valid =>
    have sender := total_put_active valid.sender (congrArg Wallet.lastActiveIteration valid.fromWallet_eq)
    have receiver := total_put_active valid.receiver (congrArg Wallet.lastActiveIteration valid.toWallet_eq)
    have both := receiver.trans (congrArg (· + _) sender)
    change state.system.nActiveWallets + plan.newlyActive = _
    rw [active, valid.newlyActive_eq, ← Nat.add_assoc]
    exact both.symm
  | @burn security request key wallet plan valid =>
    have sender := total_put_active valid.sender (congrArg Wallet.lastActiveIteration valid.wallet_eq)
    change state.system.nActiveWallets + plan.newlyActive = _
    rw [active, valid.newlyActive_eq]
    exact sender.symm
  | @commit parameters beta result valid =>
    have next : (commitSystem state.system result).currentIteration = state.system.currentIteration + 1 :=
      valid.iterationId_eq
    have opened := valid.active (faucetIds_nodup free hashed) counted
    rw [← next] at opened
    exact opened

/-- Counters, per wallet and cached, against the history. -/
structure CoinState.Tallied (state : CoinState F) : Prop where
  counted : state.Counted
  active : state.ActiveExact

theorem Books.tallied {booking : Booking F} {sheet : Sheet F} {entry : PohEntry} (books : Books C state booking sheet)
    {inputs : Set Bytes} (free : Set.InjOn C.blake3 inputs) (hashed : ∀ input ∈ booking.hashes C state, input ∈ inputs)
    (tallied : state.Tallied) : (state.enter sheet entry).Tallied := by
  constructor
  · intro id wallet found
    rw [CoinState.getWallet, CoinState.enter_wallets] at found
    rw [CoinState.recent_enter]
    exact books.counts tallied.counted id wallet found
  · have active := books.active free hashed tallied.counted tallied.active
    rw [CoinState.ActiveExact, CoinState.enter_wallets]
    exact active

omit [F64 F] in
theorem Quiet.tallied {after : CoinState F} (quiet : Quiet state after) (tallied : state.Tallied) : after.Tallied := by
  obtain ⟨lock, system⟩ := quiet.system
  have wallets := quiet.ledger.wallets_eq
  constructor
  · intro id wallet found
    rw [CoinState.getWallet, wallets] at found
    rw [CoinState.recent, quiet.past.1, system]
    exact tallied.counted id wallet found
  · rw [CoinState.ActiveExact, wallets, system]
    exact tallied.active

theorem OpenedEmpty.tallied {env : String → Option String} {config : NodeConfig F} {start : CoinState F}
    (opened : (openCoinState C env config .empty).1 = .ok start) : start.Tallied := by
  have first := openCoinState_empty opened
  constructor
  · intro id wallet found
    rw [first.getWallet] at found
    cases found
  · rw [CoinState.ActiveExact, first.wallets_eq, first.default_eq]
    rfl

end Entries

namespace Concrete

end Concrete

end AggoraCoin
