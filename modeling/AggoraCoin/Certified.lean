import AggoraCoin.CallSteps
import AggoraCoin.Opening

namespace AggoraCoin

variable {F : Type} [F64 F] {C : Crypto} {state : CoinState F}

def MintTx.payload (tx : MintTx) : MintPayload where
  toId := tx.toId
  amount := tx.amount
  eurAmount := tx.eurAmount
  operatorId := tx.operatorId
  nonce := tx.nonce
  timestamp := tx.timestamp
  category := tx.category

def TransferTx.request (tx : TransferTx) : TransferRequest where
  fromId := tx.fromId
  toId := tx.toId
  amount := tx.amount
  nonce := tx.nonce
  timestamp := tx.timestamp
  senderPubkey := tx.senderPubkey
  userSig := tx.userSig

def BurnTx.request (tx : BurnTx) : BurnRequest where
  fromId := tx.fromId
  amount := tx.amount
  nonce := tx.nonce
  timestamp := tx.timestamp
  senderPubkey := tx.senderPubkey
  userSig := tx.userSig

/-- The id function of the record's kind, run on the record's own fields, gives its id. -/
def Transaction.SelfCertifying (C : Crypto) : Transaction F → Prop
  | mint tx => mintTxId C tx.payload = tx.txId
  | transfer tx => transferTxId C tx.request = .ok tx.txId
  | burn tx => burnTxId C tx.request = .ok tx.txId
  | iterationCommit tx => iterationCommitHash C tx = tx.txId
  | operatorChange _ => True

theorem planCreateWallet_payload {parameters : SystemParameters F} {request : WalletCreateRequest}
    {operator : Operator} {operatorSig : String} {plan : MintPlan F}
    (planned : planCreateWallet C parameters request operator operatorSig state = .ok plan) :
    plan.payload = plan.tx.payload := by
  simp only [planCreateWallet, bind_eq_ok_iff, pure_eq_ok_iff] at planned
  obtain ⟨_, _, _, _, _, _, _, _, _, _, rfl⟩ := planned
  rfl

/-- A seeded wallet's record differs from its payload by the second clock reading. -/
theorem planSeedWallet_payload {parameters : SystemParameters F} {wallet : SeedWallet} {hashed stored : Timestamp}
    {plan : MintPlan F} (planned : planSeedWallet C parameters wallet hashed stored state = .ok (some plan)) :
    plan.payload = { plan.tx.payload with timestamp := hashed } ∧ plan.tx.timestamp = stored := by
  simp only [planSeedWallet, bind_eq_ok_iff] at planned
  obtain ⟨_, _, _, _, planned⟩ := planned
  split at planned
  · simp only [pure_eq_ok_iff, reduceCtorEq] at planned
  · simp only [pure_eq_ok_iff, Option.some.injEq] at planned
    subst planned
    exact ⟨rfl, rfl⟩

omit [F64 F] in
theorem planCharge_payload {request : ChargeRequest} {operator : Operator} {operatorSig : String}
    {plan : ChargePlan F} (planned : planCharge C request operator operatorSig state = .ok plan) :
    plan.payload = plan.tx.payload := by
  simp only [planCharge, bind_eq_ok_iff, pure_eq_ok_iff] at planned
  obtain ⟨_, _, _, _, rfl⟩ := planned
  rfl

/-- The two clock readings of a seeded wallet agree. -/
def Booking.Steady : Booking F → Prop
  | .seed _ _ hashed stored => hashed = stored
  | _ => True

theorem Books.selfCertifying {booking : Booking F} {sheet : Sheet F} (books : Books C state booking sheet)
    (steady : booking.Steady) : sheet.tx.SelfCertifying C := by
  cases books with
  | create planned =>
    have recorded := (planCreateWallet_ok planned).2.1.tx_txId
    rw [planCreateWallet_payload planned] at recorded
    exact recorded.symm
  | seed planned =>
    obtain ⟨payload, read⟩ := planSeedWallet_payload planned
    have recorded := (planSeedWallet_ok planned).1.tx_txId
    have same : _ = _ := steady
    rw [payload, same, ← read] at recorded
    exact recorded.symm
  | charge planned =>
    obtain ⟨_, wallet, valid⟩ := planCharge_ok planned
    have recorded := valid.tx_txId
    rw [planCharge_payload planned] at recorded
    exact recorded.symm
  | @transfer security request key fromWallet toWallet plan valid =>
    refine transferTxId_eq_ok_iff.mpr ⟨key, ?_, ?_⟩
    · rw [valid.tx_eq]
      exact fixedBytes_encode key (by decide)
    · rw [valid.tx_eq]
      rfl
  | @burn security request key wallet plan valid =>
    refine burnTxId_eq_ok_iff.mpr ⟨key, ?_, ?_⟩
    · rw [valid.tx_eq]
      exact fixedBytes_encode key (by decide)
    · rw [valid.tx_eq]
      rfl
  | commit valid => exact valid.txId_eq.symm

omit [F64 F] in
/-- Every archived record is one that was accepted. -/
theorem mem_history_of_archived {tx : Transaction F} (member : tx ∈ state.trees.transactions.entries) :
    tx ∈ state.history := by
  rw [CoinState.transactions_eq] at member
  rcases KeyedTree.mem_putAll member with old | accepted
  · cases old
  · exact accepted

/-- For each wallet a seed call installs, the clock reads the same for the id as for the record. -/
def Call.SteadyClock (C : Crypto) (call : Call F) (state : CoinState F) : Prop :=
  match call with
  | installSeed parameters seed clock =>
    ∀ installed < (seedPayloads C parameters clock seed.initialWallets 0 state).length,
      clock (3 * installed) = clock (3 * installed + 1)
  | _ => True

theorem Call.Admits.steady {call : Call F} {during : CoinState F} {booking : Booking F} {sheet : Sheet F}
    (admitted : call.Admits C state during booking sheet) (steady : call.SteadyClock C state) : booking.Steady := by
  have booked := admitted.booked
  cases call with
  | installSeed parameters seed clock =>
    obtain ⟨wallet, _, installed, before, rfl⟩ := booked
    exact steady installed before
  | updateParameters parameters => exact booked.elim
  | _ =>
    cases booked
    trivial

/-- In a run in which the clock stands still between the two readings of each seeded wallet, every
record is kept with the fields its id was hashed from. -/
theorem selfCertifying_of_reach {start : CoinState F} (empty : start.history = [])
    (reach : Reach (fun state call => Call.next C call state) (fun state call => call.SteadyClock C state) start
      state) : ∀ tx ∈ state.history, tx.SelfCertifying C := by
  have steps := steps_of_reach (fun _ booking _ => booking.Steady) reach
    fun before call steady _ _ _ admitted => admitted.steady steady
  refine steps.invariant (fun s => ∀ tx ∈ s.history, tx.SelfCertifying C) ?_ ?_
  · rw [empty]
    simp
  · intro before after step certified tx accepted
    cases step with
    | enter books steady _ _ =>
      rw [CoinState.enter_history, List.mem_append, List.mem_singleton] at accepted
      rcases accepted with old | rfl
      · exact certified tx old
      · exact books.selfCertifying steady
    | strand _ _ _ =>
      rw [CoinState.history_stranded] at accepted
      exact certified tx accepted
    | quiet quiet =>
      rw [quiet.past.1] at accepted
      exact certified tx accepted

/-- In such a run every mint, transfer and burn in the archive certifies itself, and so does every commit
an iteration makes. -/
theorem archive_selfCertifying {env : String → Option String} {config : NodeConfig F} {start : CoinState F}
    (opened : (openCoinState C env config .empty).1 = .ok start)
    (reach : Reach (fun state call => Call.next C call state) (fun state call => call.SteadyClock C state) start
      state) :
    (∀ tx ∈ state.trees.transactions.entries, (∀ commit, tx ≠ .iterationCommit commit) → tx.SelfCertifying C) ∧
      ∀ (wallets : List (Wallet F)) (parameters : SystemParameters F) (result : IterationResult F),
        executeIteration C wallets parameters state.system state.operatorId = .ok result →
          iterationCommitHash C result.commit = result.commit.txId := by
  constructor
  · intro tx member _
    exact selfCertifying_of_reach (openCoinState_empty_past opened).1 reach tx (mem_history_of_archived member)
  · intro wallets parameters result ran
    rcases executeIteration_cases C parameters state.system state.operatorId wallets with
      ⟨_, panicked⟩ | ⟨beta, other, returned, valid⟩
    · rw [panicked] at ran
      cases ran
    · rw [returned] at ran
      cases ran
      exact valid.txId_eq.symm

namespace Concrete

/-- One wallet to seed. -/
def seedFile (key : FixedBytes 32) : SeedFile := ⟨[⟨Hex.encode key.val, Option.some 5⟩]⟩

/-- The clock ticks between any two readings. -/
def ticking (reading : Nat) : Timestamp := reading

/-- A new node seeds the wallet, at the two readings the clock gives for it. -/
theorem seeded (key : FixedBytes 32) (clock : Nat → Timestamp) :
    ∃ (plan : MintPlan ℚ) (entry : PohEntry),
      planSeedWallet crypto parameters ⟨Hex.encode key.val, Option.some 5⟩ (clock 0) (clock 1) node =
        .ok (Option.some plan) ∧
      (Call.installSeed parameters (seedFile key) clock).next crypto node =
        (node.posted [plan.wallet] (node.system.mint plan.wallet.balance) (.mint plan.tx) entry).storeState := by
  have hex : normalizeBytesToHex (Hex.encode key.val) 32 = .ok (Hex.encode key.val) :=
    normalizeBytesToHex_eq_ok_iff.mpr ⟨key, fixedBytes_encode key (by decide), rfl⟩
  have named : crypto.walletIdFromPublicKey (Hex.encode key.val) = .ok (crypto.blake3Hex key.val) :=
    crypto.walletIdFromPublicKey_eq_ok_iff.mpr ⟨key, fixedBytes_encode key (by decide), rfl⟩
  have absent := node_opened.getWallet (crypto.blake3Hex key.val)
  have unlocked : node.system.iterationLock = false := by
    rw [node_opened.default_eq]
    rfl
  obtain ⟨plan, planned⟩ : ∃ plan, planSeedWallet crypto parameters ⟨Hex.encode key.val, Option.some 5⟩ (clock 0)
      (clock 1) node = .ok (Option.some plan) := by
    simp [planSeedWallet, mapErr, hex, named, absent, bind, Except.bind, pure, Except.pure]
  rcases insertMinted_cases (planSeedWallet_ok planned).1 (clock 2) with
    ⟨entry, _, _, ran⟩ | ⟨e, malformed, _⟩
  · refine ⟨plan, entry, planned, ?_⟩
    simp [Call.next, Call.run, installSeed, unlocked, seedFile, installEntries, planned, ran]
  · exact absurd node_formed malformed

end Concrete

/-- A seed installed while the clock ticks leaves a record that does not certify itself. -/
theorem archive_selfCertifying_ticking :
    ∃ (config : NodeConfig ℚ) (start state : CoinState ℚ),
      (openCoinState Concrete.crypto (fun _ => none) config .empty).1 = .ok start ∧
      Reach (fun state call => Call.next Concrete.crypto call state) (fun _ _ => True) start state ∧
      ∃ tx : MintTx, .mint tx ∈ state.trees.transactions.entries ∧
        ¬ (Transaction.mint tx : Transaction ℚ).SelfCertifying Concrete.crypto := by
  obtain ⟨plan, entry, planned, ran⟩ := Concrete.seeded (Concrete.key 7) Concrete.ticking
  refine ⟨Concrete.config, Concrete.node, _, Concrete.opened_node,
    .next (i := .installSeed Concrete.parameters (Concrete.seedFile (Concrete.key 7)) Concrete.ticking) .start trivial,
    plan.tx, ?_, ?_⟩
  · rw [ran, (CoinState.sameLedger_storeState _).transactions_eq, CoinState.posted_transactions]
    exact KeyedTree.mem_put_iff.mpr (Or.inl rfl)
  · intro certified
    obtain ⟨payload, read⟩ := planSeedWallet_payload planned
    have recorded := (planSeedWallet_ok planned).1.tx_txId
    have again : mintTxId Concrete.crypto plan.tx.payload = plan.tx.txId := certified
    have hashes := Concrete.crypto.blake3Hex_inj.mp (again.trans recorded)
    have one : plan.tx.payload.timestamp = 1 := read
    have zero : plan.payload = { plan.tx.payload with timestamp := 0 } := payload
    rw [zero] at hashes
    refine Concrete.digest_toVec_ne (v := 1) (w := 0)
      [("to", .str plan.tx.toId), ("amount", .num plan.tx.amount), ("eur_amount", .num plan.tx.eurAmount),
        ("operator_id", .str plan.tx.operatorId), ("nonce", .num plan.tx.nonce)]
      [("category", .str plan.tx.category)] "timestamp" (x := 49) (y := 48) (by decide) (by decide) (by decide) ?_ ?_
    · simp [Concrete.textBefore, Json.renderFields, Json.render]
      omega
    · rw [← one]
      exact hashes

/-- The same seed under a clock that stands still. -/
theorem archive_selfCertifying_still :
    (∀ tx ∈ ((Call.installSeed Concrete.parameters (Concrete.seedFile (Concrete.key 7)) fun _ => 0).next
        Concrete.crypto Concrete.node).trees.transactions.entries,
      (∀ commit, tx ≠ .iterationCommit commit) → tx.SelfCertifying Concrete.crypto) ∧
      ∀ (wallets : List (Wallet ℚ)) (parameters : SystemParameters ℚ) (result : IterationResult ℚ),
        executeIteration Concrete.crypto wallets parameters
            ((Call.installSeed Concrete.parameters (Concrete.seedFile (Concrete.key 7)) fun _ => 0).next
              Concrete.crypto Concrete.node).system
            ((Call.installSeed Concrete.parameters (Concrete.seedFile (Concrete.key 7)) fun _ => 0).next
              Concrete.crypto Concrete.node).operatorId = .ok result →
          iterationCommitHash Concrete.crypto result.commit = result.commit.txId :=
  archive_selfCertifying Concrete.opened_node (.next .start fun _ _ => rfl)

end AggoraCoin
