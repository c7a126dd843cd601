import AggoraCoin.CallSteps
import AggoraCoin.Iteration.Stored
import AggoraCoin.Opening

namespace AggoraCoin

variable {F : Type} [F64 F] {C : Crypto} {state : CoinState F} {inputs : Set Bytes}

/-- The wallet's id is the hash of its key, and the key is among `inputs`. -/
def Wallet.Keyed (C : Crypto) (inputs : Set Bytes) (wallet : Wallet F) : Prop :=
  ∃ key : FixedBytes 32, key.val ∈ inputs ∧ wallet.pubkey = Hex.encode key.val ∧ wallet.id = C.blake3Hex key.val

def CoinState.Keyed (C : Crypto) (inputs : Set Bytes) (state : CoinState F) : Prop :=
  ∀ id wallet, state.getWallet id = some wallet → wallet.Keyed C inputs

omit [F64 F] in
theorem CoinState.Keyed.put (keyed : state.Keyed C inputs) {wallet : Wallet F} (own : wallet.Keyed C inputs) :
    ∀ id found, (state.trees.wallets.put wallet).get id = some found → found.Keyed C inputs := by
  intro id found here
  rw [KeyedTree.get_put] at here
  split at here
  · cases here
    exact own
  · exact keyed id found here

/-- The key bytes listed for a key that decodes. -/
theorem mem_keyBytes {publicKey : PublicKey} {key : FixedBytes 32} (read : fixed32 publicKey = .ok key) :
    key.val ∈ keyBytes publicKey := by
  simp [keyBytes, read, Except.toOption]

theorem planCreateWallet_key {parameters : SystemParameters F} {request : WalletCreateRequest} {operator : Operator}
    {operatorSig : String} {plan : MintPlan F}
    (planned : planCreateWallet C parameters request operator operatorSig state = .ok plan) :
    ∃ key, fixed32 request.publicKey = .ok key ∧ plan.wallet.pubkey = Hex.encode key.val ∧
      plan.wallet.id = C.blake3Hex key.val := by
  simp only [planCreateWallet, bind_eq_ok_iff, mapErr_eq_ok_iff, pure_eq_ok_iff, normalizeBytesToHex_eq_ok_iff] at planned
  obtain ⟨_, _, publicKey, ⟨key, read, rfl⟩, walletId, named, _, _, _, _, rfl⟩ := planned
  obtain ⟨key', same, rfl⟩ := C.walletIdFromPublicKey_eq_ok_iff.mp named
  have again : fixed32 (Hex.encode key.val) = .ok key := fixedBytes_encode key (by decide)
  cases Except.ok.inj (again.symm.trans same)
  exact ⟨key, read, rfl, rfl⟩

theorem planSeedWallet_key {parameters : SystemParameters F} {entry : SeedWallet} {hashed stored : Timestamp}
    {plan : MintPlan F} (planned : planSeedWallet C parameters entry hashed stored state = .ok (some plan)) :
    ∃ key, fixed32 entry.publicKey = .ok key ∧ plan.wallet.pubkey = Hex.encode key.val ∧
      plan.wallet.id = C.blake3Hex key.val := by
  simp only [planSeedWallet, bind_eq_ok_iff, mapErr_eq_ok_iff, normalizeBytesToHex_eq_ok_iff] at planned
  obtain ⟨publicKey, ⟨key, read, rfl⟩, walletId, named, planned⟩ := planned
  split at planned
  · simp only [pure_eq_ok_iff, reduceCtorEq] at planned
  · simp only [pure_eq_ok_iff, Option.some.injEq] at planned
    subst planned
    obtain ⟨key', same, rfl⟩ := C.walletIdFromPublicKey_eq_ok_iff.mp named
    have again : fixed32 (Hex.encode key.val) = .ok key := fixedBytes_encode key (by decide)
    cases Except.ok.inj (again.symm.trans same)
    exact ⟨key, read, rfl, rfl⟩

theorem Books.keyed {booking : Booking F} {sheet : Sheet F} (books : Books C state booking sheet)
    (hashed : ∀ input ∈ booking.hashes C state, input ∈ inputs) (keyed : state.Keyed C inputs) :
    ∀ id wallet, (state.trees.wallets.putAll sheet.wallets).get id = some wallet → wallet.Keyed C inputs := by
  cases books with
  | create planned =>
    obtain ⟨key, read, pubkey, named⟩ := planCreateWallet_key planned
    exact keyed.put ⟨key, hashed _ (mem_keyBytes read), pubkey, named⟩
  | seed planned =>
    obtain ⟨key, read, pubkey, named⟩ := planSeedWallet_key planned
    exact keyed.put ⟨key, hashed _ (mem_keyBytes read), pubkey, named⟩
  | charge planned =>
    obtain ⟨_, wallet, valid⟩ := planCharge_ok planned
    refine keyed.put ?_
    rw [valid.wallet_eq]
    exact keyed _ wallet valid.stored
  | @transfer security request key fromWallet toWallet plan valid =>
    have sender : plan.fromWallet.Keyed C inputs := by
      rw [valid.fromWallet_eq]
      exact keyed _ fromWallet valid.stored_from
    have receiver : plan.toWallet.Keyed C inputs := by
      rw [valid.toWallet_eq]
      exact keyed _ toWallet valid.stored_to
    intro id found here
    simp only [KeyedTree.putAll_cons, KeyedTree.putAll_nil] at here
    rw [KeyedTree.get_put] at here
    split at here
    · cases here
      exact receiver
    · exact keyed.put sender id found here
  | @burn security request key wallet plan valid =>
    refine keyed.put ?_
    rw [valid.wallet_eq]
    exact keyed _ wallet valid.stored
  | @commit parameters beta result valid =>
    intro id wallet here
    have outcome := valid.keyOutcome id
    rw [here] at outcome
    cases outcome with
    | opened idx planned named =>
      refine ⟨faucetKey C (state.system.currentIteration + 1) idx, hashed _ ?_, rfl, rfl⟩
      exact List.mem_flatMap.mpr ⟨idx, List.mem_range.mpr planned, by simp⟩
    | @settled old penalty reward stored => exact keyed id old stored

/-- Also when an entry is stranded. -/
theorem keyed_of_steps {admits : CoinState F → Booking F → Sheet F → Prop} {start : CoinState F}
    (hashed : ∀ during booking sheet, admits during booking sheet → ∀ input ∈ booking.hashes C during, input ∈ inputs)
    (initial : start.Keyed C inputs) (steps : Steps C admits start state) : state.Keyed C inputs := by
  refine steps.invariant (CoinState.Keyed C inputs) initial fun before after step keyed id wallet here => ?_
  cases step with
  | enter books admitted _ _ =>
    rw [CoinState.getWallet, CoinState.enter_wallets] at here
    exact books.keyed (hashed _ _ _ admitted) keyed id wallet here
  | strand books admitted _ =>
    rw [CoinState.getWallet, CoinState.stranded_wallets] at here
    exact books.keyed (hashed _ _ _ admitted) keyed id wallet here
  | quiet quiet =>
    rw [CoinState.getWallet, quiet.ledger.wallets_eq] at here
    exact keyed id wallet here

theorem OpenedEmpty.keyed {config : NodeConfig F} {start : CoinState F} (opened : OpenedEmpty C config start) :
    start.Keyed C inputs := by
  intro id wallet here
  rw [opened.getWallet] at here
  cases here

end AggoraCoin
