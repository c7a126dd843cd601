import AggoraCoin.Operations

namespace AggoraCoin

theorem bind_eq_ok_iff {ε α β : Type} {x : Except ε α} {f : α → Except ε β} {b : β} :
    (x >>= f) = .ok b ↔ ∃ a, x = .ok a ∧ f a = .ok b := by
  cases x <;> simp [bind, Except.bind]

theorem pure_eq_ok_iff {ε α : Type} {a b : α} : (pure a : Except ε α) = .ok b ↔ a = b := by
  simp [pure, Except.pure]

theorem rejectIf_eq_ok_iff {rejected : Prop} [Decidable rejected] {e : StateError} {u : Unit} :
    rejectIf rejected e = .ok u ↔ ¬ rejected := by
  unfold rejectIf
  split <;> simp_all

theorem okOr_eq_ok_iff {α : Type} {found : Option α} {e : StateError} {a : α} :
    okOr found e = .ok a ↔ found = some a := by
  cases found <;> simp [okOr]

theorem mapErr_eq_ok_iff {α : Type} {f : String → StateError} {x : Except String α} {a : α} :
    mapErr f x = .ok a ↔ x = .ok a := by
  cases x <;> simp [mapErr]

variable {F : Type} {C : Crypto}

/-- Without the development bypass an accepted signature verifies under the decoded key over
the 32 bytes of the transaction id. -/
theorem verifyUserSignature_ok {security : SecurityParameters} {publicKey signature : String} {payload : Bytes}
    (checked : security.devAuthBypass = false)
    (verified : verifyUserSignature C security publicKey (C.blake3Hex payload) signature = .ok ()) :
    ∃ key sig, fixed32 publicKey = .ok key ∧ fixed64 signature = .ok sig ∧ C.validKey key = true ∧
      C.verify key (C.blake3 payload).val sig = true := by
  simp only [verifyUserSignature, checked, Bool.false_eq_true, false_and, if_false, bind_eq_ok_iff,
    mapErr_eq_ok_iff, rejectIf_eq_ok_iff, Bool.not_eq_false, txSigningMessage_blake3Hex] at verified
  obtain ⟨message, same, valid, accepted, holds⟩ := verified
  cases same
  subst holds
  exact C.verifyEd25519_eq_ok_true_iff.mp accepted

theorem verifyUserSignature_of_verified {security : SecurityParameters} {publicKey signature : String} {payload : Bytes}
    (checked : security.devAuthBypass = false)
    (verified : C.verifyEd25519 publicKey (C.blake3 payload).val signature = .ok true) :
    verifyUserSignature C security publicKey (C.blake3Hex payload) signature = .ok () := by
  have message := txSigningMessage_blake3Hex C payload
  simp [verifyUserSignature, checked, message, mapErr, verified, rejectIf, bind, Except.bind]

variable {state : CoinState F}

section Minting

variable [F64 F]

/-- A wallet about to be minted is new, is named by the hash of its key, and is recorded in
full by the transaction that mints it. -/
structure MintPlan.Valid (C : Crypto) (operatorId : OperatorId) (state : CoinState F) (plan : MintPlan F) :
    Prop where
  wallet_eq : ∃ key : FixedBytes 32, plan.wallet = .fresh (C.blake3Hex key.val) (Hex.encode key.val)
    plan.wallet.balance (state.system.currentTick + 1) state.system.currentIteration operatorId
  absent : state.getWallet plan.wallet.id = none
  payload_toId : plan.payload.toId = plan.wallet.id
  payload_amount : plan.payload.amount = plan.wallet.balance
  payload_nonce : plan.payload.nonce = state.system.currentTick + 1
  tx_txId : plan.tx.txId = mintTxId C plan.payload
  tx_toId : plan.tx.toId = plan.wallet.id
  tx_amount : plan.tx.amount = plan.wallet.balance
  tx_nonce : plan.tx.nonce = state.system.currentTick + 1

theorem planCreateWallet_ok {parameters : SystemParameters F} {request : WalletCreateRequest} {operator : Operator}
    {operatorSig : String} {plan : MintPlan F}
    (planned : planCreateWallet C parameters request operator operatorSig state = .ok plan) :
    state.system.iterationLock = false ∧ plan.Valid C operator.id state ∧
      plan.wallet.balance = microSeed parameters := by
  simp only [planCreateWallet, bind_eq_ok_iff, mapErr_eq_ok_iff, rejectIf_eq_ok_iff, pure_eq_ok_iff,
    Bool.not_eq_true, normalizeBytesToHex_eq_ok_iff] at planned
  obtain ⟨_, _, publicKey, ⟨key, _, rfl⟩, walletId, named, _, unlocked, _, absent, rfl⟩ := planned
  obtain ⟨key', same, rfl⟩ := C.walletIdFromPublicKey_eq_ok_iff.mp named
  have read : fixed32 (Hex.encode key.val) = .ok key := fixedBytes_encode key (by decide)
  cases Except.ok.inj (read.symm.trans same)
  have missing : state.getWallet (C.blake3Hex key.val) = none := by simpa using absent
  exact ⟨unlocked, ⟨⟨key, rfl⟩, missing, rfl, rfl, rfl, rfl, rfl, rfl, rfl⟩, rfl⟩

/-- A wallet is planned for any 32-byte key that has none. -/
theorem planCreateWallet_of_checks (parameters : SystemParameters F) {request : WalletCreateRequest}
    {key : FixedBytes 32} (read : fixed32 request.publicKey = .ok key)
    (captcha : (trim request.captchaToken).isEmpty = false) (unlocked : state.system.iterationLock = false)
    (absent : state.getWallet (C.blake3Hex key.val) = none) (operator : Operator) (operatorSig : String) :
    ∃ plan, planCreateWallet C parameters request operator operatorSig state = .ok plan ∧
      plan.wallet = .fresh (C.blake3Hex key.val) (Hex.encode key.val) (microSeed parameters)
        (state.system.currentTick + 1) state.system.currentIteration operator.id ∧
      plan.payload = {
        toId := C.blake3Hex key.val, amount := microSeed parameters, eurAmount := 0, operatorId := operator.id,
        nonce := state.system.currentTick + 1, timestamp := request.timestamp, category := "wallet_seed" } := by
  have hex : normalizeBytesToHex request.publicKey 32 = .ok (Hex.encode key.val) :=
    normalizeBytesToHex_eq_ok_iff.mpr ⟨key, read, rfl⟩
  have named : C.walletIdFromPublicKey (Hex.encode key.val) = .ok (C.blake3Hex key.val) :=
    C.walletIdFromPublicKey_eq_ok_iff.mpr ⟨key, fixedBytes_encode key (by decide), rfl⟩
  simp only [planCreateWallet, mapErr, hex, named, unlocked, absent, captcha, rejectIf, Bool.false_eq_true, and_false,
    Option.isSome_none, if_false, bind, Except.bind, pure, Except.pure]
  exact ⟨_, rfl, rfl, rfl⟩

theorem planSeedWallet_ok {parameters : SystemParameters F} {entry : SeedWallet} {hashed stored : Timestamp}
    {plan : MintPlan F} (planned : planSeedWallet C parameters entry hashed stored state = .ok (some plan)) :
    plan.Valid C state.operatorId state ∧ plan.wallet.balance = entry.initialBalance.getD (microSeed parameters) := by
  simp only [planSeedWallet, bind_eq_ok_iff, mapErr_eq_ok_iff, normalizeBytesToHex_eq_ok_iff] at planned
  obtain ⟨publicKey, ⟨key, _, rfl⟩, walletId, named, planned⟩ := planned
  split at planned
  · simp only [pure_eq_ok_iff, reduceCtorEq] at planned
  · rename_i absent
    simp only [pure_eq_ok_iff, Option.some.injEq] at planned
    subst planned
    obtain ⟨key', same, rfl⟩ := C.walletIdFromPublicKey_eq_ok_iff.mp named
    have read : fixed32 (Hex.encode key.val) = .ok key := fixedBytes_encode key (by decide)
    cases Except.ok.inj (read.symm.trans same)
    have missing : state.getWallet (C.blake3Hex key.val) = none := by simpa using absent
    exact ⟨⟨⟨key, rfl⟩, missing, rfl, rfl, rfl, rfl, rfl, rfl, rfl⟩, rfl⟩

end Minting

structure ChargePlan.Valid (C : Crypto) (request : ChargeRequest) (state : CoinState F) (wallet : Wallet F)
    (plan : ChargePlan F) : Prop where
  stored : state.getWallet request.toId = some wallet
  wallet_eq : plan.wallet = { wallet with balance := Unsigned.saturatingAdd 64 wallet.balance request.amount }
  payload_toId : plan.payload.toId = request.toId
  payload_amount : plan.payload.amount = request.amount
  payload_nonce : plan.payload.nonce = state.system.currentTick + 1
  tx_txId : plan.tx.txId = mintTxId C plan.payload
  tx_toId : plan.tx.toId = request.toId
  tx_amount : plan.tx.amount = request.amount
  tx_nonce : plan.tx.nonce = state.system.currentTick + 1

theorem planCharge_ok {request : ChargeRequest} {operator : Operator} {operatorSig : String} {plan : ChargePlan F}
    (planned : planCharge C request operator operatorSig state = .ok plan) :
    state.system.iterationLock = false ∧ ∃ wallet, plan.Valid C request state wallet := by
  simp only [planCharge, bind_eq_ok_iff, rejectIf_eq_ok_iff, okOr_eq_ok_iff, pure_eq_ok_iff,
    Bool.not_eq_true] at planned
  obtain ⟨_, unlocked, wallet, stored, rfl⟩ := planned
  exact ⟨unlocked, wallet, stored, rfl, rfl, rfl, rfl, rfl, rfl, rfl, rfl⟩

structure TransferPlan.Valid (C : Crypto) (security : SecurityParameters) (request : TransferRequest)
    (state : CoinState F) (key : FixedBytes 32) (fromWallet toWallet : Wallet F) (plan : TransferPlan F) : Prop where
  distinct : request.fromId ≠ request.toId
  positive : 0 < request.amount
  sender_key : fixed32 request.senderPubkey = .ok key
  sender_id : request.fromId = C.blake3Hex key.val
  signed : verifyUserSignature C security request.senderPubkey
    (C.hashSerializable (request.payload (Hex.encode key.val)).toJson) request.userSig = .ok ()
  stored_from : state.getWallet request.fromId = some fromWallet
  stored_to : state.getWallet request.toId = some toWallet
  nonce_eq : fromWallet.nonce = request.nonce
  covered : request.amount ≤ fromWallet.balance
  fromWallet_eq : plan.fromWallet =
    ((fromWallet.spend request.amount).touch state.system.currentIteration).meet request.toId
  toWallet_eq : plan.toWallet =
    ((toWallet.receive request.amount).touch state.system.currentIteration).meet request.fromId
  newlyActive_eq : plan.newlyActive =
    fromWallet.newlyActive state.system.currentIteration + toWallet.newlyActive state.system.currentIteration
  tx_eq : plan.tx = {
    txId := C.hashSerializable (request.payload (Hex.encode key.val)).toJson, fromId := request.fromId,
    toId := request.toId, amount := request.amount, nonce := request.nonce, timestamp := request.timestamp,
    senderPubkey := Hex.encode key.val, userSig := request.userSig }

theorem transferTxId_eq_ok_iff {request : TransferRequest} {txId : Hash} :
    transferTxId C request = .ok txId ↔ ∃ key, fixed32 request.senderPubkey = .ok key ∧
      txId = C.hashSerializable (request.payload (Hex.encode key.val)).toJson := by
  unfold transferTxId
  cases normalized : normalizeBytesToHex request.senderPubkey 32 with
  | error e =>
    simp only [reduceCtorEq, false_iff, not_exists, not_and]
    intro key read
    cases normalized.symm.trans (normalizeBytesToHex_eq_ok_iff.mpr ⟨key, read, rfl⟩)
  | ok hex =>
    obtain ⟨key, read, rfl⟩ := normalizeBytesToHex_eq_ok_iff.mp normalized
    have read' : fixed32 request.senderPubkey = .ok key := read
    simp only [Except.ok.injEq, read', exists_eq_left', eq_comm]

theorem burnTxId_eq_ok_iff {request : BurnRequest} {txId : Hash} :
    burnTxId C request = .ok txId ↔ ∃ key, fixed32 request.senderPubkey = .ok key ∧
      txId = C.hashSerializable (request.payload (Hex.encode key.val)).toJson := by
  unfold burnTxId
  cases normalized : normalizeBytesToHex request.senderPubkey 32 with
  | error e =>
    simp only [reduceCtorEq, false_iff, not_exists, not_and]
    intro key read
    cases normalized.symm.trans (normalizeBytesToHex_eq_ok_iff.mpr ⟨key, read, rfl⟩)
  | ok hex =>
    obtain ⟨key, read, rfl⟩ := normalizeBytesToHex_eq_ok_iff.mp normalized
    have read' : fixed32 request.senderPubkey = .ok key := read
    simp only [Except.ok.injEq, read', exists_eq_left', eq_comm]

theorem planTransfer_ok {security : SecurityParameters} {request : TransferRequest} {plan : TransferPlan F}
    (planned : planTransfer C security request state = .ok plan) :
    state.system.iterationLock = false ∧
      ∃ key fromWallet toWallet, plan.Valid C security request state key fromWallet toWallet := by
  simp only [planTransfer, bind_eq_ok_iff, mapErr_eq_ok_iff, rejectIf_eq_ok_iff, okOr_eq_ok_iff, pure_eq_ok_iff,
    transferTxId_eq_ok_iff, normalizeBytesToHex_eq_ok_iff, C.walletIdFromPublicKey_eq_ok_iff, Bool.not_eq_true,
    ne_eq, not_not, not_lt] at planned
  obtain ⟨_, distinct, _, positive, walletId, ⟨key, read, rfl⟩, _, owner, txId, ⟨key', read', rfl⟩, senderPubkey,
    ⟨key'', read'', rfl⟩, _, signed, _, unlocked, fromWallet, storedFrom, toWallet, storedTo, _, nonceEq, _,
    covered, rfl⟩ := planned
  cases Except.ok.inj (read.symm.trans read')
  cases Except.ok.inj (read.symm.trans read'')
  exact ⟨unlocked, key, fromWallet, toWallet, distinct, Nat.pos_of_ne_zero positive, read, owner.symm, signed,
    storedFrom, storedTo, nonceEq, covered, rfl, rfl, rfl, rfl⟩

structure BurnPlan.Valid (C : Crypto) (security : SecurityParameters) (request : BurnRequest)
    (state : CoinState F) (key : FixedBytes 32) (wallet : Wallet F) (plan : BurnPlan F) : Prop where
  positive : 0 < request.amount
  sender_key : fixed32 request.senderPubkey = .ok key
  sender_id : request.fromId = C.blake3Hex key.val
  signed : verifyUserSignature C security request.senderPubkey
    (C.hashSerializable (request.payload (Hex.encode key.val)).toJson) request.userSig = .ok ()
  stored : state.getWallet request.fromId = some wallet
  nonce_eq : wallet.nonce = request.nonce
  covered : request.amount ≤ wallet.balance
  wallet_eq : plan.wallet = (wallet.spend request.amount).touch state.system.currentIteration
  newlyActive_eq : plan.newlyActive = wallet.newlyActive state.system.currentIteration
  tx_eq : plan.tx = {
    txId := C.hashSerializable (request.payload (Hex.encode key.val)).toJson, fromId := request.fromId,
    amount := request.amount, nonce := request.nonce, timestamp := request.timestamp,
    senderPubkey := Hex.encode key.val, userSig := request.userSig }

theorem planBurn_ok {security : SecurityParameters} {request : BurnRequest} {plan : BurnPlan F}
    (planned : planBurn C security request state = .ok plan) :
    state.system.iterationLock = false ∧ ∃ key wallet, plan.Valid C security request state key wallet := by
  simp only [planBurn, bind_eq_ok_iff, mapErr_eq_ok_iff, rejectIf_eq_ok_iff, okOr_eq_ok_iff, pure_eq_ok_iff,
    burnTxId_eq_ok_iff, normalizeBytesToHex_eq_ok_iff, C.walletIdFromPublicKey_eq_ok_iff, Bool.not_eq_true,
    ne_eq, not_not, not_lt] at planned
  obtain ⟨_, positive, walletId, ⟨key, read, rfl⟩, _, owner, txId, ⟨key', read', rfl⟩, senderPubkey,
    ⟨key'', read'', rfl⟩, _, signed, _, unlocked, wallet, stored, _, nonceEq, _, covered, rfl⟩ := planned
  cases Except.ok.inj (read.symm.trans read')
  cases Except.ok.inj (read.symm.trans read'')
  exact ⟨unlocked, key, wallet, Nat.pos_of_ne_zero positive, read, owner.symm, signed, stored, nonceEq, covered,
    rfl, rfl, rfl⟩

/-- A transfer passes once every check does. -/
theorem planTransfer_of_checks {security : SecurityParameters} {request : TransferRequest} {key : FixedBytes 32}
    {fromWallet toWallet : Wallet F} (distinct : request.fromId ≠ request.toId) (positive : request.amount ≠ 0)
    (read : fixed32 request.senderPubkey = .ok key) (own : C.blake3Hex key.val = request.fromId)
    (signed : verifyUserSignature C security request.senderPubkey
      (C.hashSerializable (request.payload (Hex.encode key.val)).toJson) request.userSig = .ok ())
    (unlocked : state.system.iterationLock = false) (storedFrom : state.getWallet request.fromId = some fromWallet)
    (storedTo : state.getWallet request.toId = some toWallet) (nonce : fromWallet.nonce = request.nonce)
    (covered : ¬ fromWallet.balance < request.amount) :
    ∃ plan, planTransfer C security request state = .ok plan := by
  have hex := normalizeBytesToHex_eq_ok_iff.mpr ⟨key, read, rfl⟩
  have named := C.walletIdFromPublicKey_eq_ok_iff.mpr ⟨key, read, rfl⟩
  have hash := (transferTxId_eq_ok_iff (C := C)).mpr ⟨key, read, rfl⟩
  simp only [planTransfer, rejectIf, distinct, positive, if_false, mapErr, named, own, ne_eq, not_true, hash, hex, signed,
    unlocked, Bool.false_eq_true, okOr, storedFrom, storedTo, nonce, covered, bind, Except.bind, pure, Except.pure]
  exact ⟨_, rfl⟩

/-- A burn passes once every check does. -/
theorem planBurn_of_checks {security : SecurityParameters} {request : BurnRequest} {key : FixedBytes 32}
    {wallet : Wallet F} (positive : request.amount ≠ 0) (read : fixed32 request.senderPubkey = .ok key)
    (own : C.blake3Hex key.val = request.fromId)
    (signed : verifyUserSignature C security request.senderPubkey
      (C.hashSerializable (request.payload (Hex.encode key.val)).toJson) request.userSig = .ok ())
    (unlocked : state.system.iterationLock = false) (stored : state.getWallet request.fromId = some wallet)
    (nonce : wallet.nonce = request.nonce) (covered : ¬ wallet.balance < request.amount) :
    ∃ plan, planBurn C security request state = .ok plan := by
  have hex := normalizeBytesToHex_eq_ok_iff.mpr ⟨key, read, rfl⟩
  have named := C.walletIdFromPublicKey_eq_ok_iff.mpr ⟨key, read, rfl⟩
  have hash := (burnTxId_eq_ok_iff (C := C)).mpr ⟨key, read, rfl⟩
  simp only [planBurn, rejectIf, positive, if_false, mapErr, named, own, ne_eq, not_true, hash, hex, signed, unlocked,
    Bool.false_eq_true, okOr, stored, nonce, covered, bind, Except.bind, pure, Except.pure]
  exact ⟨_, rfl⟩

end AggoraCoin
